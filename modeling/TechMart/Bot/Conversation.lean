import TechMart.Bot.Adapter

/-!
# The memory of a conversation

The structured memory a router returns is a channel of its own turn's run. The
next turn runs on a fresh thread, from a state the service builds without it:
`memory_carried_iff`.
-/

namespace TechMart.Bot

open Python TechMart.Graph LangGraph

/-- The memory in a reply that is a valid `RouterOutput`. -/
def replyMemory (rt : Runtime) : Except Exn Str → Dict Value
  | .ok content => match RouterOutput.ofReply rt content with
    | .ok result => result.structuredMemory
    | .error _ => []
  | .error _ => []

section
variable {rt : Runtime} {retryOn : Exn → Bool}

/-- The router of the turn was shown `memory`, and had it to fall back on. -/
def Given (memory : Dict Value) (turn : Turn (workflow rt retryOn)) : Prop :=
  ∃ r, turn.steps.head? = some [r] ∧
    (∀ prompt ans, (.routerLlm prompt, ans) ∈ r.calls → prompt.currentMemory = memory) ∧
    ∀ englishQuery, (routerFallback r.read englishQuery).structuredMemory = memory

/-- The router of the turn returned `memory`. -/
def Returned (memory : Dict Value) (turn : Turn (workflow rt retryOn)) : Prop :=
  ∃ r, turn.steps.head? = some [r] ∧ r.update.structuredMemory = some memory

/-- What the router of one turn returned is given to the router of the next. -/
def Carried (turn next : Turn (workflow rt retryOn)) : Prop :=
  ∃ memory, Returned memory turn ∧ Given memory next

/-- The first turn starts with no memory, each further one with that of the turn
before it. -/
def MemoryCarried (turns : List (Turn (workflow rt retryOn))) : Prop :=
  (∀ turn ∈ turns.head?, Given [] turn) ∧ turns.IsChain Carried

/-- The router's LLM failed, gave no valid output, or one without memory. -/
def NothingToCarry (turn : Turn (workflow rt retryOn)) : Prop :=
  ∃ r prompt ans, turn.steps.head? = some [r] ∧ (.routerLlm prompt, ans) ∈ r.calls ∧
    replyMemory rt ans = []

variable {ι θ : Type}

/-- The completed turns of one service, and its handoff status after them. The
profile, the emotion and the messages change from turn to turn. -/
inductive Conversation (srv : Server ι θ (workflow rt retryOn)) (input : ι → TurnInput)
    (svc : LLMService) : List (Turn (workflow rt retryOn)) → Str → Prop
  | start : Conversation srv input svc [] svc.handoffStatus
  | turn {turns : List (Turn (workflow rt retryOn))} {status : Str} {i : ι} {thread : θ}
      {turn : Turn (workflow rt retryOn)} (profile : Dict Value) (emotion : Str)
      (messages : List Message) : Conversation srv input svc turns status →
      input i = { svc with
        customerProfile := profile
        userEmotion := emotion
        handoffStatus := status }.turnInput messages →
      srv.turns i = some (thread, turn) → turn.Ended →
      Conversation srv input svc (turns ++ [turn]) (turn.state.handoffStatus.getD "None")

/-! ## One turn -/

theorem routerResult_memory {state : AgentState} (h : state.structuredMemory = none)
    (englishQuery : Str) (ans : Except Exn Str) :
    (routerResult rt state englishQuery ans).structuredMemory = replyMemory rt ans := by
  have hfallback : (routerFallback state englishQuery).structuredMemory = [] := by
    simp [routerFallback, h]
  cases ans with
  | error e => exact hfallback
  | ok content =>
    simp only [routerResult, replyMemory]
    cases RouterOutput.ofReply rt content with
    | error e => exact hfallback
    | ok result => rfl

/-- A completed turn is given no memory, and returns that of its router's reply. -/
theorem ended_memory {serves : Node → Call → Except Exn Str → Prop} {input : TurnInput}
    {turn : Turn (workflow rt retryOn)}
    (h : Turn.Reachable serves (Turn.start _ {} input.initialState) turn) (hended : turn.Ended) :
    ∃ r prompt ans, turn.steps.head? = some [r] ∧ (.routerLlm prompt, ans) ∈ r.calls ∧
      (∀ prompt' ans', (.routerLlm prompt', ans') ∈ r.calls → prompt' = prompt ∧ ans' = ans) ∧
      Given [] turn ∧ Returned (replyMemory rt ans) turn := by
  obtain ⟨nodes, sound⟩ := h.sound
  have hstart : (workflow rt retryOn).reduce {} input.initialState = input.initialState :=
    AgentState.reduce_empty _
  rw [hstart] at sound
  have hnodes : nodes = [] := by rw [← sound.working hended.2, hended.1, List.map_nil]
  subst hnodes
  have hcourse := workflow_course sound.chain
  generalize hsteps : turn.steps = steps at hcourse
  generalize turn.state = state at hcourse
  generalize hnodes : ([] : List Node) = nodes at hcourse
  cases hcourse with
  | routing | answering => cases hnodes
  | working _ hrequested => exact absurd (List.map_eq_nil_iff.mp hnodes.symm) hrequested
  | @ended r last ans ws z hrouted _ _ =>
    have hhead : turn.steps.head? = some [r] := by rw [hsteps]; rfl
    obtain ⟨a, hcalls⟩ := hrouted.calls
    have honly : ∀ prompt ans', (.routerLlm prompt, ans') ∈ r.calls →
        prompt = routerPrompt input.initialState ∧ ans' = ans := by
      intro prompt ans' hmem
      simpa [hcalls] using hmem
    refine ⟨r, _, ans, rfl, hrouted.asked, honly, ⟨r, hhead, ?_, ?_⟩, r, hhead, ?_⟩
    · intro prompt ans' hmem
      rw [(honly prompt ans' hmem).1]
      rfl
    · intro englishQuery
      rw [hrouted.read]
      rfl
    · rw [hrouted.update, routerUpdate, routerResult_memory rfl]

/-! ## The conversation -/

/-- What holds of every completed turn of a service. -/
structure Forgetful (turn : Turn (workflow rt retryOn)) : Prop where
  given : Given [] turn
  carried_iff : ∀ next, Given [] next → (Carried turn next ↔ NothingToCarry turn)

theorem returned_unique {turn : Turn (workflow rt retryOn)} {memory memory' : Dict Value}
    (h : Returned memory turn) (h' : Returned memory' turn) : memory = memory' := by
  obtain ⟨r, hr, hmemory⟩ := h
  obtain ⟨r', hr', hmemory'⟩ := h'
  have hrecord : [r] = [r'] := Option.some.inj (hr.symm.trans hr')
  cases hrecord
  exact Option.some.inj (hmemory.symm.trans hmemory')

theorem given_unique {turn : Turn (workflow rt retryOn)} {memory memory' : Dict Value}
    (h : Given memory turn) (h' : Given memory' turn) : memory = memory' := by
  obtain ⟨r, hr, -, hmemory⟩ := h
  obtain ⟨r', hr', -, hmemory'⟩ := h'
  have hrecord : [r] = [r'] := Option.some.inj (hr.symm.trans hr')
  cases hrecord
  exact (hmemory []).symm.trans (hmemory' [])

theorem ended_forgetful {serves : Node → Call → Except Exn Str → Prop} {input : TurnInput}
    {turn : Turn (workflow rt retryOn)}
    (h : Turn.Reachable serves (Turn.start _ {} input.initialState) turn) (hended : turn.Ended) :
    Forgetful turn := by
  obtain ⟨r, prompt, ans, hr, hasked, honly, hgiven, hreturned⟩ := ended_memory h hended
  refine ⟨hgiven, fun next hnext => ⟨?_, ?_⟩⟩
  · rintro ⟨memory, hmemory, hnext'⟩
    have hnil : replyMemory rt ans = [] :=
      (returned_unique hreturned hmemory).trans (given_unique hnext' hnext)
    exact ⟨r, prompt, ans, hr, hasked, hnil⟩
  · rintro ⟨r', prompt', ans', hr', hasked', hnil⟩
    have hrecord : [r] = [r'] := Option.some.inj (hr.symm.trans hr')
    cases hrecord
    rw [(honly prompt' ans' hasked').2] at hnil
    exact ⟨[], hnil ▸ hreturned, hnext⟩

theorem Conversation.forgetful [DecidableEq ι] [DecidableEq θ]
    {serves : ι → Node → Call → Except Exn Str → Prop} {srv : Server ι θ (workflow rt retryOn)}
    {input : ι → TurnInput} {svc : LLMService} {turns : List (Turn (workflow rt retryOn))}
    {status : Str} (hsrv : Server.Reachable serves {} (fun i => (input i).initialState) srv)
    (h : Conversation srv input svc turns status) : ∀ turn ∈ turns, Forgetful turn := by
  induction h with
  | start => exact fun _ hturn => absurd hturn List.not_mem_nil
  | turn _ _ _ _ _ hturn hended ih =>
    intro turn' hmem
    rcases List.mem_append.mp hmem with hmem | hmem
    · exact ih turn' hmem
    · cases List.mem_singleton.mp hmem
      exact ended_forgetful (hsrv.turn hturn) hended

/-- A chain of a relation that looks only at the earlier of its two sides. -/
theorem isChain_iff_dropLast {α : Type} {R : α → α → Prop} {P : α → Prop} {l : List α}
    (h : ∀ a ∈ l, ∀ b ∈ l, R a b ↔ P a) : l.IsChain R ↔ ∀ a ∈ l.dropLast, P a := by
  induction l with
  | nil => simp
  | cons a l ih =>
    cases l with
    | nil => simp
    | cons b l =>
      have hrest := ih fun a ha b hb => h a (List.mem_cons_of_mem _ ha) b (List.mem_cons_of_mem _ hb)
      rw [List.isChain_cons_cons, hrest, h a List.mem_cons_self b (by simp),
        List.dropLast_cons_cons, List.forall_mem_cons]

/-- **What of the memory is carried.** In the conversation of any service, beside
any other turns on the same checkpointer, every turn starts with the memory that
the turn before it returned, and the first with none, if and only if no turn but
the last returned any. -/
theorem memory_carried_iff [DecidableEq ι] [DecidableEq θ] (rt : Runtime) (retryOn : Exn → Bool)
    (serves : ι → Node → Call → Except Exn Str → Prop) (srv : Server ι θ (workflow rt retryOn))
    (input : ι → TurnInput) (svc : LLMService) (turns : List (Turn (workflow rt retryOn)))
    (status : Str) (hsrv : Server.Reachable serves {} (fun i => (input i).initialState) srv)
    (h : Conversation srv input svc turns status) :
    MemoryCarried turns ↔ ∀ turn ∈ turns.dropLast, NothingToCarry turn := by
  have hforgetful := h.forgetful hsrv
  have hfirst : ∀ turn ∈ turns.head?, Given [] turn :=
    fun turn hturn => (hforgetful turn (List.mem_of_mem_head? hturn)).given
  rw [MemoryCarried, and_iff_right hfirst]
  exact isChain_iff_dropLast fun turn hturn next hnext =>
    (hforgetful turn hturn).carried_iff next (hforgetful next hnext).given

end

/-! ## Two turns about a phone -/

def phoneService : LLMService := ⟨[], "call", "session", "TKT-1", "None", "neutral"⟩

def phoneReply : Str :=
  ("\x7b\"standalone_query\": \"S24\", \"intents\": [], " : Str) ++
    ("\"structured_memory\": \x7b\"model\": \"S24\"\x7d\x7d" : Str)

def phoneAnswer : Node → Call → Except Exn Str
  | _, .routerLlm _ => .ok phoneReply
  | _, _ => .ok "It costs 50000 rupees."

def phoneInput : Bool → TurnInput
  | false => phoneService.turnInput [⟨.human, "What does the S24 cost?"⟩]
  | true => phoneService.turnInput [⟨.human, "What does the S24 cost?"⟩,
      ⟨.ai, "It costs 50000 rupees."⟩, ⟨.human, "And its warranty?"⟩]

/-- The earlier turn, and the later one. -/
def phoneTurn (later : Bool) : Turn (workflow Runtime.ascii fun _ => true) :=
  Turn.play phoneAnswer 5 (Turn.start _ {} (phoneInput later).initialState)

theorem phoneTurn_reachable (later : Bool) : Turn.Reachable (fun _ _ _ => True)
    (Turn.start _ {} (phoneInput later).initialState) (phoneTurn later) :=
  Turn.Reachable.start.play (fun _ _ => trivial) 5

theorem phoneTurn_ended (later : Bool) : (phoneTurn later).Ended := by
  have h : ((phoneTurn later).tasks.isEmpty && (phoneTurn later).stop.isNone) = true := by
    cases later <;> decide +kernel
  rw [Bool.and_eq_true, List.isEmpty_iff, Option.isNone_iff_eq_none] at h
  exact h

theorem phone_conversation : ∃ srv : Server Bool Bool (workflow Runtime.ascii fun _ => true),
    Server.Reachable (fun _ _ _ _ => True) {} (fun i => (phoneInput i).initialState) srv ∧
    ∃ status, Conversation srv phoneInput phoneService [phoneTurn false, phoneTurn true] status := by
  have hstart : Server.Reachable (fun _ _ _ _ => True) {} (fun i => (phoneInput i).initialState)
      (⟨fun _ => none, fun _ => none⟩ : Server Bool Bool (workflow Runtime.ascii fun _ => true)) :=
    .start
  obtain ⟨srv, hsrv, hturns, hsaver⟩ := hstart.add false rfl rfl (phoneTurn_reachable false)
  obtain ⟨srv', hsrv', hturns', -⟩ := hsrv.add true (by simp [hturns]) (by simp [hsaver])
    (phoneTurn_reachable true)
  have hstatus : (phoneTurn false).state.handoffStatus.getD "None" = ("None" : Str) := by decide +kernel
  have hearlier : srv'.turns false = some (false, phoneTurn false) := by rw [hturns', hturns]; rfl
  have hlater : srv'.turns true = some (true, phoneTurn true) := by rw [hturns']; rfl
  have hfirst : Conversation srv' phoneInput phoneService [phoneTurn false] _ :=
    Conversation.start.turn [] "neutral" _ rfl hearlier (phoneTurn_ended false)
  rw [hstatus] at hfirst
  exact ⟨srv', hsrv', _, hfirst.turn [] "neutral" _ rfl hlater (phoneTurn_ended true)⟩

def phoneTurn.notes (later : Bool) : Bool :=
  match (phoneTurn later).steps.head? with
  | some [⟨_, _, _, ⟨_, _, _, _, _, _, _, _, _, some [(key, .str model)]⟩, _⟩] =>
    decide (key = ("model" : Str) ∧ model = ("S24" : Str))
  | _ => false

theorem phoneTurn_returned : Returned [("model", .str "S24")] (phoneTurn false) := by
  have h : phoneTurn.notes false = true := by decide +kernel
  unfold phoneTurn.notes at h
  split at h
  · rename_i hsteps
    obtain ⟨rfl, rfl⟩ := of_decide_eq_true h
    exact ⟨_, hsteps, rfl⟩
  · cases h

theorem memory_carried_iff_phone :
    MemoryCarried [phoneTurn false, phoneTurn true] ↔
      ∀ turn ∈ [phoneTurn false], NothingToCarry turn := by
  obtain ⟨srv, hsrv, status, h⟩ := phone_conversation
  exact memory_carried_iff Runtime.ascii _ _ srv phoneInput phoneService _ status hsrv h

/-- The earlier turn notes which phone the caller asks about; the later one
starts without it. -/
theorem phone_forgotten : (∃ srv : Server Bool Bool (workflow Runtime.ascii fun _ => true),
      Server.Reachable (fun _ _ _ _ => True) {} (fun i => (phoneInput i).initialState) srv ∧
      ∃ status, Conversation srv phoneInput phoneService [phoneTurn false, phoneTurn true] status) ∧
    Returned [("model", .str "S24")] (phoneTurn false) ∧ Given [] (phoneTurn true) ∧
    ¬ MemoryCarried [phoneTurn false, phoneTurn true] := by
  have hgiven := (ended_forgetful (phoneTurn_reachable true) (phoneTurn_ended true)).given
  refine ⟨phone_conversation, phoneTurn_returned, hgiven, ?_⟩
  intro hcarried
  obtain ⟨memory, hreturned, hgiven'⟩ := (List.isChain_cons_cons.mp hcarried.2).1
  have hempty : ([("model", .str "S24")] : Dict Value) = [] :=
    (returned_unique phoneTurn_returned hreturned).trans (given_unique hgiven' hgiven)
  cases hempty

end TechMart.Bot
