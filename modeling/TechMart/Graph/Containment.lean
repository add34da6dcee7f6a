import TechMart.Graph.Tools
import TechMart.Graph.Workflow

/-!
# What a failing data source does to a turn

Each context builder returns exactly if none of its calls outside a `try`
block raises; a builder that raises fails its worker, and with it the turn
before the synthesizer: `synthesizer_reached_iff`.
-/

namespace TechMart.Graph

open Python LangGraph

section
variable {rt : Runtime} {svc : Services}

/-! ## When a builder returns -/

/-- One row of the FAQs: its policy is looked up if it names one. -/
theorem supportLines_cons_isOk (r : Cells 4) (rows : List (Cells 4)) (n : ℕ) :
    (supportLines rt svc n (r :: rows)).isOk = true ↔
      ((relatedTos r).truthy = true →
        (svc.select (n + 1) 2 (tosSql rt (relatedTos r)) []).isOk = true) ∧
        (supportLines rt svc (n + 1) rows).isOk = true := by
  rw [supportLines]
  by_cases hr : (relatedTos r).truthy = true
  · simp only [hr, if_true, bind_isOk, ok_isOk, and_true, forall_const]
    simp only [isOk_iff, exists_and_right]
  · simp only [hr, if_false, bind_isOk, ok_isOk, and_true, false_implies, true_and,
      Bool.false_eq_true]
    simp only [isOk_iff]

/-- The policy lookups of the FAQ rows from the `n`-th on. -/
theorem supportLines_isOk_iff (rows : List (Cells 4)) (n : ℕ) :
    (supportLines rt svc n rows).isOk = true ↔
      ∀ i r, rows[i]? = some r → (relatedTos r).truthy = true →
        (svc.select (n + i + 1) 2 (tosSql rt (relatedTos r)) []).isOk = true := by
  induction rows generalizing n with
  | nil => simp [supportLines]
  | cons r rows ih =>
    rw [supportLines_cons_isOk, ih]
    constructor
    · rintro ⟨hr, hrows⟩ i r' hi
      cases i with
      | zero =>
        cases hi
        exact hr
      | succ i =>
        have := hrows i r' hi
        rwa [Nat.add_right_comm n 1 i] at this
    · intro h
      refine ⟨h 0 r rfl, ?_⟩
      intro i r' hi
      have := h (i + 1) r' hi
      rwa [← Nat.add_assoc, Nat.add_right_comm n i 1] at this

/-- The calls of a worker's builder outside its `try` blocks all returned. -/
def Contained (rt : Runtime) (svc : Services) (profile : Dict Value) (query : Str) : Worker → Prop
  | .support => svc.getClient.isOk = true ∧ ∃ vector, svc.encode query = .ok vector ∧
      ∃ rows, svc.select 0 4 (faqSql rt vector) [] = .ok rows ∧
        ∀ i r, rows[i]? = some r → (relatedTos r).truthy = true →
          (svc.select (i + 1) 2 (tosSql rt (relatedTos r)) []).isOk = true
  | .catalog => svc.getClient.isOk = true ∧ svc.chatGroq.isOk = true ∧
      (validCategories svc).isOk = true
  | .orders => (customerId profile).truthy = true →
      svc.getClient.isOk = true ∧ svc.chatGroq.isOk = true
  | .history => (customerId profile).truthy = true → svc.getClient.isOk = true ∧
      (svc.select 0 3 historySql [("cid", customerId profile)]).isOk = true

/-- A builder as its worker calls it. The other calls are no builder's. -/
def runTool (rt : Runtime) (svc : Services) : Call → Except Exn Str
  | .supportContext query => getSupportContext rt svc query
  | .catalogContext query => getCatalogContext rt svc query
  | .orderContext customerId query => getOrderContext rt svc customerId query
  | .historyContext customerId => getHistoryContext rt svc customerId
  | _ => .ok []

theorem getSupportContext_isOk (query : Str) :
    (getSupportContext rt svc query).isOk = true ↔ svc.getClient.isOk = true ∧
      ∃ vector, svc.encode query = .ok vector ∧
      ∃ rows, svc.select 0 4 (faqSql rt vector) [] = .ok rows ∧
        ∀ i r, rows[i]? = some r → (relatedTos r).truthy = true →
          (svc.select (i + 1) 2 (tosSql rt (relatedTos r)) []).isOk = true := by
  have hlines (rows : List (Cells 4)) := @supportLines_isOk_iff rt svc rows 0
  simp only [Nat.zero_add] at hlines
  simp only [getSupportContext, bind_isOk, ok_isOk, and_true, ← isOk_iff, hlines, exists_and_right]

theorem getCatalogContext_isOk (query : Str) :
    (getCatalogContext rt svc query).isOk = true ↔ svc.getClient.isOk = true ∧
      svc.chatGroq.isOk = true ∧ (validCategories svc).isOk = true := by
  simp only [getCatalogContext, bind_isOk, ok_isOk, and_true, ← isOk_iff, exists_and_right]

theorem getOrderContext_isOk (customerId : Value) (query : Str) :
    (getOrderContext rt svc customerId query).isOk = true ↔
      svc.getClient.isOk = true ∧ svc.chatGroq.isOk = true := by
  simp only [getOrderContext, bind_isOk, ok_isOk, and_true, ← isOk_iff, exists_and_right]

theorem getHistoryContext_isOk (customerId : Value) :
    (getHistoryContext rt svc customerId).isOk = true ↔ svc.getClient.isOk = true ∧
      (svc.select 0 3 historySql [("cid", customerId)]).isOk = true := by
  simp only [getHistoryContext, bind_isOk, ok_isOk, and_true, ← isOk_iff, exists_and_right]

/-- A worker is contained exactly if what it asks for is answered. -/
theorem contained_iff {profile : Dict Value} {query : Str} {w : Worker} :
    Contained rt svc profile query w ↔
      ∀ call, fetch profile query w = some call → (runTool rt svc call).isOk = true := by
  cases w with
  | support => simp [fetch, runTool, Contained, getSupportContext_isOk]
  | catalog => simp [fetch, runTool, Contained, getCatalogContext_isOk]
  | orders =>
    by_cases hid : (customerId profile).truthy = true <;>
      simp [fetch, runTool, Contained, getOrderContext_isOk, hid]
  | history =>
    by_cases hid : (customerId profile).truthy = true <;>
      simp [fetch, runTool, Contained, getHistoryContext_isOk, hid]

/-! ## When a turn reaches the synthesizer -/

/-- The builders answer the workers, each over its own services. -/
def toolServes (rt : Runtime) (env : Worker → Services) : Node → Call → Except Exn Str → Prop
  | .worker w, call, ans => ans = runTool rt (env w) call
  | _, _, _ => True

theorem toolServes_total (rt : Runtime) (env : Worker → Services) (n : Node) (call : Call) :
    ∃ ans, toolServes rt env n call ans := by
  cases n with
  | worker w => exact ⟨_, rfl⟩
  | router | synthesizer => exact ⟨.ok [], trivial⟩

/-- What a worker has for the synthesizer, if its builder returns. -/
def entryOf (rt : Runtime) (svc : Services) (profile : Dict Value) (query : Str) (w : Worker) :
    Except Exn Str :=
  match fetch profile query w with
  | some call => (runTool rt svc call).map (w.tag ++ ·)
  | none => .ok (w.tag ++ "No customer ID.")

variable {retryOn : Exn → Bool}

/-- The synthesizer was started on the channels `read`. -/
def SynthesizerStarted (turn : Turn (workflow rt retryOn)) (read : AgentState) : Prop :=
  (∃ records ∈ turn.steps, ∃ z ∈ records, z.node = .synthesizer ∧ z.read = read) ∨
  (∃ e, turn.stop = some (.failed .synthesizer e)) ∧ turn.state = read

/-- The synthesizer was started, and it has what the builders of the workers
`ws` returned. -/
def SynthesizerReached (env : Worker → Services) (profile : Dict Value) (query : Str)
    (ws : List Worker) (turn : Turn (workflow rt retryOn)) : Prop :=
  ∃ read, SynthesizerStarted turn read ∧
    ∀ w ∈ ws, ∀ entry, entryOf rt (env w) profile query w = .ok entry → entry ∈ read.ragContexts

variable {env : Worker → Services}

/-- A filled entry is what the worker's builder returned. -/
theorem filled_contained {profile : Dict Value} {query : Str} {w : Worker}
    {calls : List (Call × Except Exn Str)} {entry : Str} (h : Filled profile query w calls entry)
    (hserves : ∀ c ∈ calls, toolServes rt env (.worker w) c.1 c.2) :
    Contained rt (env w) profile query w ∧ entryOf rt (env w) profile query w = .ok entry := by
  rw [contained_iff]
  unfold Filled at h
  unfold entryOf
  cases hfetch : fetch profile query w with
  | none =>
    rw [hfetch] at h
    exact ⟨nofun, congrArg Except.ok h.2.symm⟩
  | some call =>
    rw [hfetch] at h
    obtain ⟨data, rfl, rfl⟩ := h
    have hdata : .ok data = runTool rt (env w) call := hserves _ List.mem_cons_self
    constructor
    · rintro _ ⟨⟩
      rw [← hdata]
      rfl
    · simp only [← hdata, Except.map]

/-- A worker that raised had a call raise outside its `try` blocks. -/
theorem not_contained_of_raise {profile : Dict Value} {query : Str} {w : Worker}
    {calls : List (Call × Except Exn Str)} {e : Exn}
    (h : Prog.Path (fetchProg w (fetch profile query w)) calls (.raise e))
    (hserves : ∀ c ∈ calls, toolServes rt env (.worker w) c.1 c.2) :
    ¬ Contained rt (env w) profile query w := by
  rw [contained_iff]
  intro hcontained
  cases hfetch : fetch profile query w with
  | none =>
    rw [hfetch, fetchProg] at h
    cases h
  | some call =>
    rw [hfetch, fetchProg] at h
    cases h with
    | @answered _ _ ans rest _ h =>
      have hans : ans = runTool rt (env w) call := hserves _ List.mem_cons_self
      obtain ⟨data, hdata⟩ := isOk_iff.mp (hcontained call hfetch)
      rw [hans, hdata] at h
      cases h

/-- The workers that have all returned were contained, and left their entries. -/
theorem worked_contained {input : TurnInput} {r : Record (workflow rt retryOn)} {last : Message}
    {ans : Except Exn Str} {ws : List (Record (workflow rt retryOn))} {state : AgentState}
    (hrouted : Routed input.initialState r last ans)
    (hworked : Worked (toolServes rt env) (input.initialState.reduce r.update) ans ws state) :
    let query := (routerResult rt input.initialState last.content ans).standaloneQuery
    ∀ w ∈ requested rt ans, Contained rt (env w) input.customerProfile query w ∧
      ∀ entry, entryOf rt (env w) input.customerProfile query w = .ok entry →
        entry ∈ state.ragContexts := by
  intro query w hw
  obtain ⟨hfilled, hcontexts⟩ := worked_filled hrouted hworked
  have hnode : Node.worker w ∈ ws.map Record.node := hworked.nodes ▸ List.mem_map_of_mem hw
  obtain ⟨record, hrecord, hnode⟩ := List.mem_map.mp hnode
  obtain ⟨worker, entry, hworker, hentry, hfill⟩ := hfilled record hrecord
  rw [hnode] at hworker
  cases hworker
  have hserves := (hworked.reads record hrecord).2
  rw [hnode] at hserves
  obtain ⟨hcontained, hof⟩ := filled_contained hfill hserves
  refine ⟨hcontained, ?_⟩
  intro entry' hentry'
  rw [hof] at hentry'
  cases hentry'
  exact hcontexts.mem_iff.mpr (List.mem_flatMap.mpr ⟨record, hrecord, by simp [hentry]⟩)

/-- A worker that raised was not contained. -/
theorem not_contained_of_failed {input : TurnInput} {r : Record (workflow rt retryOn)}
    {last : Message} {ans : Except Exn Str} (hrouted : Routed input.initialState r last ans)
    {w : Worker} {calls : List (Call × Except Exn Str)} {e : Exn}
    (hpath : Prog.Path (w.node (input.initialState.reduce r.update)) calls (.raise e))
    (hserves : ∀ c ∈ calls, toolServes rt env (.worker w) c.1 c.2) :
    ¬ Contained rt (env w) input.customerProfile
      (routerResult rt input.initialState last.content ans).standaloneQuery w := by
  obtain ⟨hlast, hquery, hprofile, -⟩ := after_router hrouted
  have hprog := worker_eq (w := w) hlast hquery
  rw [hprofile, Option.getD_some] at hprog
  rw [hprog] at hpath
  exact not_contained_of_raise hpath hserves

/-- A turn that a worker stopped after its router never starts the synthesizer. -/
theorem not_started_of_failed {turn : Turn (workflow rt retryOn)} {r : Record (workflow rt retryOn)}
    (hsteps : turn.steps = [[r]]) (hnode : r.node = .router) {w : Worker} {e : Exn}
    (hstop : turn.stop = some (.failed (.worker w) e)) (read : AgentState) :
    ¬ SynthesizerStarted turn read := by
  rintro (⟨records, hrecords, z, hz, hsynth, -⟩ | ⟨⟨e', hstop'⟩, -⟩)
  · rw [hsteps, List.mem_singleton] at hrecords
    subst hrecords
    cases List.mem_singleton.mp hz
    rw [hnode] at hsynth
    cases hsynth
  · rw [hstop] at hstop'
    cases hstop'

/-- **What a failing source does to a turn.** A turn whose router answered comes
to rest. There, unless it was cancelled, it has started the synthesizer with the
entries of all requested workers whose builders returned, if and only if every
call that a requested worker's builder makes outside its `try` blocks returned. -/
theorem synthesizer_reached_iff (rt : Runtime) (retryOn : Exn → Bool) (env : Worker → Services)
    (input : TurnInput) (turn : Turn (workflow rt retryOn))
    (h : Turn.Reachable (toolServes rt env) (Turn.start _ {} input.initialState) turn)
    (r : Record (workflow rt retryOn)) (hr : turn.steps.head? = some [r]) :
    turn.Settles (toolServes rt env) ∧
    ∃ prompt ans query, (.routerLlm prompt, ans) ∈ r.calls ∧ r.update.englishQuery = some query ∧
      ((∀ turn', ¬ Turn.Move (toolServes rt env) turn turn') → turn.stop ≠ some .cancelled →
        (SynthesizerReached env input.customerProfile query (requested rt ans) turn ↔
          ∀ w ∈ requested rt ans, Contained rt (env w) input.customerProfile query w)) := by
  refine ⟨turn_settles h, ?_⟩
  obtain ⟨nodes, sound⟩ := h.sound
  have hstart : (workflow rt retryOn).reduce {} input.initialState = input.initialState :=
    AgentState.reduce_empty _
  rw [hstart] at sound
  have hrest_or := sound.at_rest (toolServes_total rt env)
  have hcourse := workflow_course sound.chain
  generalize hsteps : turn.steps = steps at hcourse hr
  generalize hstate : turn.state = state at hcourse hrest_or
  cases hcourse with
  | routing => cases hr
  | @working r₁ last ans hrouted hrequested =>
    cases hr
    refine ⟨_, ans, _, hrouted.asked, hrouted.query, ?_⟩
    intro hrest hcancel
    obtain hnone | ⟨n, hn, e, calls, hstop, hpath, hserves⟩ := hrest_or hrest hcancel
    · exact absurd (List.map_eq_nil_iff.mp hnone) hrequested
    obtain ⟨w, hw, rfl⟩ := List.mem_map.mp hn
    constructor
    · rintro ⟨read, hstarted, -⟩
      exact absurd hstarted (not_started_of_failed hsteps hrouted.node hstop read)
    · intro hcontained
      exact absurd (hcontained w hw) (not_contained_of_failed hrouted hpath hserves)
  | @answering r₁ last ans ws _ hrouted hworked =>
    cases hr
    refine ⟨_, ans, _, hrouted.asked, hrouted.query, ?_⟩
    intro hrest hcancel
    have hall := worked_contained hrouted hworked
    refine ⟨fun _ w hw => (hall w hw).1, fun _ => ⟨_, .inr ⟨?_, hstate⟩, fun w hw => (hall w hw).2⟩⟩
    obtain hnone | ⟨n, hn, e, _, hstop, -⟩ := hrest_or hrest hcancel
    · cases hnone
    · cases List.mem_singleton.mp hn
      exact ⟨e, hstop⟩
  | @ended r₁ last ans ws z hrouted hworked hz =>
    cases hr
    refine ⟨_, ans, _, hrouted.asked, hrouted.query, ?_⟩
    intro hrest hcancel
    have hall := worked_contained hrouted hworked
    refine ⟨fun _ w hw => (hall w hw).1, fun _ => ⟨_, .inl ?_, fun w hw => (hall w hw).2⟩⟩
    exact ⟨[z], by simp [hsteps], z, List.mem_singleton_self z, hz, rfl⟩

end

/-! ## A turn about products and past calls -/

/-- Services that find nothing; those of `broken` cannot query. -/
def demoServices (broken w : Worker) : Services where
  getClient := .ok ()
  chatGroq := .ok ()
  encode _ := .ok (.list [])
  invoke _ _ := .ok "1=1"
  select _ _ _ _ := if w = broken then .error ⟨"Connection refused"⟩ else .ok []
  query _ _ := .ok ⟨[], []⟩

def pastReply : Str :=
  ("\x7b\"standalone_query\": \"my calls\", " : Str) ++
    ("\"intents\": [\"catalog\", \"history\"]\x7d" : Str)

def pastAnswer : Node → Call → Except Exn Str
  | .worker w, call => runTool .ascii (demoServices .history w) call
  | _, .routerLlm _ => .ok pastReply
  | _, _ => .ok []

def pastTurn : Turn (workflow Runtime.ascii fun _ => true) :=
  Turn.play pastAnswer 6 (Turn.start _ {} demoInput.initialState)

theorem pastTurn_reachable : Turn.Reachable (toolServes .ascii (demoServices .history))
    (Turn.start _ {} demoInput.initialState) pastTurn := by
  refine Turn.Reachable.start.play (fun n q => ?_) 6
  cases n with
  | worker w => rfl
  | router | synthesizer => trivial

def pastTurn.failed : Bool :=
  match pastTurn.stop with
  | some (.failed n _) => decide (n = .worker .history)
  | _ => false

theorem pastTurn_failed : ∃ e, pastTurn.stop = some (.failed (.worker .history) e) := by
  have h : pastTurn.failed = true := by decide +kernel
  unfold pastTurn.failed at h
  split at h
  · rename_i n e hstop
    rw [of_decide_eq_true h] at hstop
    exact ⟨e, hstop⟩
  · cases h

theorem pastTurn_rests (turn' : Turn (workflow Runtime.ascii fun _ => true)) :
    ¬ Turn.Move (toolServes .ascii (demoServices .history)) pastTurn turn' := by
  have h : pastTurn.tasks.isEmpty = true := by decide +kernel
  exact Turn.not_move_of_no_tasks (List.isEmpty_iff.mp h)

def pastTurn.routed : Bool :=
  match pastTurn.steps with
  | [[⟨.router, _, [_, (.routerLlm _, .ok reply)], _, _⟩]] => decide (reply = pastReply)
  | _ => false

/-- It has run its router, and only that. -/
theorem pastTurn_routed : ∃ r prompt, pastTurn.steps = [[r]] ∧ r.node = .router ∧
    (.routerLlm prompt, .ok pastReply) ∈ r.calls := by
  have h : pastTurn.routed = true := by decide +kernel
  unfold pastTurn.routed at h
  split at h
  · rename_i prompt reply _ _ hsteps
    simp only [decide_eq_true_eq] at h
    subst h
    exact ⟨_, prompt, hsteps, rfl, by simp⟩
  · cases h

theorem synthesizer_reached_iff_pastTurn :
    ∃ (r : Record (workflow Runtime.ascii fun _ => true)) (ans : _) (query : _),
    r.update.englishQuery = some query ∧
    (SynthesizerReached (demoServices .history) demoInput.customerProfile query
      (requested .ascii ans) pastTurn ↔
      ∀ w ∈ requested .ascii ans,
        Contained .ascii (demoServices .history w) demoInput.customerProfile query w) := by
  obtain ⟨e, hstop⟩ := pastTurn_failed
  obtain ⟨r, _, hsteps, -, -⟩ := pastTurn_routed
  obtain ⟨-, _, ans, query, -, hquery, h⟩ := synthesizer_reached_iff Runtime.ascii _
    (demoServices .history) demoInput pastTurn pastTurn_reachable r (by simp [hsteps])
  exact ⟨r, ans, query, hquery, h pastTurn_rests (by simp [hstop])⟩

/-- The ticket table cannot be read: the turn stops there, though the catalog's
sources all answered, and no one ever gets to speak. -/
theorem failed_history_silences_turn :
    Turn.Reachable (toolServes .ascii (demoServices .history))
      (Turn.start _ {} demoInput.initialState) pastTurn ∧
    (∃ e, pastTurn.stop = some (.failed (.worker .history) e)) ∧
    (∃ r prompt, pastTurn.steps = [[r]] ∧ (.routerLlm prompt, .ok pastReply) ∈ r.calls) ∧
    requested .ascii (.ok pastReply) = [.catalog, .history] ∧
    Contained .ascii (demoServices .history .catalog) demoInput.customerProfile "my calls" .catalog ∧
    ∀ read, ¬ SynthesizerStarted pastTurn read := by
  obtain ⟨e, hstop⟩ := pastTurn_failed
  obtain ⟨r, prompt, hsteps, hnode, hasked⟩ := pastTurn_routed
  exact ⟨pastTurn_reachable, ⟨e, hstop⟩, ⟨r, prompt, hsteps, hasked⟩, by decide +kernel,
    ⟨rfl, rfl, rfl⟩, not_started_of_failed hsteps hnode hstop⟩

end TechMart.Graph
