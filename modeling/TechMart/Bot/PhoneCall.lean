import TechMart.Bot.Frames
import TechMart.Bot.Stage

/-!
# The turns of a call

A round is one turn together with the run of the graph it reads; a phone call
is a sequence of rounds of one service. What a round leaves behind for the next
is the handoff status it set, if it came that far.
-/

namespace TechMart.Bot

open Python TechMart.Graph LangGraph

def StreamEvent.state? : StreamEvent → Option AgentState
  | .values state => some state
  | .messages .. => none

/-- One turn: the run of the graph as far as it had come when the service
stopped reading, what was streamed of it, and the calls of the coroutine. -/
structure Round {N E Q A : Type} (g : LangGraph.Graph N AgentState AgentState E Q A) where
  svc : LLMService
  messages : List Message
  turn : Turn g
  events : List StreamEvent
  log : CallLog
  /-- A push that is cancelled has handed its frame on. -/
  late : Bool

/-- The service's status after these calls. -/
def statusOf (status : Str) (log : CallLog) : Str :=
  log.foldl (fun status c => c.1.status status) status

namespace Round

variable {N E Q A : Type} {g : LangGraph.Graph N AgentState AgentState E Q A}

/-- The status the router returned, once it has. -/
def routerStatus (round : Round g) : Option Str :=
  match round.turn.steps.head? with
  | some [r] => r.update.handoffStatus
  | _ => none

theorem routerStatus_of_head {round : Round g} {r : Record g}
    (h : round.turn.steps.head? = some [r]) : round.routerStatus = r.update.handoffStatus := by
  simp only [routerStatus, h]

def statusAfter (round : Round g) : Str := statusOf round.svc.handoffStatus round.log

/-- What the round sends downstream. -/
def frames (round : Round g) : List Frame := Bot.frames round.late round.log

end Round

section
variable {rt : Runtime} {retryOn : Exn → Bool} {env : Env}

namespace Round

/-- The graph before its first step. -/
def fresh (round : Round (workflow rt retryOn)) : Turn (workflow rt retryOn) :=
  Turn.start _ {} (round.svc.turnInput round.messages).initialState

variable (env) in
/-- The graph, its stream and the coroutine fit together. -/
structure Sound (round : Round (workflow rt retryOn)) : Prop where
  reachable : Turn.Reachable (fun _ _ _ => True) round.fresh round.turn
  played : Played env round.svc round.events round.log
  /-- The graph starts with the first event that is asked for. -/
  unread : (∀ ans, (.await .nextEvent, ans) ∉ round.log) → round.turn = round.fresh
  /-- The stream ends with the graph, and its last values are the channels. -/
  read : (∃ ans, (.await .finalizeResponse, ans) ∈ round.log) →
    round.turn.Ended ∧ (round.events.filterMap StreamEvent.state?).getLast? = some round.turn.state
  /-- What the stream raises the graph has raised, and all else was streamed before. -/
  raised : StreamRaised round.log →
    (∃ n e, round.turn.stop = some (.failed n e)) ∧ consumed round.events round.log = round.events

end Round

variable (env) in
/-- The rounds of a call so far, and the status of its service. -/
inductive PhoneCall (svc : LLMService) : List (Round (workflow rt retryOn)) → Str → Prop
  | start : PhoneCall svc [] "None"
  | round {rounds : List (Round (workflow rt retryOn))} {status : Str}
      {round : Round (workflow rt retryOn)} (profile : Dict Value) (emotion : Str) :
      PhoneCall svc rounds status → round.Sound env →
      round.svc = { svc with
        customerProfile := profile
        userEmotion := emotion
        handoffStatus := status } →
      PhoneCall svc (rounds ++ [round]) round.statusAfter

/-! ## How far a turn comes -/

/-- It stands between the start of the stream and the end of the response. -/
def Await.reading : Await → Bool
  | .nextEvent | .stopTtfbMetrics | .pushFirstTokenStart | .pushText _ | .finalizeResponse => true
  | _ => false

/-- Something is raised before the response is closed. -/
def CutShort (log : CallLog) : Prop := ∃ a e, a.reading = true ∧ (.await a, .error e) ∈ log

variable {log log' : CallLog} {as : List Await} {svc : LLMService} {events : List StreamEvent}

@[simp]
theorem statusOf_append (status : Str) :
    statusOf status (log ++ log') = statusOf (statusOf status log) log' :=
  List.foldl_append

/-- Only the one call that sets the status does. -/
theorem statusOf_awaits {p : Await → Bool} (h : ∀ c ∈ log, c.1.All p) (status : Str) :
    statusOf status log = status := by
  induction log with
  | nil => rfl
  | cons c log ih =>
    have hrest := ih fun c hc => h c (List.mem_cons_of_mem _ hc)
    obtain ⟨op, ans⟩ := c
    cases op with
    | await => exact hrest
    | setHandoffStatus => cases h _ List.mem_cons_self

/-- It stands neither in the response nor in a handoff. -/
def Await.outer : Await → Bool
  | .post .. | .closeSession | .pushRingback | .pushEnd => false
  | a => !a.reading

def Outer (log : CallLog) : Prop := ∀ c ∈ log, c.1.All Await.outer

theorem Outer.append (h : Outer log) (h' : Outer log') : Outer (log ++ log') :=
  List.forall_mem_append.mpr ⟨h, h'⟩

theorem Outer.not_mem (h : Outer log) {a : Await} (ha : a.outer = false) (ans : Except Raised Unit) :
    (.await a, ans) ∉ log := by
  intro hmem
  have hop : a.outer = true := h _ hmem
  simp [ha] at hop

theorem Await.reading_not_outer {a : Await} (h : a.reading = true) : a.outer = false := by
  cases a <;> first | rfl | cases h

theorem Outer.not_cutShort (h : Outer log) : ¬ CutShort log := by
  rintro ⟨a, e, ha, hmem⟩
  exact h.not_mem (Await.reading_not_outer ha) _ hmem

theorem cutShort_append : CutShort (log ++ log') ↔ CutShort log ∨ CutShort log' := by
  simp [CutShort, and_or_left, exists_or]

theorem not_cutShort_answered {qs : List Op} : ¬ CutShort (Prog.answered qs) := by
  simp [CutShort, Prog.answered]

variable (env svc events) in
/-- How far a turn comes: not to the stream, not to the end of the response, or
past it. -/
inductive Progress : CallLog → Prop
  | unread {log : CallLog} {a : Await} : Outer log → CancelledAt log a → Progress log
  | cut {before log after : CallLog} {e : Raised} : Outer before →
      Prog.CutAt (awaits (response events)) log e → Outer after → Progress (before ++ log ++ after)
  | read {before rest after : CallLog} : Outer before →
      (finalStatus svc events = ("Accepted" : Str) ∧ ∃ r, Prog.Runs (handoff env svc) rest r) ∨
        finalStatus svc events ≠ ("Accepted" : Str) ∧ rest = [] →
      Outer after → Progress (before ++ Prog.answered
        (awaits (response events) ++ [.setHandoffStatus (finalStatus svc events)]) ++ rest ++ after)

theorem outer_reported {r : Except Raised Unit} (h : Reported env r log) : Outer log := by
  have hreport (e : Exn) : ∀ a ∈ report env e, a.outer = true := by
    unfold report
    split <;> simp [Await.outer, Await.reading]
  cases h with
  | returned | swallowed => exact fun _ hc => absurd hc List.not_mem_nil
  | reported e => exact all_answered (hreport e)
  | @cut e _ hcut => exact all_cutAt hcut (hreport e)

theorem outer_closing (h : Closing log) : Outer log := by
  have hclosing : ∀ a ∈ closing, a.outer = true := by simp [closing, Await.outer, Await.reading]
  rcases h with hcut | ⟨after, rfl, hafter⟩
  · exact all_cutAt hcut hclosing
  · refine Outer.append (all_answered hclosing) ?_
    intro c hc
    rw [hafter c hc]
    rfl

theorem played_progress (h : Played env svc events log) : Progress env svc events log := by
  have hopening : ∀ a ∈ opening, a.outer = true := by simp [opening, Await.outer, Await.reading]
  have hlead : ∀ a ∈ lead svc, a.outer = true := by simp [lead, Await.outer, Await.reading]
  rcases played_log h with hcut | ⟨body, last, rfl, hbody, hlast⟩
  · obtain ⟨_, a, _, _, hlog⟩ := cutAt_split hcut
    exact .unread (a := a) (all_cutAt hcut hopening) (by simp [hlog])
  · have hbefore : Outer (Prog.answered (awaits opening)) := all_answered hopening
    have hafter := outer_closing hlast
    cases hbody with
    | cut hcut =>
      obtain ⟨_, a, _, _, hlog⟩ := cutAt_split hcut
      exact .unread (a := a) ((hbefore.append (all_cutAt hcut hlead)).append hafter)
        (by simp [hlog])
    | @responded r log report hrespond hreport =>
      have hlog : ∀ c ∈ log, Allowed c := fun c hc => h.allowed c (by simp [hc])
      have hbefore' := hbefore.append (all_answered hlead)
      have hafter' := (outer_reported hreport).append hafter
      rcases respond_log hrespond hlog with ⟨e, hcut, -⟩ | ⟨rest, rfl, hrest⟩
      · have hprogress := @Progress.cut env svc _ _ _ _ _ hbefore' hcut hafter'
        simpa only [List.append_assoc] using hprogress
      · have hend : (finalStatus svc events = ("Accepted" : Str) ∧
            ∃ r, Prog.Runs (handoff env svc) rest r) ∨
            finalStatus svc events ≠ ("Accepted" : Str) ∧ rest = [] := by
          rcases hrest with ⟨haccepted, hrest⟩ | ⟨hother, hrest, -⟩
          · exact Or.inl ⟨haccepted, _, hrest⟩
          · exact Or.inr ⟨hother, hrest⟩
        have hprogress := Progress.read hbefore' hend hafter'
        simpa only [List.append_assoc] using hprogress

/-! ## The status a turn leaves -/

theorem delivery_reading (firstToken : Bool) (events : List StreamEvent) :
    ∀ a ∈ delivery firstToken events, a.reading = true := by
  have hspeak (firstToken : Bool) (content : Option Str) :
      ∀ a ∈ speak firstToken content, a.reading = true := by
    cases content with
    | none => simp [speak]
    | some content => cases firstToken <;> simp [speak, Await.reading]
  induction events generalizing firstToken with
  | nil => simp [delivery]
  | cons event events ih =>
    intro a ha
    rcases List.mem_cons.mp ha with rfl | ha
    · rfl
    · rcases List.mem_append.mp ha with ha | ha
      · exact hspeak _ _ a ha
      · exact ih _ a ha

theorem response_reading (events : List StreamEvent) : ∀ a ∈ response events, a.reading = true := by
  refine List.forall_mem_append.mpr ⟨delivery_reading true events, ?_⟩
  simp [Await.reading]

theorem cutAt_reading {e : Raised} (h : Prog.CutAt (awaits (response events)) log e) :
    CutShort log ∧ ∀ c ∈ log, c.1.All Await.reading := by
  refine ⟨?_, all_cutAt h (response_reading events)⟩
  obtain ⟨before, a, after, hsplit, rfl⟩ := cutAt_split h
  exact ⟨a, e, response_reading events a (by simp [hsplit]), by simp⟩

/-- The handoff of a turn leaves the status alone. -/
theorem handoff_aside {rest : CallLog}
    (h : (finalStatus svc events = ("Accepted" : Str) ∧ ∃ r, Prog.Runs (handoff env svc) rest r) ∨
      finalStatus svc events ≠ ("Accepted" : Str) ∧ rest = []) : Aside rest := by
  rcases h with ⟨-, r, h⟩ | ⟨-, rfl⟩
  · exact h.asks (asks_handoff env svc)
  · exact fun _ hc => absurd hc List.not_mem_nil

theorem Aside.not_cutShort (h : Aside log) : ¬ CutShort log := by
  rintro ⟨a, e, ha, hmem⟩
  have hop : a.aside = true := h _ hmem
  cases a <;> simp_all [Await.reading, Await.aside, Await.beside]

/-- A turn that reads the stream either sets the status the stream ends with, or
is cut short and leaves the status as it was. -/
theorem played_status (h : Played env svc events log) (status : Str) :
    ((∀ ans, (.await .nextEvent, ans) ∉ log) ∧ ¬ CutShort log ∧ statusOf status log = status) ∨
    (CutShort log ∧ statusOf status log = status) ∨
    ¬ CutShort log ∧ (.await .finalizeResponse, .ok ()) ∈ log ∧
      statusOf status log = finalStatus svc events := by
  cases played_progress h with
  | unread hlog _ =>
    exact Or.inl ⟨fun ans => hlog.not_mem rfl ans, hlog.not_cutShort, statusOf_awaits hlog status⟩
  | @cut before log after e hbefore hcut hafter =>
    obtain ⟨hshort, hreading⟩ := cutAt_reading hcut
    refine Or.inr (Or.inl ⟨?_, ?_⟩)
    · simp [cutShort_append, hshort]
    · simp only [statusOf_append, statusOf_awaits hbefore, statusOf_awaits hreading,
        statusOf_awaits hafter]
  | @read before rest after hbefore hrest hafter =>
    have haside := handoff_aside hrest
    refine Or.inr (Or.inr ⟨?_, ?_, ?_⟩)
    · simp only [cutShort_append, not_cutShort_answered, hbefore.not_cutShort, haside.not_cutShort,
        hafter.not_cutShort, or_self, not_false_iff]
    · simp [response]
    · rw [Prog.answered_append]
      simp only [statusOf_append, statusOf_awaits haside, statusOf_awaits hafter]
      rfl

/-! ## The status the router returns -/

/-- Whatever its calls answer, what the node writes has the property. -/
abbrev Writes (P : AgentState → Prop) (p : NodeProg) : Prop :=
  Prog.Must (fun _ _ => True) (fun r => ∀ u, r = .ok u → P u) p

theorem writes_done {P : AgentState → Prop} {u : AgentState} (h : P u) : Writes P (.done u) := by
  refine .done ?_
  rintro u' hu
  cases hu
  exact h

theorem writes_perform {P : AgentState → Prop} {q : Graph.Call} {f : Str → AgentState}
    (h : ∀ data, P (f data)) : Writes P (Prog.perform q >>= fun data => pure (f data)) := by
  rw [Prog.perform_bind]
  apply Prog.Must.call
  intro ans _
  cases ans with
  | error e => exact .raise fun _ hu => by cases hu
  | ok data => exact writes_done (h data)

theorem writes_withQuery {P : AgentState → Prop} {state : AgentState} {f : Str → NodeProg}
    (h : ∀ q, Writes P (f q)) : Writes P (withQuery state f) := by
  unfold withQuery
  split
  · exact .raise fun _ hu => by cases hu
  · exact h _

theorem writes_worker {P : AgentState → Prop} (h : ∀ w data, P (context w data)) (w : Worker)
    (state : AgentState) : Writes P (w.node state) := by
  cases w with
  | support => exact writes_withQuery fun _ => writes_perform (h .support)
  | catalog => exact writes_withQuery fun _ => writes_perform (h .catalog)
  | orders =>
    simp only [Worker.node, orderWorker]
    split
    · exact writes_withQuery fun _ => writes_perform (h .orders)
    · exact writes_done (h .orders _)
  | history =>
    simp only [Worker.node, historyWorker]
    split
    · exact writes_perform (h .history)
    · exact writes_done (h .history _)

theorem writes_synthesizer {P : AgentState → Prop} (h : ∀ content, P (aiMessage content))
    (state : AgentState) : Writes P (Prog.retry retryOn (synthesizerNode state) 1) := by
  have hattempt : Writes P (synthesizerNode state) := by
    unfold synthesizerNode
    split
    · exact writes_done (h _)
    · exact writes_perform fun _ => h _
  refine hattempt.tryCatch (fun _ h => h) ?_
  intro e _
  split
  · exact hattempt
  · exact .raise fun _ hu => by cases hu

/-- What a node other than the router writes: a context or a message. -/
theorem record_writes {P : AgentState → Prop} (hcontext : ∀ w data, P (context w data))
    (hmessage : ∀ content, P (aiMessage content)) {r : Record (workflow rt retryOn)}
    (hr : r.node ≠ .router) : P r.update := by
  have hwrites : Writes P ((workflow rt retryOn).node r.node r.read) := by
    cases hnode : r.node with
    | router => exact absurd hnode hr
    | worker w => exact writes_worker hcontext w r.read
    | synthesizer => exact writes_synthesizer hmessage r.read
  exact hwrites.path r.path (fun _ _ => trivial) _ rfl

/-- A channel that no update writes keeps its value. -/
theorem foldl_channel {α : Type} {channel : AgentState → Option α}
    (hreduce : ∀ s u : AgentState, channel u = none → channel (s.reduce u) = channel s)
    {ordered : List (Record (workflow rt retryOn))} (h : ∀ r ∈ ordered, channel r.update = none)
    (s : AgentState) :
    channel (ordered.foldl (fun s r => s.reduce r.update) s) = channel s := by
  induction ordered generalizing s with
  | nil => rfl
  | cons r ordered ih =>
    rw [List.foldl_cons, ih fun r hr => h r (List.mem_cons_of_mem _ hr)]
    exact hreduce s r.update (h r List.mem_cons_self)

/-- No worker is the router. -/
theorem worked_not_router {serves : Node → Graph.Call → Except Exn Str → Prop} {s₁ : AgentState}
    {ans : Except Exn Str} {ws : List (Record (workflow rt retryOn))} {state : AgentState}
    (h : Worked serves s₁ ans ws state) : ∀ w ∈ ws, w.node ≠ .router := by
  intro w hw hrouter
  have hmem : w.node ∈ (requested rt ans).map Node.worker := by
    rw [← h.nodes]
    exact List.mem_map_of_mem hw
  rw [hrouter] at hmem
  simp at hmem

/-- Nor does a worker write such a channel. -/
theorem worked_channel {α : Type} {channel : AgentState → Option α}
    (hreduce : ∀ s u : AgentState, channel u = none → channel (s.reduce u) = channel s)
    (hcontext : ∀ w data, channel (context w data) = none)
    (hmessage : ∀ content, channel (aiMessage content) = none)
    {serves : Node → Graph.Call → Except Exn Str → Prop} {s₁ : AgentState}
    {ans : Except Exn Str} {ws : List (Record (workflow rt retryOn))} {state : AgentState}
    (h : Worked serves s₁ ans ws state) : channel state = channel s₁ := by
  obtain ⟨ordered, hperm, rfl⟩ := h.merged
  refine foldl_channel hreduce ?_ s₁
  intro r hr
  exact record_writes (P := fun u => channel u = none) hcontext hmessage
    (worked_not_router h r (hperm.subset hr))

theorem Round.Sound.course {round : Round (workflow rt retryOn)} (h : round.Sound env)
    (hended : round.turn.Ended) : Course (fun _ _ _ => True)
      (round.svc.turnInput round.messages).initialState round.turn.steps round.turn.state [] := by
  obtain ⟨nodes, sound⟩ := h.reachable.sound
  have hstart : (workflow rt retryOn).reduce {}
      (round.svc.turnInput round.messages).initialState =
      (round.svc.turnInput round.messages).initialState := AgentState.reduce_empty _
  rw [hstart] at sound
  have hnodes : nodes = [] := by rw [← sound.working hended.2, hended.1, List.map_nil]
  rw [← hnodes]
  exact workflow_course sound.chain

/-- A completed turn has run its router first, whose status is the final one. -/
theorem Round.Sound.routed {round : Round (workflow rt retryOn)} (h : round.Sound env)
    (hended : round.turn.Ended) :
    ∃ r last ans, Routed (round.svc.turnInput round.messages).initialState r last ans ∧
      round.turn.steps.head? = some [r] ∧
      round.turn.state.handoffStatus = r.update.handoffStatus := by
  have hcourse := h.course hended
  generalize hsteps : round.turn.steps = steps at hcourse
  generalize hstate : round.turn.state = state at hcourse
  generalize hnodes : ([] : List Node) = nodes at hcourse
  cases hcourse with
  | routing | answering => cases hnodes
  | working _ hrequested => exact absurd (List.map_eq_nil_iff.mp hnodes.symm) hrequested
  | @ended r last ans ws z hrouted hworked hz =>
    refine ⟨r, last, ans, hrouted, rfl, ?_⟩
    have hsynth : z.update.handoffStatus = none := record_writes
      (P := fun u => u.handoffStatus = none) (fun _ _ => rfl) (fun _ => rfl) (by simp [hz])
    have hread : z.read.handoffStatus = _ := worked_channel
      (fun s u hu => by rw [AgentState.reduce, hu, Option.none_or]) (fun _ _ => rfl)
      (fun _ => rfl) hworked
    rw [AgentState.reduce, hsynth, Option.none_or, hread, AgentState.reduce, hrouted.update]
    rfl

/-- The handoff action in a reply that is a valid `RouterOutput`. -/
def replyAction (rt : Runtime) : Except Exn Str → Option Str
  | .ok content => match RouterOutput.ofReply rt content with
    | .ok result => some result.handoffAction
    | .error _ => none
  | .error _ => none

theorem routerResult_action (state : AgentState) (english : Str) (ans : Except Exn Str) :
    (routerResult rt state english ans).handoffAction = (replyAction rt ans).getD "offer_handoff" := by
  cases ans with
  | error e => rfl
  | ok content =>
    simp only [routerResult, replyAction]
    cases RouterOutput.ofReply rt content <;> rfl

theorem Round.Sound.routerStatus_eq {round : Round (workflow rt retryOn)} (h : round.Sound env)
    (hended : round.turn.Ended) : round.routerStatus = round.turn.state.handoffStatus := by
  obtain ⟨r, _, _, _, hhead, hstatus⟩ := h.routed hended
  rw [Round.routerStatus_of_head hhead, hstatus]

/-! ## What is carried over -/

theorem lastStatus_eq (status : Str) (events : List StreamEvent) :
    lastStatus status events =
      ((events.filterMap StreamEvent.state?).getLast?.elim status fun state =>
        state.handoffStatus.getD "None") := by
  induction events generalizing status with
  | nil => rfl
  | cons event events ih =>
    cases event with
    | messages => exact ih status
    | values state =>
      rw [lastStatus, ih]
      simp only [List.filterMap_cons, StreamEvent.state?, List.getLast?_cons]
      cases (events.filterMap StreamEvent.state?).getLast? <;> rfl

/-- The stream of a turn that is read to its end ends with the router's status. -/
theorem Round.Sound.routerStatus_of_read {round : Round (workflow rt retryOn)} (h : round.Sound env)
    (hread : (.await .finalizeResponse, .ok ()) ∈ round.log) :
    round.routerStatus = some (finalStatus round.svc round.events) := by
  obtain ⟨hended, hlast⟩ := h.read ⟨_, hread⟩
  obtain ⟨r, last, ans, hrouted, hhead, hfinal⟩ := h.routed hended
  rw [finalStatus, lastStatus_eq, hlast, Option.elim_some, hfinal,
    Round.routerStatus_of_head hhead, hrouted.update]
  rfl

/-- The status after a round, and whether the router's gets that far. -/
theorem Round.Sound.status {round : Round (workflow rt retryOn)} (h : round.Sound env) :
    (¬ CutShort round.log ∧ round.statusAfter = round.routerStatus.getD round.svc.handoffStatus) ∨
    CutShort round.log ∧ round.statusAfter = round.svc.handoffStatus := by
  rcases played_status h.played round.svc.handoffStatus with
    ⟨hunread, hwhole, hstatus⟩ | ⟨hshort, hstatus⟩ | ⟨hwhole, hread, hstatus⟩
  · refine Or.inl ⟨hwhole, ?_⟩
    have hnone : round.routerStatus = none := by
      rw [Round.routerStatus, h.unread hunread]
      rfl
    rw [hnone]
    exact hstatus
  · exact Or.inr ⟨hshort, hstatus⟩
  · refine Or.inl ⟨hwhole, ?_⟩
    rw [Round.statusAfter, hstatus, h.routerStatus_of_read hread]
    rfl

/-- The status the router is given. -/
def Round.givenStatus (round : Round (workflow rt retryOn)) : Str :=
  (routerPrompt round.fresh.state).handoffStatus

theorem Round.givenStatus_eq (round : Round (workflow rt retryOn)) :
    round.givenStatus = round.svc.handoffStatus := rfl

/-- The status the router returned last. -/
def latestStatus (rounds : List (Round (workflow rt retryOn))) : Str :=
  rounds.foldl (fun status round => round.routerStatus.getD status) "None"

/-- Each router is given the status that the router before it returned. -/
def StatusCarried (rounds : List (Round (workflow rt retryOn))) : Prop :=
  ∀ before round after, rounds = before ++ round :: after → round.givenStatus = latestStatus before

/-- Had the round been cut short, its router would have returned the status it
was given, if any. -/
def Round.Kept (round : Round (workflow rt retryOn)) : Prop :=
  CutShort round.log → ∀ status ∈ round.routerStatus, status = round.givenStatus

theorem statusCarried_snoc {rounds : List (Round (workflow rt retryOn))}
    {round : Round (workflow rt retryOn)} :
    StatusCarried (rounds ++ [round]) ↔
      StatusCarried rounds ∧ round.givenStatus = latestStatus rounds := by
  constructor
  · intro h
    refine ⟨?_, h rounds round [] rfl⟩
    rintro before other after rfl
    exact h before other (after ++ [round]) (by simp)
  · rintro ⟨hcarried, hround⟩ before other after hsplit
    rcases List.eq_nil_or_concat after with rfl | ⟨after, last, rfl⟩
    · obtain ⟨rfl, heq⟩ := List.append_inj' hsplit rfl
      cases heq
      exact hround
    · rw [List.concat_eq_append, ← List.cons_append, ← List.append_assoc] at hsplit
      exact hcarried before other after (List.append_inj' hsplit rfl).1

theorem latestStatus_snoc {rounds : List (Round (workflow rt retryOn))}
    {round : Round (workflow rt retryOn)} :
    latestStatus (rounds ++ [round]) = round.routerStatus.getD (latestStatus rounds) := by
  simp [latestStatus]

theorem Round.Sound.kept_iff {round : Round (workflow rt retryOn)} (h : round.Sound env) :
    round.Kept ↔ round.statusAfter = round.routerStatus.getD round.givenStatus := by
  rcases h.status with ⟨hwhole, hstatus⟩ | ⟨hshort, hstatus⟩
  · exact iff_of_true (fun hshort => absurd hshort hwhole) hstatus
  · rw [hstatus, Round.Kept]
    cases round.routerStatus with
    | none => simp [Round.givenStatus_eq]
    | some status => simp [hshort, Round.givenStatus_eq, eq_comm]

/-- The service knows the latest status, and has always known it, exactly if
every round kept it. -/
theorem PhoneCall.carried_iff {rounds : List (Round (workflow rt retryOn))} {status : Str}
    (h : PhoneCall env svc rounds status) :
    (StatusCarried rounds ∧ status = latestStatus rounds) ↔ ∀ round ∈ rounds, round.Kept := by
  induction h with
  | start =>
    refine iff_of_true ⟨?_, rfl⟩ (by simp)
    intro before round after h
    simp at h
  | @round rounds status round profile emotion _ hsound hsvc ih =>
    have hgiven : round.givenStatus = status := by rw [Round.givenStatus_eq, hsvc]
    rw [statusCarried_snoc, latestStatus_snoc, List.forall_mem_append, ← ih, List.forall_mem_singleton,
      hsound.kept_iff, hgiven]
    constructor
    · rintro ⟨⟨hcarried, hlatest⟩, hafter⟩
      rw [← hlatest] at hafter
      exact ⟨⟨hcarried, hlatest⟩, hafter⟩
    · rintro ⟨⟨hcarried, hlatest⟩, hafter⟩
      rw [← hlatest]
      exact ⟨⟨hcarried, rfl⟩, hafter⟩

/-- **When the handoff status is carried over.** In every call each router is
given the status the router before it returned if and only if no turn but the
last was cut short with a router that had returned another status than it was
given. -/
theorem status_carried_iff (rt : Runtime) (retryOn : Exn → Bool) (env : Env) (svc : LLMService)
    (rounds : List (Round (workflow rt retryOn))) (status : Str)
    (h : PhoneCall env svc rounds status) :
    StatusCarried rounds ↔ ∀ round ∈ rounds.dropLast, CutShort round.log →
      ∀ status ∈ round.routerStatus, status = round.givenStatus := by
  cases h with
  | start =>
    refine iff_of_true ?_ (by simp)
    intro before round after h
    simp at h
  | @round rounds status round profile emotion hrounds hsound hsvc =>
    have hgiven : round.givenStatus = status := by rw [Round.givenStatus_eq, hsvc]
    rw [statusCarried_snoc, hgiven, List.dropLast_concat]
    exact hrounds.carried_iff

end

/-! ## Rounds to play -/

theorem not_streamRaised_playTurn (env : Env) (svc : LLMService) (events : List StreamEvent)
    (cut : Option ℕ) : ¬ StreamRaised (playTurn env svc events cut) := by
  rintro ⟨e, he⟩
  obtain ⟨n, hn⟩ := Prog.mem_play he
  simp only [interruptedAt] at hn
  split at hn <;> cases hn

/-- A round whose stream is the graph's last values, with every await but one
returning. -/
def Round.play (rt : Runtime) (retryOn : Exn → Bool) (env : Env) (svc : LLMService)
    (messages : List Message) (turn : Turn (workflow rt retryOn)) (cut : Option ℕ) :
    Round (workflow rt retryOn) where
  svc := svc
  messages := messages
  turn := turn
  events := [.values turn.state]
  log := playTurn env svc [.values turn.state] cut
  late := false

section
variable {rt : Runtime} {retryOn : Exn → Bool} {env : Env} {svc : LLMService}
  {messages : List Message} {turn : Turn (workflow rt retryOn)} {cut : Option ℕ}

theorem Round.play_sound (h : Turn.Reachable (fun _ _ _ => True)
      (Turn.start _ {} (svc.turnInput messages).initialState) turn)
    (hread : ∃ after, playTurn env svc [.values turn.state] cut =
      Prog.answered (awaits (opening ++ lead svc ++ [.nextEvent])) ++ after)
    (hended : (∃ ans, (.await .finalizeResponse, ans) ∈
      playTurn env svc [.values turn.state] cut) → turn.Ended) :
    (Round.play rt retryOn env svc messages turn cut).Sound env where
  reachable := h
  played := played_playTurn ..
  unread hunread := by
    obtain ⟨after, hlog⟩ := hread
    refine absurd ?_ (hunread (.ok ()))
    rw [Round.play, hlog]
    simp
  read hfinalize := ⟨hended hfinalize, rfl⟩
  raised hraised := absurd hraised (not_streamRaised_playTurn env svc _ _)

theorem playTurn_none (env : Env) (svc : LLMService) (state : AgentState) :
    ∃ after, playTurn env svc [.values state] none =
      Prog.answered (awaits (opening ++ lead svc ++ [.nextEvent])) ++ after :=
  ⟨_, rfl⟩

/-- The turn is cancelled while it awaits its second event. -/
theorem Round.interrupted_sound (h : Turn.Reachable (fun _ _ _ => True)
      (Turn.start _ {} (svc.turnInput messages).initialState) turn) :
    (Round.play rt retryOn env svc messages turn (some 7)).Sound env := by
  refine Round.play_sound h ⟨_, rfl⟩ ?_
  rintro ⟨ans, hread⟩
  have hlog : playTurn env svc [.values turn.state] (some 7) =
      Prog.answered (awaits (opening ++ lead svc ++ [.nextEvent])) ++
        [(.await .nextEvent, .error .cancelled)] ++
        Prog.answered (awaits (closing ++ [.onAfterProcessFrame])) := rfl
  rw [hlog] at hread
  simp [Prog.answered, opening, lead, closing] at hread

end

/-! ## An offer the caller talks over -/

def callEnv : Env := ⟨some "id", some "token", some "https://techmart.example/", fun _ => false⟩

def callService : LLMService := ⟨[], "call", "session", "TKT-1", "None", "neutral"⟩

def callMessages : List Message := [⟨.human, "A human, please."⟩]

def offerReply : Str :=
  ("\x7b\"standalone_query\": \"agent\", \"intents\": [], " : Str) ++
    ("\"handoff_action\": \"offer_handoff\"\x7d" : Str)

def offerAnswer : Node → Graph.Call → Except Exn Str
  | _, .routerLlm _ => .ok offerReply
  | _, _ => .ok "Shall I connect you?"

/-- The graph of a turn that makes an offer, after so many moves. -/
@[irreducible]
def offerTurn (moves : ℕ) : Turn (workflow Runtime.ascii fun _ => true) :=
  Turn.play offerAnswer moves
    (Turn.start _ {} (callService.turnInput callMessages).initialState)

theorem offerTurn_reachable (moves : ℕ) : Turn.Reachable (fun _ _ _ => True)
    (Turn.start _ {} (callService.turnInput callMessages).initialState) (offerTurn moves) := by
  unfold offerTurn
  exact Turn.Reachable.start.play (fun _ _ => trivial) moves

theorem offerTurn_ended : (offerTurn 5).Ended := by
  have h : ((offerTurn 5).tasks.isEmpty && (offerTurn 5).stop.isNone) = true := by decide +kernel
  rw [Bool.and_eq_true, List.isEmpty_iff, Option.isNone_iff_eq_none] at h
  exact h

/-- The router has returned its offer, and the caller speaks. -/
def offeringRound : Round (workflow Runtime.ascii fun _ => true) :=
  Round.play _ _ callEnv callService callMessages (offerTurn 3) (some 7)

/-- The turn after it, from beginning to end. -/
def answeringRound : Round (workflow Runtime.ascii fun _ => true) :=
  Round.play _ _ callEnv callService callMessages (offerTurn 5) none

theorem offering_call :
    ∃ status, PhoneCall callEnv callService [offeringRound, answeringRound] status := by
  have hoffering : offeringRound.Sound callEnv := Round.interrupted_sound (offerTurn_reachable 3)
  have hanswering : answeringRound.Sound callEnv :=
    Round.play_sound (offerTurn_reachable 5) (playTurn_none ..) fun _ => offerTurn_ended
  have hfirst : PhoneCall callEnv callService [offeringRound] offeringRound.statusAfter :=
    PhoneCall.start.round [] "neutral" hoffering rfl
  have hstatus : offeringRound.statusAfter = "None" := rfl
  rw [hstatus] at hfirst
  exact ⟨_, hfirst.round [] "neutral" hanswering rfl⟩

theorem status_carried_iff_offering : StatusCarried [offeringRound, answeringRound] ↔
    ∀ round ∈ [offeringRound], CutShort round.log →
      ∀ status ∈ round.routerStatus, status = round.givenStatus := by
  obtain ⟨status, h⟩ := offering_call
  exact status_carried_iff Runtime.ascii _ callEnv callService _ status h

/-- The router has made an offer, and the caller answers over it: the next
router does not know of the offer. -/
theorem offer_not_carried :
    (∃ status, PhoneCall callEnv callService [offeringRound, answeringRound] status) ∧
    offeringRound.routerStatus = some ("Offered" : Str) ∧ answeringRound.givenStatus = "None" ∧
    ¬ StatusCarried [offeringRound, answeringRound] := by
  have hoffered : offeringRound.routerStatus = some ("Offered" : Str) := by decide +kernel
  refine ⟨offering_call, hoffered, rfl, ?_⟩
  intro hcarried
  have hlatest := hcarried [offeringRound] answeringRound [] rfl
  simp only [latestStatus, List.foldl_cons, List.foldl_nil, hoffered] at hlatest
  have hgiven : ("None" : Str) = "Offered" := hlatest
  cases hgiven

end TechMart.Bot
