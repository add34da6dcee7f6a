import TechMart.Bot.Rounds

/-!
# Frames

What a turn sends downstream. The service and its base class each push a start
and an end frame, so that a turn is well bracketed only if one of each pair is
lost: `well_bracketed_iff`.
-/

namespace TechMart.Bot

open Python TechMart.Graph

inductive Frame where
  | ttsUpdateSettings (language : Str)
  | responseStart
  | text (content : Str)
  | responseEnd
  | ringback
  | endFrame
  deriving DecidableEq

/-- What is handed on at the await. -/
def Await.frame : Await → Option Frame
  | .pushTtsUpdateSettings language => some (.ttsUpdateSettings language)
  | .pushResponseStart | .pushFirstTokenStart => some .responseStart
  | .pushText content => some (.text content)
  | .finalizeResponse | .pushResponseEnd => some .responseEnd
  | .pushRingback => some .ringback
  | .pushEnd => some .endFrame
  | _ => none

/-- The frame a call has handed on; a push that is cancelled has done so if the
cancellation comes `late`. -/
def handedOn (late : Bool) : Op × Except Raised Unit → Option Frame
  | (.await a, .ok ()) => a.frame
  | (.await a, .error .cancelled) => if late then a.frame else none
  | _ => none

def frames (late : Bool) (log : CallLog) : List Frame :=
  log.flatMap fun c => (handedOn late c).toList

/-- What is handed on at awaits that all return. -/
def pushes (as : List Await) : List Frame := as.flatMap fun a => a.frame.toList

/-- The contents of the text frames. -/
def heard (fs : List Frame) : List Str :=
  fs.filterMap fun
    | .text content => some content
    | _ => none

/-! ## Brackets -/

namespace Frame

/-- It belongs to the response. -/
def ofResponse : Frame → Bool
  | responseStart | text _ | responseEnd => true
  | _ => false

end Frame

/-- One start frame, texts, and one end frame. -/
def WellBracketed (fs : List Frame) : Prop :=
  ∃ contents : List Str,
    fs.filter Frame.ofResponse = .responseStart :: contents.map .text ++ [.responseEnd]

section
variable {late : Bool} {log log' : CallLog} {as : List Await}

@[simp]
theorem pushes_nil : pushes [] = [] := rfl

@[simp]
theorem pushes_cons (a : Await) (as : List Await) : pushes (a :: as) = a.frame.toList ++ pushes as := rfl

@[simp]
theorem pushes_append (as as' : List Await) : pushes (as ++ as') = pushes as ++ pushes as' :=
  List.flatMap_append

@[simp]
theorem frames_append : frames late (log ++ log') = frames late log ++ frames late log' :=
  List.flatMap_append

@[simp]
theorem frames_answered : frames late (Prog.answered (awaits as)) = pushes as := by
  simp only [frames, Prog.answered, awaits, List.map_map, List.flatMap_map, pushes]
  rfl

@[simp]
theorem frames_singleton (c : Op × Except Raised Unit) :
    frames late [c] = (handedOn late c).toList :=
  List.flatMap_singleton ..

/-! ## The faults of a turn -/

/-- The stream raises an exception. -/
def StreamRaised (log : CallLog) : Prop := ∃ e, (.await .nextEvent, .error (.exception e)) ∈ log

def isDelivered : Op × Except Raised Unit → Bool
  | (.await .nextEvent, .ok ()) => true
  | _ => false

/-- The events that came before the turn ended. -/
def consumed (events : List StreamEvent) (log : CallLog) : List StreamEvent :=
  events.take (log.countP isDelivered)

/-- None of the events is to be spoken. -/
def Silent (events : List StreamEvent) : Prop := ∀ event ∈ events, spoken event = none

instance (events : List StreamEvent) : Decidable (Silent events) := by
  unfold Silent
  infer_instance

/-- The turn is stopped once the base class has pushed its start frame, and
before the service pushes a start or an end frame of its own. -/
def StoppedEarly (late : Bool) (events : List StreamEvent) (log : CallLog) : Prop :=
  (CancelledAt log .pushResponseStart ∧ late = true) ∨
  CancelledAt log .startProcessingMetrics ∨ CancelledAt log .startTtfbMetrics ∨
  (∃ language, CancelledAt log (.pushTtsUpdateSettings language)) ∨
  CancelledAt log .stopTtfbMetrics ∨
  (CancelledAt log .pushFirstTokenStart ∧ late = false) ∨
  Silent (consumed events log) ∧
    (CancelledAt log .nextEvent ∨ StreamRaised log ∨
      CancelledAt log .finalizeResponse ∧ late = false)

/-- The end frame of the base class is lost. -/
def EndLost (late : Bool) (log : CallLog) : Prop :=
  CancelledAt log .stopProcessingMetrics ∨ CancelledAt log .pushResponseEnd ∧ late = false

theorem silent_cons {event : StreamEvent} {events : List StreamEvent} :
    Silent (event :: events) ↔ spoken event = none ∧ Silent events :=
  List.forall_mem_cons

theorem silent_append {events events' : List StreamEvent} :
    Silent (events ++ events') ↔ Silent events ∧ Silent events' :=
  List.forall_mem_append

/-! ## The frames of the stream -/

/-- The text frames for these events. -/
def texts (events : List StreamEvent) : List Frame := (events.filterMap spoken).map .text

theorem texts_silent {events : List StreamEvent} (h : Silent events) : texts events = [] := by
  rw [texts, List.filterMap_eq_nil_iff.mpr h]
  rfl

theorem pushes_delivery (firstToken : Bool) (events : List StreamEvent) :
    pushes (delivery firstToken events) =
      (if firstToken = true ∧ ¬ Silent events then [.responseStart] else []) ++ texts events := by
  induction events generalizing firstToken with
  | nil => simp [delivery, Silent, texts]
  | cons event events ih =>
    cases hspoken : spoken event with
    | none =>
      have hsilent : Silent (event :: events) ↔ Silent events := by simp [silent_cons, hspoken]
      simp [delivery, speak, hspoken, Await.frame, ih, texts, hsilent]
    | some content =>
      have hsilent : ¬ Silent (event :: events) := by simp [silent_cons, hspoken]
      cases firstToken <;> simp [delivery, speak, hspoken, Await.frame, ih, texts, hsilent]

/-! ## Where a response stops -/

/-- Where one round of the loop can raise, or the push after its last one: the
calls of the round before, and the one that does. -/
inductive Within : (firstToken : Bool) → (ahead : List StreamEvent) → List Await → Await → Prop
  | next {firstToken : Bool} {ahead : List StreamEvent} : Within firstToken ahead [] .nextEvent
  | ttfb {event : StreamEvent} {content : Str} {ahead : List StreamEvent} :
      spoken event = some content → Within true (event :: ahead) [.nextEvent] .stopTtfbMetrics
  | start {event : StreamEvent} {content : Str} {ahead : List StreamEvent} :
      spoken event = some content →
      Within true (event :: ahead) [.nextEvent, .stopTtfbMetrics] .pushFirstTokenStart
  | firstText {event : StreamEvent} {content : Str} {ahead : List StreamEvent} :
      spoken event = some content → Within true (event :: ahead)
        [.nextEvent, .stopTtfbMetrics, .pushFirstTokenStart] (.pushText content)
  | text {event : StreamEvent} {content : Str} {ahead : List StreamEvent} :
      spoken event = some content → Within false (event :: ahead) [.nextEvent] (.pushText content)
  | finalize {firstToken : Bool} : Within firstToken [] [.nextEvent] .finalizeResponse

theorem within_speak {firstToken : Bool} {event : StreamEvent} {ahead : List StreamEvent}
    {inner after : List Await} {a : Await}
    (h : speak firstToken (spoken event) = inner ++ a :: after) :
    Within firstToken (event :: ahead) (.nextEvent :: inner) a := by
  cases hspoken : spoken event with
  | none => simp [hspoken, speak] at h
  | some content =>
    cases firstToken with
    | false =>
      simp only [hspoken, speak, Bool.false_eq_true, if_false] at h
      obtain ⟨rfl, h₁⟩ | ⟨_, rfl, h₁⟩ := List.cons_eq_append_iff.mp h
      · cases h₁
        exact .text hspoken
      · simp at h₁
    | true =>
      simp only [hspoken, speak, if_true] at h
      obtain ⟨rfl, h₁⟩ | ⟨_, rfl, h₁⟩ := List.cons_eq_append_iff.mp h
      · cases h₁
        exact .ttfb hspoken
      obtain ⟨rfl, h₂⟩ | ⟨_, rfl, h₂⟩ := List.cons_eq_append_iff.mp h₁
      · cases h₂
        exact .start hspoken
      obtain ⟨rfl, h₃⟩ | ⟨_, rfl, h₃⟩ := List.cons_eq_append_iff.mp h₂
      · cases h₃
        exact .firstText hspoken
      · simp at h₃

/-- The calls before the one that raises: whole rounds of the loop, and the
beginning of one more. -/
theorem response_split {events : List StreamEvent} {firstToken : Bool} {before after : List Await}
    {a : Await}
    (h : delivery firstToken events ++ [.nextEvent, .finalizeResponse] = before ++ a :: after) :
    ∃ done ahead inner, events = done ++ ahead ∧ before = delivery firstToken done ++ inner ∧
      Within (firstToken && decide (Silent done)) ahead inner a := by
  induction events generalizing firstToken before with
  | nil =>
    refine ⟨[], [], before, rfl, rfl, ?_⟩
    obtain ⟨rfl, h₁⟩ | ⟨_, rfl, h₁⟩ := List.cons_eq_append_iff.mp h
    · cases h₁
      exact .next
    obtain ⟨rfl, h₂⟩ | ⟨_, rfl, h₂⟩ := List.cons_eq_append_iff.mp h₁
    · cases h₂
      exact .finalize
    · simp at h₂
  | cons event events ih =>
    rw [delivery, List.cons_append, List.append_assoc] at h
    obtain ⟨rfl, h₁⟩ | ⟨before, rfl, h₁⟩ := List.cons_eq_append_iff.mp h
    · cases h₁
      exact ⟨[], event :: events, [], rfl, rfl, .next⟩
    have later {rest : List Await}
        (hrest : delivery (firstToken && (spoken event).isNone) events ++
          [.nextEvent, .finalizeResponse] = rest ++ a :: after) :
        ∃ done ahead inner, event :: events = done ++ ahead ∧
          .nextEvent :: (speak firstToken (spoken event) ++ rest) = delivery firstToken done ++ inner ∧
          Within (firstToken && decide (Silent done)) ahead inner a := by
      obtain ⟨done, ahead, inner, rfl, rfl, hwithin⟩ := ih hrest
      refine ⟨event :: done, ahead, inner, rfl, by simp [delivery], ?_⟩
      have hfirst : (firstToken && decide (Silent (event :: done))) =
          (firstToken && (spoken event).isNone && decide (Silent done)) := by
        cases hspoken : spoken event <;> simp [silent_cons, hspoken]
      rwa [hfirst]
    rcases List.append_eq_append_iff.mp h₁ with ⟨rest, rfl, h₂⟩ | ⟨rest, hspeak, h₂⟩
    · exact later h₂
    · cases rest with
      | nil =>
        rw [List.append_nil] at hspeak
        rw [← hspeak, ← List.append_nil (speak _ _)]
        exact later h₂.symm
      | cons b rest =>
        cases h₂
        refine ⟨[], event :: events, .nextEvent :: before, rfl, rfl, ?_⟩
        simpa [Silent] using within_speak hspeak

theorem cutAt_response {events : List StreamEvent} {e : Raised}
    (h : Prog.CutAt (awaits (response events)) log e) :
    ∃ done ahead inner a, events = done ++ ahead ∧ Within (decide (Silent done)) ahead inner a ∧
      log = Prog.answered (awaits (delivery true done ++ inner)) ++ [(.await a, .error e)] := by
  obtain ⟨before, a, after, hsplit, rfl⟩ := cutAt_split h
  obtain ⟨done, ahead, inner, rfl, rfl, hwithin⟩ := response_split hsplit
  exact ⟨done, ahead, inner, a, rfl, by simpa using hwithin, rfl⟩

/-! ## The faults of a log -/

@[simp]
theorem not_cancelledAt_answered {qs : List Op} {a : Await} : ¬ CancelledAt (Prog.answered qs) a := by
  simp [CancelledAt, Prog.answered]

@[simp]
theorem cancelledAt_append {a : Await} :
    CancelledAt (log ++ log') a ↔ CancelledAt log a ∨ CancelledAt log' a :=
  List.mem_append

@[simp]
theorem not_cancelledAt_nil {a : Await} : ¬ CancelledAt [] a := List.not_mem_nil

@[simp]
theorem cancelledAt_cons {c : Op × Except Raised Unit} {a : Await} :
    CancelledAt (c :: log) a ↔ c = (.await a, .error .cancelled) ∨ CancelledAt log a := by
  rw [CancelledAt, List.mem_cons, eq_comm]
  rfl

@[simp]
theorem not_streamRaised_answered {qs : List Op} : ¬ StreamRaised (Prog.answered qs) := by
  simp [StreamRaised, Prog.answered]

@[simp]
theorem streamRaised_append : StreamRaised (log ++ log') ↔ StreamRaised log ∨ StreamRaised log' := by
  simp [StreamRaised, exists_or]

@[simp]
theorem not_streamRaised_nil : ¬ StreamRaised [] := by simp [StreamRaised]

@[simp]
theorem streamRaised_cons {c : Op × Except Raised Unit} : StreamRaised (c :: log) ↔
    (∃ e, c = (.await .nextEvent, .error (.exception e))) ∨ StreamRaised log := by
  simp [StreamRaised, exists_or, eq_comm]

theorem countP_delivery (firstToken : Bool) (events : List StreamEvent) :
    (Prog.answered (awaits (delivery firstToken events))).countP isDelivered = events.length := by
  induction events generalizing firstToken with
  | nil => rfl
  | cons event events ih =>
    have hspeak (content : Option Str) :
        (Prog.answered (awaits (speak firstToken content))).countP isDelivered = 0 := by
      cases content with
      | none => rfl
      | some content => cases firstToken <;> rfl
    simp [delivery, ih, hspeak, isDelivered, List.countP_cons]

/-! ## Calls beside the response -/

/-- It neither reads the stream nor pushes a frame for what it reads. -/
def Await.beside : Await → Bool
  | .onBeforeProcessFrame | .superProcessFrame | .post .. | .closeSession | .pushRingback
  | .pushEnd | .onCompletionTimeout | .pushError _ | .stopProcessingMetrics | .pushResponseEnd
  | .onAfterProcessFrame => true
  | _ => false

/-- Nor does it stand in the `finally` block of the base class. -/
def Await.aside : Await → Bool
  | .stopProcessingMetrics | .pushResponseEnd => false
  | a => a.beside

def Op.All (p : Await → Bool) : Op → Prop
  | .await a => p a = true
  | .setHandoffStatus _ => False

def Beside (log : CallLog) : Prop := ∀ c ∈ log, c.1.All Await.beside

def Aside (log : CallLog) : Prop := ∀ c ∈ log, c.1.All Await.aside

theorem Aside.beside (h : Aside log) : Beside log := by
  rintro ⟨op, ans⟩ hc
  have hop := h _ hc
  cases op with
  | setHandoffStatus => cases hop
  | await a => cases a <;> first | exact hop | cases hop

theorem Aside.quiet (h : Aside log) : (frames late log).filter Frame.ofResponse = [] := by
  rw [List.filter_eq_nil_iff]
  intro f hf
  obtain ⟨⟨op, ans⟩, hc, hf⟩ := List.mem_flatMap.mp hf
  have hop := h _ hc
  cases op with
  | setHandoffStatus => cases hop
  | await a =>
    have hframe : f ∈ a.frame := by
      cases ans with
      | ok => simpa [handedOn] using hf
      | error e =>
        cases e <;> simp [handedOn] at hf
        exact hf.2
    cases a <;> cases hop <;> cases hframe <;> simp [Frame.ofResponse]

theorem Beside.not_cancelledAt (h : Beside log) {a : Await} (ha : a.beside = false) :
    ¬ CancelledAt log a := by
  intro hcancelled
  have hop : a.beside = true := h _ hcancelled
  simp [ha] at hop

theorem Beside.not_streamRaised (h : Beside log) : ¬ StreamRaised log := by
  rintro ⟨e, he⟩
  exact absurd (h _ he) (by simp [Op.All, Await.beside])

theorem Beside.countP (h : Beside log) : log.countP isDelivered = 0 := by
  rw [List.countP_eq_zero]
  rintro ⟨op, ans⟩ hc hdelivered
  have hop := h _ hc
  unfold isDelivered at hdelivered
  split at hdelivered
  · rename_i heq
    cases heq
    cases hop
  · cases hdelivered

theorem Aside.not_endLost (h : Aside log) : ¬ EndLost late log := by
  rintro (hcancelled | ⟨hcancelled, -⟩)
  · exact absurd (h _ hcancelled) (by simp [Op.All, Await.aside])
  · exact absurd (h _ hcancelled) (by simp [Op.All, Await.aside])

theorem asks_awaitOn {a : Await} (h : a.aside = true) : Prog.Asks (Op.All Await.aside) (awaitOn a) :=
  Prog.Asks.perform (P := Op.All Await.aside) h

theorem asks_handoff (env : Env) (svc : LLMService) : Prog.Asks (Op.All Await.aside) (handoff env svc) := by
  have htransfer : Prog.Asks (Op.All Await.aside) (transfer env svc) := by
    simp only [transfer]
    split
    · trivial
    · unfold postTransfer
      refine ((asks_awaitOn rfl).tryFinally (asks_awaitOn rfl)).tryCatch ?_
      intro e
      cases e <;> trivial
  refine htransfer.bind ?_
  intro _
  refine (asks_awaitOn rfl).bind ?_
  intro _
  exact asks_awaitOn rfl

theorem all_answered {p : Await → Bool} (h : ∀ a ∈ as, p a = true) :
    ∀ c ∈ (Prog.answered (awaits as) : CallLog), c.1.All p := by
  intro c hc
  simp only [Prog.answered, awaits, List.map_map, List.mem_map] at hc
  obtain ⟨a, ha, rfl⟩ := hc
  exact h a ha

theorem all_cutAt {p : Await → Bool} {e : Raised} (hcut : Prog.CutAt (awaits as) log e)
    (h : ∀ a ∈ as, p a = true) : ∀ c ∈ log, c.1.All p := by
  obtain ⟨before, a, after, rfl, rfl⟩ := cutAt_split hcut
  intro c hc
  rcases List.mem_append.mp hc with hc | hc
  · exact all_answered (fun a ha => h a (List.mem_append_left _ ha)) c hc
  · cases List.mem_singleton.mp hc
    exact h a (by simp)

/-- What is handed on comes from an await of the log. -/
theorem exists_await {f : Frame} (h : f ∈ frames late log) :
    ∃ a ans, (.await a, ans) ∈ log ∧ a.frame = some f := by
  obtain ⟨⟨op, ans⟩, hc, hf⟩ := List.mem_flatMap.mp h
  cases op with
  | setHandoffStatus => simp [handedOn] at hf
  | await a =>
    refine ⟨a, ans, hc, ?_⟩
    cases ans with
    | ok => simpa [handedOn] using hf
    | error e =>
      cases e <;> simp [handedOn] at hf
      exact hf.2

theorem mem_frames {p : Await → Bool} {f : Frame} (h : ∀ c ∈ log, c.1.All p)
    (hf : f ∈ frames late log) : ∃ a, p a = true ∧ a.frame = some f := by
  obtain ⟨a, ans, hc, hframe⟩ := exists_await hf
  exact ⟨a, h _ hc, hframe⟩

theorem aside_report {env : Env} {r : Except Raised Unit} (h : Reported env r log) : Aside log := by
  have hreport (e : Exn) : ∀ a ∈ report env e, a.aside = true := by
    unfold report
    split <;> simp [Await.aside, Await.beside]
  cases h with
  | returned | swallowed => exact fun _ hc => absurd hc List.not_mem_nil
  | reported e => exact all_answered (hreport e)
  | @cut e _ hcut => exact all_cutAt hcut (hreport e)

/-! ## The response as the service sends it -/

/-- What a turn sends of the response before its `finally` block: nothing more
than the start frame if it is stopped early; else an end frame if nothing is
spoken, and a second start frame if something is. -/
inductive Sent (late : Bool) (events : List StreamEvent) (log : CallLog) : List Frame → Prop
  | nothing : StoppedEarly late events log → Sent late events log []
  | closed : ¬ StoppedEarly late events log → Silent (consumed events log) → ¬ StreamRaised log →
      Sent late events log [.responseEnd]
  | started (more : List Frame) : ¬ StoppedEarly late events log →
      ¬ Silent (consumed events log) → Sent late events log (.responseStart :: more)

theorem consumed_append (events : List StreamEvent) (h : log'.countP isDelivered = 0) :
    consumed events (log ++ log') = consumed events log := by
  rw [consumed, consumed, List.countP_append, h, Nat.add_zero]

theorem stoppedEarly_append {events : List StreamEvent} (h : Beside log') :
    StoppedEarly late events (log ++ log') ↔ StoppedEarly late events log := by
  simp only [StoppedEarly, cancelledAt_append, streamRaised_append, consumed_append events h.countP,
    h.not_streamRaised, or_false]
  have hnot (a : Await) (ha : a.beside = false) : ¬ CancelledAt log' a := h.not_cancelledAt ha
  simp only [hnot .pushResponseStart rfl, hnot .startProcessingMetrics rfl,
    hnot .startTtfbMetrics rfl, hnot (.pushTtsUpdateSettings _) rfl, hnot .stopTtfbMetrics rfl,
    hnot .pushFirstTokenStart rfl, hnot .nextEvent rfl, hnot .finalizeResponse rfl, or_false]

theorem Beside.not_stoppedEarly {events : List StreamEvent} (h : Beside log) :
    ¬ StoppedEarly late events log := by
  rw [← List.nil_append log, stoppedEarly_append h]
  simp [StoppedEarly]

theorem Sent.append {events : List StreamEvent} {fs : List Frame}
    (h : Sent late events log fs) (hbeside : Beside log') : Sent late events (log ++ log') fs := by
  cases h with
  | nothing hstopped => exact .nothing ((stoppedEarly_append hbeside).mpr hstopped)
  | closed hstopped hsilent hraised =>
    refine .closed ?_ ?_ ?_
    · rwa [stoppedEarly_append hbeside]
    · rwa [consumed_append events hbeside.countP]
    · simp [hraised, hbeside.not_streamRaised]
  | started more hstopped hsilent =>
    refine .started more ?_ ?_
    · rwa [stoppedEarly_append hbeside]
    · rwa [consumed_append events hbeside.countP]

theorem consumed_prepend (events : List StreamEvent) {qs : List Op}
    (h : (Prog.answered qs : CallLog).countP isDelivered = 0) :
    consumed events (Prog.answered qs ++ log) = consumed events log := by
  rw [consumed, consumed, List.countP_append, h, Nat.zero_add]

theorem stoppedEarly_prepend {events : List StreamEvent} {qs : List Op}
    (h : (Prog.answered qs : CallLog).countP isDelivered = 0) :
    StoppedEarly late events (Prog.answered qs ++ log) ↔ StoppedEarly late events log := by
  simp [StoppedEarly, consumed_prepend events h]

theorem Sent.prepend {events : List StreamEvent} {fs : List Frame} {qs : List Op}
    (h : Sent late events log fs) (hqs : (Prog.answered qs : CallLog).countP isDelivered = 0) :
    Sent late events (Prog.answered qs ++ log) fs := by
  cases h with
  | nothing hstopped => exact .nothing ((stoppedEarly_prepend hqs).mpr hstopped)
  | closed hstopped hsilent hraised =>
    refine .closed ?_ ?_ ?_
    · rwa [stoppedEarly_prepend hqs]
    · rwa [consumed_prepend events hqs]
    · simpa using hraised
  | started more hstopped hsilent =>
    refine .started more ?_ ?_
    · rwa [stoppedEarly_prepend hqs]
    · rwa [consumed_prepend events hqs]

/-- The response is read to its end. -/
theorem sent_answered (events : List StreamEvent) (status : Str) :
    Sent late events (Prog.answered (awaits (response events) ++ [.setHandoffStatus status]))
      ((pushes (response events)).filter Frame.ofResponse) := by
  have hconsumed : consumed events
      (Prog.answered (awaits (response events) ++ [.setHandoffStatus status])) = events := by
    simp [consumed, response, countP_delivery, isDelivered, List.countP_cons]
  have hstopped : ¬ StoppedEarly late events
      (Prog.answered (awaits (response events) ++ [.setHandoffStatus status])) := by
    simp [StoppedEarly]
  have hpushes : pushes (response events) =
      (if ¬ Silent events then [.responseStart] else []) ++ texts events ++ [.responseEnd] := by
    simp [response, pushes_delivery, Await.frame]
  rw [hpushes]
  by_cases hsilent : Silent events
  · rw [if_neg (not_not.mpr hsilent), texts_silent hsilent]
    exact .closed hstopped (by rwa [hconsumed]) not_streamRaised_answered
  · rw [if_pos hsilent]
    exact .started _ hstopped (by rwa [hconsumed])

/-- The response is cut short. -/
theorem sent_cut {events : List StreamEvent} {e : Raised} (hallowed : ∀ c ∈ log, Allowed c)
    (hcut : Prog.CutAt (awaits (response events)) log e) :
    Sent late events log ((frames late log).filter Frame.ofResponse) := by
  obtain ⟨done, ahead, inner, a, rfl, hwithin, hlog⟩ := cutAt_response hcut
  have hlast : Allowed (.await a, .error e) := hallowed _ (by simp [hlog])
  have hcancelled (b : Await) : CancelledAt log b ↔ a = b ∧ e = .cancelled := by simp [hlog]
  have hraised : StreamRaised log ↔ a = .nextEvent ∧ ∃ exn, e = .exception exn := by simp [hlog]
  have hconsumed : consumed (done ++ ahead) log =
      done ++ ahead.take ((Prog.answered (awaits inner)).countP isDelivered) := by
    have hundelivered : isDelivered (.await a, .error e) = false := by cases a <;> rfl
    simp [hlog, consumed, countP_delivery, hundelivered, List.take_append]
  have hframes : frames late log = (if ¬ Silent done then [.responseStart] else []) ++ texts done ++
      pushes inner ++ (handedOn late (.await a, .error e)).toList := by
    rw [hlog, frames_append, frames_answered, pushes_append, pushes_delivery, frames_singleton]
    simp
  clear hlog
  by_cases hsilent : Silent done
  · simp only [hsilent, decide_true] at hwithin
    rw [if_neg (not_not.mpr hsilent), texts_silent hsilent, List.nil_append, List.nil_append] at hframes
    rw [hframes]
    cases hwithin with
    | next =>
      have hbefore : Silent (consumed (done ++ ahead) log) := by simpa [hconsumed] using hsilent
      have hstopped : StoppedEarly late (done ++ ahead) log := by
        cases e <;> simp [StoppedEarly, hcancelled, hraised, hbefore]
      cases e <;> cases late <;> exact .nothing hstopped
    | ttfb hcontent =>
      obtain rfl := cancelled_of_allowed hlast rfl
      cases late <;> exact .nothing (by simp [StoppedEarly, hcancelled])
    | @start event content rest hcontent =>
      obtain rfl := cancelled_of_allowed hlast rfl
      cases late with
      | false => exact .nothing (by simp [StoppedEarly, hcancelled])
      | true =>
        have hspoken : ¬ Silent (consumed (done ++ event :: rest) log) := by
          rw [hconsumed, silent_append]
          simp [isDelivered, List.countP_cons, silent_cons, hcontent]
        exact .started [] (by simp [StoppedEarly, hcancelled, hspoken]) hspoken
    | @firstText event content rest hcontent =>
      have hspoken : ¬ Silent (consumed (done ++ event :: rest) log) := by
        rw [hconsumed, silent_append]
        simp [isDelivered, List.countP_cons, silent_cons, hcontent]
      exact .started _ (by simp [StoppedEarly, hcancelled, hspoken]) hspoken
    | finalize =>
      obtain rfl := cancelled_of_allowed hlast rfl
      have hbefore : Silent (consumed (done ++ []) log) := by
        rw [hconsumed]
        simpa using hsilent
      cases late with
      | false =>
        refine .nothing ?_
        simp only [StoppedEarly, hcancelled, hbefore]
        simp
      | true => exact .closed (by simp [StoppedEarly, hcancelled, hraised]) hbefore (by simp [hraised])
  · have hspoken : ¬ Silent (consumed (done ++ ahead) log) := by
      rw [hconsumed, silent_append]
      exact fun h => hsilent h.1
    have hstopped : ¬ StoppedEarly late (done ++ ahead) log := by
      simp only [hsilent, decide_false] at hwithin
      simp only [StoppedEarly, hspoken, false_and, or_false, hcancelled]
      cases hwithin <;> simp
    rw [hframes, if_pos hsilent]
    exact .started _ hstopped hspoken

variable {env : Env} {svc : LLMService} {events : List StreamEvent}

theorem respond_sent {r : Except Raised Unit} (h : Prog.Runs (respond env svc events) log r)
    (hallowed : ∀ c ∈ log, Allowed c) :
    Sent late events log ((frames late log).filter Frame.ofResponse) := by
  rcases respond_log h hallowed with ⟨e, hcut, -⟩ | ⟨rest, rfl, hrest⟩
  · exact sent_cut hallowed hcut
  · have haside : Aside rest := by
      rcases hrest with ⟨-, hhandoff⟩ | ⟨-, rfl, -⟩
      · exact hhandoff.asks (asks_handoff env svc)
      · exact fun _ hc => absurd hc List.not_mem_nil
    have hframes : frames late (Prog.answered
        (awaits (response events) ++ [.setHandoffStatus (finalStatus svc events)])) =
        pushes (response events) := by
      rw [Prog.answered_append, frames_append, frames_answered]
      exact List.append_nil _
    rw [frames_append, hframes, List.filter_append, haside.quiet, List.append_nil]
    exact (sent_answered events _).append haside.beside

variable (late) in
/-- The first start frame is lost, or what the service sends follows it. -/
theorem body_sent (h : Body env svc events log) (hallowed : ∀ c ∈ log, Allowed c) :
    ((frames late log).filter Frame.ofResponse = [] ∧ ¬ StoppedEarly late events log ∧
      0 < log.countP isCancelled) ∨
    ∃ fs, (frames late log).filter Frame.ofResponse = .responseStart :: fs ∧
      Sent late events log fs := by
  cases h with
  | cut hcut =>
    obtain ⟨before, a, after, hsplit, rfl⟩ := cutAt_split hcut
    rw [frames_append, frames_answered, frames_singleton]
    obtain ⟨rfl, h₁⟩ | ⟨_, rfl, h₁⟩ := List.cons_eq_append_iff.mp hsplit
    · cases h₁
      cases late with
      | false => exact Or.inl ⟨rfl, by simp [StoppedEarly], by simp [isCancelled]⟩
      | true => exact Or.inr ⟨[], rfl, .nothing (by simp [StoppedEarly])⟩
    right
    obtain ⟨rfl, h₂⟩ | ⟨_, rfl, h₂⟩ := List.cons_eq_append_iff.mp h₁
    · cases h₂
      exact ⟨[], by cases late <;> rfl, .nothing (by simp [StoppedEarly])⟩
    obtain ⟨rfl, h₃⟩ | ⟨_, rfl, h₃⟩ := List.cons_eq_append_iff.mp h₂
    · cases h₃
      exact ⟨[], by cases late <;> rfl, .nothing (by simp [StoppedEarly])⟩
    obtain ⟨rfl, h₄⟩ | ⟨_, rfl, h₄⟩ := List.cons_eq_append_iff.mp h₃
    · cases h₄
      exact ⟨[], by cases late <;> rfl, .nothing (by simp [StoppedEarly])⟩
    · simp at h₄
  | @responded r log report hrespond hreport =>
    have hlog : ∀ c ∈ log, Allowed c := fun c hc => hallowed c (by simp [hc])
    have haside := aside_report hreport
    refine Or.inr ⟨(frames late log).filter Frame.ofResponse, ?_, ?_⟩
    · rw [frames_append, frames_append, frames_answered, List.filter_append, List.filter_append,
        haside.quiet, List.append_nil]
      rfl
    · exact ((respond_sent hrespond hlog).prepend rfl).append haside.beside

/-! ## The turn as a whole -/

@[simp]
theorem endLost_append : EndLost late (log ++ log') ↔ EndLost late log ∨ EndLost late log' := by
  simp only [EndLost, cancelledAt_append]
  tauto

@[simp]
theorem not_endLost_answered {qs : List Op} : ¬ EndLost late (Prog.answered qs) := by simp [EndLost]

theorem body_not_endLost (h : Body env svc events log) (hallowed : ∀ c ∈ log, Allowed c) :
    ¬ EndLost late log := by
  cases h with
  | cut hcut =>
    obtain ⟨before, a, after, hsplit, rfl⟩ := cutAt_split hcut
    have ha : a ∈ lead svc := by simp [hsplit]
    simp only [lead, List.mem_cons, List.not_mem_nil, or_false] at ha
    rcases ha with rfl | rfl | rfl | rfl <;> simp [EndLost]
  | @responded r log report hrespond hreport =>
    have hlog : ∀ c ∈ log, Allowed c := fun c hc => hallowed c (by simp [hc])
    rw [endLost_append, endLost_append, not_or, not_or]
    refine ⟨⟨not_endLost_answered, ?_⟩, (aside_report hreport).not_endLost⟩
    rcases respond_log hrespond hlog with ⟨e, hcut, -⟩ | ⟨rest, rfl, hrest⟩
    · obtain ⟨done, ahead, inner, a, -, hwithin, rfl⟩ := cutAt_response hcut
      generalize decide (Silent done) = first at hwithin
      cases hwithin <;> simp [EndLost]
    · rw [endLost_append, not_or]
      refine ⟨not_endLost_answered, Aside.not_endLost ?_⟩
      rcases hrest with ⟨-, hhandoff⟩ | ⟨-, rfl, -⟩
      · exact hhandoff.asks (asks_handoff env svc)
      · exact fun _ hc => absurd hc List.not_mem_nil

theorem aside_after (h : ∀ c ∈ log, c.1 = .await .onAfterProcessFrame) : Aside log := by
  intro c hc
  rw [h c hc]
  rfl

variable (late) in
/-- The base class pushes its end frame, unless that is lost. -/
theorem closing_frames (h : Closing log) : Beside log ∧
    ((EndLost late log ∧ (frames late log).filter Frame.ofResponse = [] ∧
        0 < log.countP isCancelled) ∨
      ¬ EndLost late log ∧ (frames late log).filter Frame.ofResponse = [.responseEnd]) := by
  have hclosing : ∀ a ∈ closing, a.beside = true := by simp [closing, Await.beside]
  rcases h with hcut | ⟨after, rfl, hafter⟩
  · refine ⟨all_cutAt hcut hclosing, ?_⟩
    obtain ⟨before, a, after, hsplit, rfl⟩ := cutAt_split hcut
    obtain ⟨rfl, h₁⟩ | ⟨_, rfl, h₁⟩ := List.cons_eq_append_iff.mp hsplit
    · cases h₁
      exact Or.inl ⟨by simp [EndLost], by cases late <;> rfl, by simp [isCancelled]⟩
    obtain ⟨rfl, h₂⟩ | ⟨_, rfl, h₂⟩ := List.cons_eq_append_iff.mp h₁
    · cases h₂
      cases late with
      | false => exact Or.inl ⟨by simp [EndLost], rfl, by simp [isCancelled]⟩
      | true => exact Or.inr ⟨by simp [EndLost], rfl⟩
    · simp at h₂
  · have haside := aside_after hafter
    refine ⟨?_, Or.inr ⟨by simp [haside.not_endLost], ?_⟩⟩
    · exact List.forall_mem_append.mpr ⟨all_answered hclosing, haside.beside⟩
    · rw [frames_append, frames_answered, List.filter_append, haside.quiet]
      rfl

/-- A log without a cancellation. -/
theorem not_cancelledAt_of_countP (h : log.countP isCancelled = 0) (a : Await) :
    ¬ CancelledAt log a := by
  intro hcancelled
  rw [List.countP_eq_zero] at h
  exact h _ hcancelled rfl

theorem StoppedEarly.streamRaised (h : StoppedEarly late events log)
    (hcancelled : log.countP isCancelled = 0) : StreamRaised log := by
  have hnot := not_cancelledAt_of_countP hcancelled
  simp only [StoppedEarly, hnot, false_and, exists_false, false_or, or_false] at h
  exact h.2

theorem wellBracketed_cons {fs : List Frame} {gs : List Frame}
    (h : fs.filter Frame.ofResponse = .responseStart :: gs) :
    WellBracketed fs ↔ ∃ contents : List Str, gs = contents.map .text ++ [.responseEnd] := by
  simp [WellBracketed, h]

/-- **When the response frames of a turn are well bracketed.** A turn that runs
to its end never is: service and base class each push an end frame, and each a
start frame once something is spoken. It is exactly if it is stopped before the
service pushes any of its own, and the base class does not lose its end frame,
or if nothing is spoken up to the end of the stream and the base class does. -/
theorem turn_well_bracketed_iff (env : Env) (svc : LLMService) (events : List StreamEvent)
    (log : CallLog) (late : Bool) (h : Played env svc events log) :
    WellBracketed (frames late log) ↔
      (StoppedEarly late events log ∧ ¬ EndLost late log) ∨
      Silent (consumed events log) ∧ ¬ StreamRaised log ∧ EndLost late log := by
  rcases played_log h with hcut | ⟨body, last, rfl, hbody, hlast⟩
  · have haside : Aside log := all_cutAt hcut (by simp [opening, Await.aside, Await.beside])
    have hnothing : ¬ WellBracketed (frames late log) := by
      rintro ⟨contents, h⟩
      simp [haside.quiet] at h
    simp [hnothing, haside.beside.not_stoppedEarly, haside.not_endLost]
  · obtain ⟨hbeside, hclosing⟩ := closing_frames late hlast
    have hallowed : ∀ c ∈ body, Allowed c := fun c hc => h.allowed c (by simp [hc])
    have honce : body.countP isCancelled + last.countP isCancelled ≤ 1 := by
      have := h.once
      simp only [List.countP_append] at this
      omega
    have hopening : (Prog.answered (awaits opening) : CallLog).countP isDelivered = 0 := rfl
    have haside : Aside (Prog.answered (awaits opening)) :=
      all_answered (by simp [opening, Await.aside, Await.beside])
    have hend : EndLost late (Prog.answered (awaits opening) ++ body ++ last) ↔ EndLost late last := by
      simp [body_not_endLost hbody hallowed]
    have hraised : StreamRaised (Prog.answered (awaits opening) ++ body ++ last) ↔
        StreamRaised body := by
      simp [hbeside.not_streamRaised]
    rw [stoppedEarly_append hbeside, consumed_append _ hbeside.countP, stoppedEarly_prepend hopening,
      consumed_prepend _ hopening, hend, hraised]
    have hframes : (frames late (Prog.answered (awaits opening) ++ body ++ last)).filter
        Frame.ofResponse = (frames late body).filter Frame.ofResponse ++
          (frames late last).filter Frame.ofResponse := by
      rw [frames_append, frames_append, List.filter_append, List.filter_append, haside.quiet,
        List.nil_append]
    rcases body_sent late hbody hallowed with ⟨hnone, hstopped, hcancelled⟩ | ⟨fs, hfs, hsent⟩
    · rcases hclosing with ⟨-, -, hlost⟩ | ⟨hkept, hclosing⟩
      · omega
      · have hnothing : ¬ WellBracketed
            (frames late (Prog.answered (awaits opening) ++ body ++ last)) := by
          rintro ⟨contents, h⟩
          rw [hframes, hnone, hclosing] at h
          cases h
        simp only [hnothing, hstopped, hkept, false_and, and_false, or_false]
    · rw [hfs, List.cons_append] at hframes
      rw [wellBracketed_cons hframes]
      rcases hclosing with ⟨hlost, hclosing, hcancelled⟩ | ⟨hkept, hclosing⟩
      · rw [hclosing, List.append_nil]
        cases hsent with
        | nothing hstopped =>
          have hraise := hstopped.streamRaised (by omega)
          simp [hlost, hraise]
        | closed hstopped hsilent hraise =>
          simp only [hlost, hsilent, hraise, hstopped, not_true, and_false, false_or, not_false_iff,
            true_and, iff_true]
          exact ⟨[], rfl⟩
        | started more hstopped hspoken =>
          simp only [hstopped, hspoken, false_and, or_false, iff_false]
          rintro ⟨contents, h⟩
          cases contents <;> cases h
      · rw [hclosing]
        cases hsent with
        | nothing hstopped =>
          simp only [hstopped, hkept, not_false_iff, and_self, true_or, iff_true]
          exact ⟨[], rfl⟩
        | closed hstopped hsilent hraise =>
          simp only [hstopped, hkept, false_and, and_false, or_false, iff_false]
          rintro ⟨contents, h⟩
          cases contents <;> cases h
        | started more hstopped hspoken =>
          simp only [hstopped, hspoken, false_and, or_false, iff_false]
          rintro ⟨contents, h⟩
          cases contents <;> cases h

end

/-! ## A greeting -/

def greetingService : LLMService := ⟨[], "call", "session", "TKT-1", "None", "neutral"⟩

def greetingEnv : Env := ⟨none, none, none, fun _ => false⟩

def greeting : List StreamEvent :=
  [.messages (some "router") (.str "\x7b\x7d"), .messages (some "synthesizer") (.str "Hello."),
    .values {}]

def greetingLog : CallLog := playTurn greetingEnv greetingService greeting none

theorem greetingLog_played : Played greetingEnv greetingService greeting greetingLog :=
  played_playTurn ..

/-- A turn in which nothing goes wrong has two start and two end frames. -/
theorem greeting_not_well_bracketed : Played greetingEnv greetingService greeting greetingLog ∧
    frames false greetingLog = [.responseStart, .ttsUpdateSettings "en-IN", .responseStart,
      .text "Hello.", .responseEnd, .responseEnd] ∧ ¬ WellBracketed (frames false greetingLog) := by
  have hframes : frames false greetingLog = [.responseStart, .ttsUpdateSettings "en-IN",
      .responseStart, .text "Hello.", .responseEnd, .responseEnd] := by decide +kernel
  refine ⟨greetingLog_played, hframes, ?_⟩
  have hresponse : (frames false greetingLog).filter Frame.ofResponse =
      .responseStart :: [.responseStart, .text "Hello.", .responseEnd, .responseEnd] := by
    rw [hframes]
    rfl
  rw [wellBracketed_cons hresponse]
  rintro ⟨contents, h⟩
  cases contents <;> cases h

theorem turn_well_bracketed_iff_greeting : WellBracketed (frames false greetingLog) ↔
    (StoppedEarly false greeting greetingLog ∧ ¬ EndLost false greetingLog) ∨
      Silent (consumed greeting greetingLog) ∧ ¬ StreamRaised greetingLog ∧
        EndLost false greetingLog :=
  turn_well_bracketed_iff _ _ _ _ false greetingLog_played

end TechMart.Bot
