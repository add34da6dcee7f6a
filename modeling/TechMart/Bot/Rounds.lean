import TechMart.Bot.BargeIn
import TechMart.Python.Runs

/-!
# The calls of a turn

Every run of the coroutine over a context frame, taken apart: the calls before
the stream, those of the stream, those of a handoff and those of the `finally`
block, each answered up to the one that raised.
-/

namespace TechMart.Bot

open Python TechMart.Graph

abbrev CallLog := List (Op × Except Raised Unit)

/-- It ended by itself, or it is an await that was cancelled. -/
def Allowed (c : Op × Except Raised Unit) : Prop :=
  serves c.1 c.2 ∨ (∃ a, c.1 = .await a) ∧ c.2 = .error .cancelled

def isCancelled : Op × Except Raised Unit → Bool
  | (_, .error .cancelled) => true
  | _ => false

/-- The calls of a turn from its frame to the end; it is cancelled at most once. -/
structure Played (env : Env) (svc : LLMService) (events : List StreamEvent) (log : CallLog) : Prop where
  runs : ∃ r, Prog.Runs (processFrame env svc events .context) log r
  allowed : ∀ c ∈ log, Allowed c
  once : log.countP isCancelled ≤ 1

/-- The turn is cancelled at this await. -/
def CancelledAt (log : CallLog) (a : Await) : Prop := (.await a, .error .cancelled) ∈ log

/-- Every await returns, but for one that is cancelled. -/
def interruptedAt (cut : Option Nat) (n : Nat) : Op → Except Raised Unit
  | .await _ => if cut = some n then .error .cancelled else .ok ()
  | .setHandoffStatus _ => .ok ()

def playTurn (env : Env) (svc : LLMService) (events : List StreamEvent) (cut : Option Nat) : CallLog :=
  ((processFrame env svc events .context).play (interruptedAt cut)).1

theorem allowed_interruptedAt (cut : Option Nat) (n : Nat) (op : Op) :
    Allowed (op, interruptedAt cut n op) := by
  cases op with
  | setHandoffStatus => exact Or.inl rfl
  | await a =>
    by_cases hcut : cut = some n
    · exact Or.inr ⟨⟨a, rfl⟩, if_pos hcut⟩
    · exact Or.inl (Or.inl (if_neg hcut))

theorem countP_interruptedAt {cut : Option Nat} {α : Type} (p : Coro α) (start : Nat) :
    ((p.play fun n => interruptedAt cut (n + start)).1.countP isCancelled) ≤ 1 ∧
    ((∀ n, cut ≠ some (n + start)) →
      (p.play fun n => interruptedAt cut (n + start)).1.countP isCancelled = 0) := by
  induction p generalizing start with
  | done | raise => exact ⟨Nat.zero_le 1, fun _ => rfl⟩
  | call op k ih =>
    obtain ⟨hle, hnone⟩ := ih (interruptedAt cut (0 + start) op) (start + 1)
    simp only [Prog.play, List.countP_cons, Nat.add_right_comm _ 1 start, Nat.add_assoc _ start 1]
    cases hcancelled : isCancelled (op, interruptedAt cut (0 + start) op) with
    | false =>
      simp only [Bool.false_eq_true, if_false, Nat.add_zero]
      refine ⟨hle, fun hcut => hnone fun n => ?_⟩
      rw [← Nat.add_assoc, Nat.add_right_comm]
      exact hcut (n + 1)
    | true =>
      have hcut : cut = some start := by
        cases op with
        | setHandoffStatus => cases hcancelled
        | await a =>
          by_contra hother
          rw [interruptedAt, Nat.zero_add, if_neg hother] at hcancelled
          cases hcancelled
      refine ⟨?_, fun h => absurd hcut (by simpa using h 0)⟩
      have hrest := hnone fun n h => by
        rw [hcut] at h
        have := Option.some.inj h
        omega
      rw [hrest]
      rfl

theorem played_playTurn (env : Env) (svc : LLMService) (events : List StreamEvent)
    (cut : Option Nat) : Played env svc events (playTurn env svc events cut) where
  runs := ⟨_, Prog.runs_play (interruptedAt cut) _⟩
  allowed := by
    rintro ⟨op, ans⟩ hc
    obtain ⟨n, hans⟩ : ∃ n, ans = interruptedAt cut n op := Prog.mem_play hc
    rw [hans]
    exact allowed_interruptedAt cut n op
  once := (countP_interruptedAt _ 0).1

/-! ## The calls by name -/

def awaits (as : List Await) : List Op := as.map .await

@[simp]
theorem awaits_nil : awaits [] = [] := rfl

@[simp]
theorem awaits_cons (a : Await) (as : List Await) : awaits (a :: as) = .await a :: awaits as := rfl

@[simp]
theorem awaits_append (as as' : List Await) : awaits (as ++ as') = awaits as ++ awaits as' :=
  List.map_append

def opening : List Await := [.onBeforeProcessFrame, .superProcessFrame]

def lead (svc : LLMService) : List Await :=
  [.pushResponseStart, .startProcessingMetrics, .startTtfbMetrics,
    .pushTtsUpdateSettings (ttsLanguage svc.customerProfile)]

def closing : List Await := [.stopProcessingMetrics, .pushResponseEnd]

/-- The awaits for a text that is to be spoken. -/
def speak (firstToken : Bool) : Option Str → List Await
  | some content =>
    if firstToken then [.stopTtfbMetrics, .pushFirstTokenStart, .pushText content]
    else [.pushText content]
  | none => []

/-- The awaits for these events, one round of the loop each. -/
def delivery : Bool → List StreamEvent → List Await
  | _, [] => []
  | firstToken, event :: events =>
    .nextEvent :: (speak firstToken (spoken event) ++
      delivery (firstToken && (spoken event).isNone) events)

/-- The handoff status the loop ends with. -/
def lastStatus : Str → List StreamEvent → Str
  | finalStatus, [] => finalStatus
  | _, .values state :: events => lastStatus (state.handoffStatus.getD "None") events
  | finalStatus, .messages .. :: events => lastStatus finalStatus events

theorem straight_awaitOn {α : Type} {a : Await} {f : Unit → Coro α} {qs : List Op} {p' : Coro α}
    (h : Prog.Straight (f ()) qs p') : Prog.Straight (awaitOn a >>= f) (.await a :: qs) p' :=
  (Prog.Straight.perform (Op.await a)).bind.trans h

theorem straight_streamLoop (events : List StreamEvent) (firstToken : Bool) (finalStatus : Str) :
    Prog.Straight (streamLoop firstToken finalStatus events)
      (awaits (delivery firstToken events ++ [.nextEvent]))
      (.done (lastStatus finalStatus events)) := by
  induction events generalizing firstToken finalStatus with
  | nil => exact straight_awaitOn (.refl _)
  | cons event events ih =>
    apply straight_awaitOn
    cases hspoken : spoken event with
    | some content =>
      have hstatus : lastStatus finalStatus (event :: events) = lastStatus finalStatus events := by
        cases event with
        | messages => rfl
        | values => cases hspoken
      rw [hstatus]
      cases firstToken with
      | true =>
        apply straight_awaitOn
        apply straight_awaitOn
        exact straight_awaitOn (ih ..)
      | false => exact straight_awaitOn (ih ..)
    | none =>
      cases event with
      | values state => cases firstToken <;> exact ih ..
      | messages node content => cases firstToken <;> exact ih ..

section
variable {env : Env} {svc : LLMService} {events : List StreamEvent} {log : CallLog}

/-! ## What is raised where -/

/-- Only code outside Pipecat raises an exception of its own. -/
theorem cancelled_of_allowed {a : Await} {e : Raised} (h : Allowed (.await a, .error e))
    (ha : a.external = false) : e = .cancelled := by
  rcases h with h | ⟨-, h⟩
  · rcases h with h | ⟨hexternal, -⟩
    · cases h
    · rw [ha] at hexternal
      cases hexternal
  · cases h
    rfl

theorem cutAt_split {as : List Await} {e : Raised} (h : Prog.CutAt (awaits as) log e) :
    ∃ before a after, as = before ++ a :: after ∧
      log = Prog.answered (awaits before) ++ [(.await a, .error e)] := by
  obtain ⟨before, q, after, hsplit, rfl⟩ := h
  obtain ⟨before, rest, rfl, rfl, hrest⟩ := List.map_eq_append_iff.mp hsplit
  obtain ⟨a, after, rfl, rfl, rfl⟩ := List.map_eq_cons_iff.mp hrest
  exact ⟨before, a, after, rfl, rfl⟩

theorem cutAt_cancelled {as : List Await} {e : Raised} (h : Prog.CutAt (awaits as) log e)
    (hallowed : ∀ c ∈ log, Allowed c) (has : ∀ a ∈ as, a.external = false) : e = .cancelled := by
  obtain ⟨before, a, after, rfl, rfl⟩ := cutAt_split h
  exact cancelled_of_allowed (hallowed (.await a, .error e) (by simp)) (has a (by simp))

/-- Setting the field cannot go wrong. -/
theorem cutAt_awaits {as : List Await} {status : Str} {e : Raised}
    (h : Prog.CutAt (awaits as ++ [.setHandoffStatus status]) log e)
    (hallowed : ∀ c ∈ log, Allowed c) : Prog.CutAt (awaits as) log e := by
  obtain ⟨before, q, after, hsplit, rfl⟩ := h
  rcases List.eq_nil_or_concat after with rfl | ⟨after, last, rfl⟩
  · obtain ⟨-, hq⟩ := List.append_inj' hsplit rfl
    cases hq
    rcases hallowed _ (List.mem_append_right _ List.mem_cons_self) with h | ⟨⟨_, h⟩, -⟩
    · cases h
    · cases h
  · rw [List.concat_eq_append, ← List.cons_append, ← List.append_assoc] at hsplit
    exact ⟨before, q, after, (List.append_inj' hsplit rfl).1, rfl⟩

/-! ## The `try` block -/

variable (env svc) in
/-- What follows the acceptance of a handoff. -/
def handoff : Coro Unit := do
  transfer env svc
  awaitOn .pushRingback
  awaitOn .pushEnd

/-- The awaits up to the frame that ends the response. -/
def response (events : List StreamEvent) : List Await :=
  delivery true events ++ [.nextEvent, .finalizeResponse]

variable (svc events) in
/-- The handoff status a turn ends with that is not cut short. -/
def finalStatus : Str := lastStatus svc.handoffStatus events

theorem straight_respond : Prog.Straight (respond env svc events)
    (awaits (response events) ++ [.setHandoffStatus (finalStatus svc events)])
    (if finalStatus svc events = ("Accepted" : Str) then handoff env svc else .done ()) := by
  have hops : awaits (response events) ++ [.setHandoffStatus (finalStatus svc events)] =
      awaits (delivery true events ++ [.nextEvent]) ++
        (.await .finalizeResponse :: [.setHandoffStatus (finalStatus svc events)]) := by
    simp [awaits, response]
  rw [hops]
  refine (straight_streamLoop events true svc.handoffStatus).bind.trans ?_
  apply straight_awaitOn
  exact (Prog.Straight.perform (Op.setHandoffStatus (finalStatus svc events))).bind

/-- The stream was read to its end, and the response closed. -/
theorem respond_log {r : Except Raised Unit} (h : Prog.Runs (respond env svc events) log r)
    (hallowed : ∀ c ∈ log, Allowed c) :
    (∃ e, Prog.CutAt (awaits (response events)) log e ∧ r = .error e) ∨
    ∃ rest, log = Prog.answered
        (awaits (response events) ++ [.setHandoffStatus (finalStatus svc events)]) ++ rest ∧
      ((finalStatus svc events = ("Accepted" : Str) ∧ Prog.Runs (handoff env svc) rest r) ∨
        finalStatus svc events ≠ ("Accepted" : Str) ∧ rest = [] ∧ r = .ok ()) := by
  rcases straight_respond.runs h with ⟨rest, rfl, hrest⟩ | ⟨e, hcut, rfl⟩
  · refine Or.inr ⟨rest, rfl, ?_⟩
    split at hrest
    · exact Or.inl ⟨‹_›, hrest⟩
    · obtain ⟨rfl, rfl⟩ := Prog.runs_done hrest
      exact Or.inr ⟨‹_›, rfl, rfl⟩
  · exact Or.inl ⟨e, cutAt_awaits hcut hallowed, rfl⟩

/-! ## The handoff -/

/-- A transfer that lets the handoff go on. A cancellation of the request is
lost if closing the session then raises. -/
def Passed (post close : Except Raised Unit) : Prop :=
  close ≠ .error .cancelled ∧ (post = .error .cancelled → close ≠ .ok ())

theorem postTransfer_log {vobizUrl authId authToken alegUrl : Str} {r : Except Raised Unit}
    (h : Prog.Runs (postTransfer vobizUrl authId authToken alegUrl) log r) :
    ∃ post close, log = [(.await (.post vobizUrl authId authToken alegUrl), post),
        (.await .closeSession, close)] ∧
      ((Passed post close ∧ r = .ok ()) ∨ ¬ Passed post close ∧ r = .error .cancelled) := by
  rcases Prog.runs_tryCatch h with ⟨_, hbody, rfl⟩ | ⟨body, e, after, rfl, hbody, hhandler⟩
  · obtain ⟨_, _, post, rfl, hpost, hclose⟩ := Prog.runs_tryFinally hbody
    obtain rfl := Prog.runs_perform hpost
    rcases hclose with ⟨hclose, rfl⟩ | ⟨_, -, hr⟩
    · obtain rfl := Prog.runs_perform hclose
      exact ⟨_, _, rfl, Or.inl ⟨by simp [Passed], rfl⟩⟩
    · cases hr
  · obtain ⟨_, _, post, rfl, hpost, hclose⟩ := Prog.runs_tryFinally hbody
    obtain rfl := Prog.runs_perform hpost
    obtain ⟨close, hlog, hpassed⟩ : ∃ close, (_ : CallLog) = [(.await .closeSession, close)] ∧
        (Passed post close ↔ e ≠ .cancelled) := by
      rcases hclose with ⟨hclose, rfl⟩ | ⟨e', hclose, he⟩
      · exact ⟨_, Prog.runs_perform hclose, by simp [Passed]⟩
      · cases he
        exact ⟨_, Prog.runs_perform hclose, by simp [Passed]⟩
    subst hlog
    cases e with
    | exception e =>
      obtain ⟨rfl, rfl⟩ := Prog.runs_done hhandler
      exact ⟨_, _, rfl, Or.inl ⟨hpassed.mpr (by simp), rfl⟩⟩
    | cancelled =>
      obtain ⟨rfl, rfl⟩ := Prog.runs_raise hhandler
      exact ⟨_, _, rfl, Or.inr ⟨fun h => hpassed.mp h rfl, rfl⟩⟩

/-- The calls of a transfer, and whether the handoff goes on after them. -/
inductive TransferLog : CallLog → Prop → Prop
  | skipped : TransferLog [] True
  | sent (vobizUrl authId authToken alegUrl : Str) (post close : Except Raised Unit) :
      TransferLog [(.await (.post vobizUrl authId authToken alegUrl), post),
        (.await .closeSession, close)] (Passed post close)

theorem transfer_log {r : Except Raised Unit} (h : Prog.Runs (transfer env svc) log r) :
    ∃ passed, TransferLog log passed ∧ ((passed ∧ r = .ok ()) ∨ ¬ passed ∧ r = .error .cancelled) := by
  simp only [transfer] at h
  split at h
  · obtain ⟨rfl, rfl⟩ := Prog.runs_done h
    exact ⟨_, .skipped, Or.inl ⟨trivial, rfl⟩⟩
  · obtain ⟨post, close, rfl, hr⟩ := postTransfer_log h
    exact ⟨_, .sent _ _ _ _ post close, hr⟩

def hangUp : List Await := [.pushRingback, .pushEnd]

theorem handoff_log {r : Except Raised Unit} (h : Prog.Runs (handoff env svc) log r)
    (hallowed : ∀ c ∈ log, Allowed c) :
    ∃ transferred passed rest, log = transferred ++ rest ∧ TransferLog transferred passed ∧
      ((¬ passed ∧ rest = [] ∧ r = .error .cancelled) ∨
        passed ∧ ((rest = Prog.answered (awaits hangUp) ∧ r = .ok ()) ∨
          Prog.CutAt (awaits hangUp) rest .cancelled ∧ r = .error .cancelled)) := by
  rcases Prog.runs_bind h with ⟨before, _, after, rfl, htransfer, hrest⟩ | ⟨e, htransfer, rfl⟩
  · obtain ⟨passed, hlog, ⟨hpassed, -⟩ | ⟨-, hr⟩⟩ := transfer_log htransfer
    · refine ⟨before, passed, after, rfl, hlog, Or.inr ⟨hpassed, ?_⟩⟩
      have hstraight : Prog.Straight (do awaitOn .pushRingback; awaitOn .pushEnd)
          (awaits hangUp) (.done ()) := straight_awaitOn (Prog.Straight.perform (Op.await .pushEnd))
      rcases hstraight.runs hrest with ⟨rest, rfl, hdone⟩ | ⟨e, hcut, rfl⟩
      · obtain ⟨rfl, rfl⟩ := Prog.runs_done hdone
        exact Or.inl ⟨List.append_nil _, rfl⟩
      · obtain rfl := cutAt_cancelled hcut (fun c hc => hallowed c (List.mem_append_right _ hc))
          (by simp [hangUp, Await.external])
        exact Or.inr ⟨hcut, rfl⟩
    · cases hr
  · obtain ⟨passed, hlog, ⟨-, hr⟩ | ⟨hpassed, hr⟩⟩ := transfer_log htransfer
    · cases hr
    · exact ⟨log, passed, [], (List.append_nil _).symm, hlog, Or.inl ⟨hpassed, rfl, hr⟩⟩

/-! ## The whole turn -/

variable (env) in
/-- The awaits that report an exception of the response. -/
def report (e : Exn) : List Await :=
  if env.isTimeout e then [.onCompletionTimeout, .pushError "LLM completion timeout"]
  else [.pushError (("Error during completion: " : Str) ++ e.text)]

variable (env) in
/-- Only an exception of the response is reported. -/
inductive Reported : Except Raised Unit → CallLog → Prop
  | returned : Reported (.ok ()) []
  | swallowed : Reported (.error .cancelled) []
  | reported (e : Exn) : Reported (.error (.exception e)) (Prog.answered (awaits (report env e)))
  | cut {e : Exn} {log : CallLog} : Prog.CutAt (awaits (report env e)) log .cancelled →
      Reported (.error (.exception e)) log

variable (env svc events) in
/-- The calls of the block that `finally` closes. -/
inductive Body : CallLog → Prop
  | cut {log : CallLog} : Prog.CutAt (awaits (lead svc)) log .cancelled → Body log
  | responded {r : Except Raised Unit} {log report : CallLog} :
      Prog.Runs (respond env svc events) log r → Reported env r report →
      Body (Prog.answered (awaits (lead svc)) ++ log ++ report)

/-- The calls from the `finally` block on. -/
def Closing (log : CallLog) : Prop :=
  Prog.CutAt (awaits closing) log .cancelled ∨
  ∃ after, log = Prog.answered (awaits closing) ++ after ∧ ∀ c ∈ after, c.1 = .await .onAfterProcessFrame

variable (svc env events) in
/-- The block that `finally` closes. -/
def body : Coro Unit :=
  (do
    awaitOn .pushResponseStart
    awaitOn .startProcessingMetrics
    processContext env svc events : Coro Unit).tryCatch (exceptException (completionFailed env))

theorem straight_lead : Prog.Straight (do
      awaitOn .pushResponseStart
      awaitOn .startProcessingMetrics
      processContext env svc events : Coro Unit) (awaits (lead svc))
    ((respond env svc events).tryCatch exceptCancelled) := by
  apply straight_awaitOn
  apply straight_awaitOn
  apply straight_awaitOn
  exact straight_awaitOn (.refl _)

theorem lead_not_external : ∀ a ∈ lead svc, a.external = false := by
  simp [lead, Await.external]

/-- The `try` block swallows its own cancellation. -/
theorem guarded_log {r : Except Raised Unit}
    (h : Prog.Runs ((respond env svc events).tryCatch exceptCancelled) log r) :
    ∃ r', Prog.Runs (respond env svc events) log r' ∧
      ((r' = .ok () ∨ r' = .error .cancelled) ∧ r = .ok () ∨ ∃ e, r' = .error (.exception e) ∧ r = r') := by
  rcases Prog.runs_tryCatch h with ⟨_, hrespond, rfl⟩ | ⟨before, e, after, rfl, hrespond, hhandler⟩
  · exact ⟨_, hrespond, Or.inl ⟨Or.inl rfl, rfl⟩⟩
  · cases e with
    | cancelled =>
      obtain ⟨rfl, rfl⟩ := Prog.runs_done hhandler
      rw [List.append_nil]
      exact ⟨_, hrespond, Or.inl ⟨Or.inr rfl, rfl⟩⟩
    | exception e =>
      obtain ⟨rfl, rfl⟩ := Prog.runs_raise hhandler
      rw [List.append_nil]
      exact ⟨_, hrespond, Or.inr ⟨e, rfl, rfl⟩⟩

theorem straight_completionFailed (e : Exn) :
    Prog.Straight (completionFailed env e) (awaits (report env e)) (.done ()) := by
  unfold completionFailed report
  split
  · exact straight_awaitOn (Prog.Straight.perform (Op.await _))
  · exact Prog.Straight.perform (Op.await _)

theorem report_not_external (e : Exn) : ∀ a ∈ report env e, a.external = false := by
  unfold report
  split <;> simp [Await.external]

theorem body_log {r : Except Raised Unit} (h : Prog.Runs (body env svc events) log r)
    (hallowed : ∀ c ∈ log, Allowed c) : Body env svc events log ∧ ∀ e, r ≠ .error (.exception e) := by
  rcases Prog.runs_tryCatch h with ⟨_, hinner, rfl⟩ | ⟨before, e, after, rfl, hinner, hhandler⟩
  · rcases straight_lead.runs hinner with ⟨rest, rfl, hrest⟩ | ⟨_, -, hr⟩
    · obtain ⟨r', hrespond, ⟨hr', -⟩ | ⟨_, hr', hr⟩⟩ := guarded_log hrest
      · refine ⟨?_, by simp⟩
        rw [← List.append_nil (_ ++ rest)]
        rcases hr' with rfl | rfl
        · exact .responded hrespond .returned
        · exact .responded hrespond .swallowed
      · rw [hr'] at hr
        cases hr
    · cases hr
  · rcases straight_lead.runs hinner with ⟨rest, rfl, hrest⟩ | ⟨_, hcut, hr⟩
    · obtain ⟨r', hrespond, ⟨-, hr⟩ | ⟨e', rfl, hr⟩⟩ := guarded_log hrest
      · cases hr
      · cases hr
        have hreport : Prog.Runs (completionFailed env e') after r := hhandler
        rcases (straight_completionFailed e').runs hreport with ⟨rest, rfl, hdone⟩ | ⟨e, hcut, rfl⟩
        · obtain ⟨rfl, rfl⟩ := Prog.runs_done hdone
          rw [List.append_nil]
          exact ⟨.responded hrespond (.reported e'), by simp⟩
        · obtain rfl := cutAt_cancelled hcut
            (fun c hc => hallowed c (List.mem_append_right _ hc)) (report_not_external e')
          exact ⟨.responded hrespond (.cut hcut), by simp⟩
    · cases hr
      obtain rfl := cutAt_cancelled hcut (fun c hc => hallowed c (List.mem_append_left _ hc))
        lead_not_external
      obtain ⟨rfl, rfl⟩ := Prog.runs_raise hhandler
      rw [List.append_nil]
      exact ⟨.cut hcut, by simp⟩

def finalBlock : Coro Unit := do
  awaitOn .stopProcessingMetrics
  awaitOn .pushResponseEnd

theorem straight_finalBlock : Prog.Straight finalBlock (awaits closing) (.done ()) :=
  straight_awaitOn (Prog.Straight.perform (Op.await _))

theorem finally_log {r : Except Raised Unit}
    (h : Prog.Runs ((body env svc events).tryFinally finalBlock) log r)
    (hallowed : ∀ c ∈ log, Allowed c) :
    ∃ before after, log = before ++ after ∧ Body env svc events before ∧
      (∀ e, r ≠ .error (.exception e)) ∧ (after = Prog.answered (awaits closing) ∨
        Prog.CutAt (awaits closing) after .cancelled ∧ r = .error .cancelled) := by
  obtain ⟨before, after, r', rfl, hbody, hfinal⟩ := Prog.runs_tryFinally h
  obtain ⟨hbefore, hr'⟩ := body_log hbody fun c hc => hallowed c (List.mem_append_left _ hc)
  refine ⟨before, after, rfl, hbefore, ?_⟩
  rcases hfinal with ⟨hfinal, rfl⟩ | ⟨e, hfinal, rfl⟩
  · rcases straight_finalBlock.runs hfinal with ⟨rest, rfl, hdone⟩ | ⟨_, -, hr⟩
    · obtain ⟨rfl, -⟩ := Prog.runs_done hdone
      exact ⟨hr', Or.inl (List.append_nil _)⟩
    · cases hr
  · rcases straight_finalBlock.runs hfinal with ⟨rest, rfl, hdone⟩ | ⟨_, hcut, hr⟩
    · obtain ⟨-, hr⟩ := Prog.runs_done hdone
      cases hr
    · cases hr
      obtain rfl := cutAt_cancelled hcut (fun c hc => hallowed c (List.mem_append_right _ hc))
        (by simp [closing, Await.external])
      exact ⟨by simp, Or.inr ⟨hcut, rfl⟩⟩

variable (env svc events) in
/-- What is left of a round once the stage has the frame. -/
def rest : Coro Unit := do
  (body env svc events).tryFinally finalBlock
  awaitOn .onAfterProcessFrame

theorem rest_log {r : Except Raised Unit} (h : Prog.Runs (rest env svc events) log r)
    (hallowed : ∀ c ∈ log, Allowed c) :
    (∃ before after, log = before ++ after ∧ Body env svc events before ∧ Closing after) ∧
      ∀ e, r ≠ .error (.exception e) := by
  rcases Prog.runs_bind h with ⟨log, _, last, rfl, hfinally, hlast⟩ | ⟨e, hfinally, rfl⟩
  · obtain ⟨before, after, rfl, hbody, -, rfl | ⟨-, hr⟩⟩ := finally_log hfinally
      fun c hc => hallowed c (List.mem_append_left _ hc)
    · obtain rfl := Prog.runs_perform hlast
      refine ⟨⟨before, _, List.append_assoc .., hbody, Or.inr ⟨_, rfl, by simp⟩⟩, ?_⟩
      rintro e rfl
      have hlog := hallowed (.await .onAfterProcessFrame, .error (.exception e)) (by simp)
      cases cancelled_of_allowed hlog rfl
    · cases hr
  · obtain ⟨before, after, rfl, hbody, hr, rfl | ⟨hcut, -⟩⟩ := finally_log hfinally hallowed
    · exact ⟨⟨before, _, rfl, hbody, Or.inr ⟨[], by simp⟩⟩, hr⟩
    · exact ⟨⟨before, _, rfl, hbody, Or.inl hcut⟩, hr⟩

theorem played_log (h : Played env svc events log) :
    Prog.CutAt (awaits opening) log .cancelled ∨
    ∃ body closing, log = Prog.answered (awaits opening) ++ body ++ closing ∧
      Body env svc events body ∧ Closing closing := by
  obtain ⟨⟨r, hruns⟩, hallowed, -⟩ := h
  have hopening : Prog.Straight (do
        awaitOn .onBeforeProcessFrame
        baseProcessFrame env svc events .context
        awaitOn .onAfterProcessFrame : Coro Unit) (awaits opening) (rest env svc events) := by
    apply straight_awaitOn
    exact (straight_awaitOn (.refl _)).bind
  rcases Prog.runs_tryCatch hruns with ⟨_, hinner, rfl⟩ | ⟨before, e, after, rfl, hinner, hhandler⟩
  · rcases hopening.runs hinner with ⟨log, rfl, hrest⟩ | ⟨_, -, hr⟩
    · obtain ⟨⟨before, after, rfl, h⟩, -⟩ := rest_log hrest
        fun c hc => hallowed c (List.mem_append_right _ hc)
      exact Or.inr ⟨before, after, (List.append_assoc ..).symm, h⟩
    · cases hr
  · have hbefore : ∀ c ∈ before, Allowed c := fun c hc => hallowed c (List.mem_append_left _ hc)
    rcases hopening.runs hinner with ⟨log, rfl, hrest⟩ | ⟨_, hcut, hr⟩
    · obtain ⟨⟨body, closing, rfl, h⟩, hr⟩ := rest_log hrest
        fun c hc => hbefore c (List.mem_append_right _ hc)
      cases e with
      | exception e => exact absurd rfl (hr e)
      | cancelled =>
        obtain ⟨rfl, -⟩ := Prog.runs_raise hhandler
        exact Or.inr ⟨body, closing, by simp, h⟩
    · cases hr
      obtain rfl := cutAt_cancelled hcut hbefore (by simp [opening, Await.external])
      obtain ⟨rfl, -⟩ := Prog.runs_raise hhandler
      rw [List.append_nil]
      exact Or.inl hcut

end

end TechMart.Bot
