import TechMart.Bot.PhoneCall

/-!
# Handoffs

From an accepted handoff to the end of the call: the transfer, the ringback and
the frame that hangs up. A cancellation on the way loses that frame, and nothing
keeps a later turn from another handoff.
-/

namespace TechMart.Bot

open Python TechMart.Graph LangGraph

def Await.isPost : Await → Bool
  | .post .. => true
  | _ => false

def isPostCall : Op × Except Raised Unit → Bool
  | (.await a, _) => a.isPost
  | _ => false

section
variable {late : Bool} {log log' : CallLog} {env : Env} {svc : LLMService}
  {events : List StreamEvent}

/-! ## Frames that are not pushed -/

theorem count_frames_eq_zero {p : Await → Bool} {f : Frame} (h : ∀ c ∈ log, c.1.All p)
    (hp : ∀ a, p a = true → f ∉ a.frame) : (frames late log).count f = 0 := by
  rw [List.count_eq_zero]
  intro hf
  obtain ⟨a, ha, hframe⟩ := mem_frames h hf
  exact hp a ha hframe

/-- A frame of a handoff. -/
def Frame.ofHandoff : Frame → Bool
  | .ringback | .endFrame => true
  | _ => false

theorem Outer.count_frames (h : Outer log) {f : Frame} (hf : f.ofHandoff = true) :
    (frames late log).count f = 0 := by
  refine count_frames_eq_zero h ?_
  intro a ha hframe
  cases a <;> cases hframe <;> cases hf <;> cases ha

theorem count_frames_reading (h : ∀ c ∈ log, c.1.All Await.reading) {f : Frame}
    (hf : f.ofHandoff = true) : (frames late log).count f = 0 := by
  refine count_frames_eq_zero h ?_
  intro a ha hframe
  cases a <;> cases hframe <;> cases hf <;> cases ha

theorem Outer.countP_post (h : Outer log) : log.countP isPostCall = 0 := by
  rw [List.countP_eq_zero]
  rintro ⟨op, ans⟩ hc hpost
  have hop := h _ hc
  cases op with
  | setHandoffStatus => cases hpost
  | await a => cases a <;> first | (cases hpost; done) | cases hop

theorem countP_post_reading (h : ∀ c ∈ log, c.1.All Await.reading) : log.countP isPostCall = 0 := by
  rw [List.countP_eq_zero]
  rintro ⟨op, ans⟩ hc hpost
  have hop := h _ hc
  cases op with
  | setHandoffStatus => cases hpost
  | await a => cases a <;> first | (cases hpost; done) | cases hop

/-! ## The end of the call -/

/-- No cancellation gets out of the handoff before its end frame is handed on:
one that meets that push comes late, one that meets the request is lost in an
exception at the close of the session. -/
def HangsUp (late : Bool) (log : CallLog) : Prop :=
  ∀ a, CancelledAt log a → a.guarded = true → (a = .pushEnd ∧ late = true) ∨
    a.isPost = true ∧ ∃ e, (.await .closeSession, .error (.exception e)) ∈ log

theorem transfer_passed {passed : Prop} (h : TransferLog log passed) (hpassed : passed) {a : Await}
    (ha : CancelledAt log a) :
    a.isPost = true ∧ ∃ e, (.await .closeSession, .error (.exception e)) ∈ log := by
  cases h with
  | skipped => simp at ha
  | sent vobizUrl authId authToken alegUrl post close =>
    obtain ⟨hclose, hpost⟩ := hpassed
    simp only [cancelledAt_cons, not_cancelledAt_nil, or_false, Prod.mk.injEq, Op.await.injEq] at ha
    rcases ha with ⟨rfl, hcancelled⟩ | ⟨-, hcancelled⟩
    · refine ⟨rfl, ?_⟩
      cases close with
      | ok => exact absurd rfl (hpost hcancelled)
      | error e =>
        cases e with
        | exception e => exact ⟨e, by simp⟩
        | cancelled => exact absurd rfl hclose
    · exact absurd hcancelled hclose

variable (late) in
theorem transfer_not_passed {passed : Prop} (h : TransferLog log passed) (hpassed : ¬ passed) :
    ¬ HangsUp late log := by
  intro hhangs
  cases h with
  | skipped => exact hpassed trivial
  | sent vobizUrl authId authToken alegUrl post close =>
    by_cases hclose : close = .error .cancelled
    · have hlost := hhangs .closeSession (by simp [hclose]) rfl
      simp [Await.isPost] at hlost
    · have hpost : post = .error .cancelled ∧ close = .ok () := by
        by_contra hother
        exact hpassed ⟨hclose, fun hp hc => hother ⟨hp, hc⟩⟩
      obtain ⟨rfl, rfl⟩ := hpost
      have hlost := hhangs (.post vobizUrl authId authToken alegUrl) (by simp) rfl
      simp at hlost

theorem handedOn_of_frame_none (late : Bool) {a : Await} (ha : a.frame = none) (ans : Except Raised Unit) :
    handedOn late (.await a, ans) = none := by
  cases ans with
  | ok => exact ha
  | error e => cases e <;> simp [handedOn, ha]

variable (late) in
/-- At most one request, and no frame. -/
theorem transfer_counts {passed : Prop} (h : TransferLog log passed) :
    log.countP isPostCall ≤ 1 ∧ frames late log = [] := by
  cases h with
  | skipped => exact ⟨Nat.zero_le 1, rfl⟩
  | sent vobizUrl authId authToken alegUrl post close =>
    refine ⟨Nat.le_refl 1, ?_⟩
    have hpost := handedOn_of_frame_none late (a := .post vobizUrl authId authToken alegUrl) rfl
      post
    have hclose := handedOn_of_frame_none late (a := .closeSession) rfl close
    simp [frames, hpost, hclose]

variable (late) in
theorem handoff_hangs_up {r : Except Raised Unit} (h : Prog.Runs (handoff env svc) log r)
    (hallowed : ∀ c ∈ log, Allowed c) :
    (frames late log).count .endFrame = 1 ↔ HangsUp late log := by
  obtain ⟨transferred, passed, rest, rfl, htransfer, hend⟩ := handoff_log h hallowed
  rw [frames_append, (transfer_counts late htransfer).2, List.nil_append]
  rcases hend with ⟨hpassed, rfl, -⟩ | ⟨hpassed, hend⟩
  · rw [List.append_nil]
    exact iff_of_false (by simp [frames]) (transfer_not_passed late htransfer hpassed)
  · have hpost {a : Await} (ha : CancelledAt transferred a) :
        a.isPost = true ∧ ∃ e, (.await .closeSession, .error (.exception e)) ∈ transferred ++ rest := by
      obtain ⟨ha, e, he⟩ := transfer_passed htransfer hpassed ha
      exact ⟨ha, e, List.mem_append_left _ he⟩
    rcases hend with ⟨rfl, -⟩ | ⟨hcut, -⟩
    · refine iff_of_true rfl ?_
      intro a ha _
      simp only [cancelledAt_append, not_cancelledAt_answered, or_false] at ha
      exact Or.inr (hpost ha)
    · obtain ⟨before, a, after, hsplit, rfl⟩ := cutAt_split hcut
      obtain ⟨rfl, h₁⟩ | ⟨_, rfl, h₁⟩ := List.cons_eq_append_iff.mp hsplit
      · cases h₁
        refine iff_of_false (by cases late <;> decide) ?_
        intro hhangs
        have hlost := hhangs .pushRingback (by simp) rfl
        simp [Await.isPost] at hlost
      obtain ⟨rfl, h₂⟩ | ⟨_, rfl, h₂⟩ := List.cons_eq_append_iff.mp h₁
      · cases h₂
        cases late with
        | false =>
          refine iff_of_false (by decide) ?_
          intro hhangs
          have hlost := hhangs .pushEnd (by simp) rfl
          simp [Await.isPost] at hlost
        | true =>
          refine iff_of_true rfl ?_
          intro a ha _
          simp only [cancelledAt_append, not_cancelledAt_answered, false_or, cancelledAt_cons,
            not_cancelledAt_nil, or_false, Prod.mk.injEq, Op.await.injEq, and_true] at ha
          rcases ha with ha | rfl
          · exact Or.inr (hpost ha)
          · exact Or.inl ⟨rfl, rfl⟩
      · simp at h₂

variable {rt : Runtime} {retryOn : Exn → Bool}

theorem Await.guarded_not_outer {a : Await} (h : a.guarded = true) : a.outer = false := by
  cases a <;> first | rfl | cases h

theorem Await.reading_guarded {a : Await} (h : a.reading = true) :
    a.guarded = true ∧ a ≠ .pushEnd ∧ a.isPost = false := by
  cases a <;> first | cases h; done | simp [Await.guarded, Await.isPost]

/-- A completed turn was read from. -/
theorem Round.Sound.exists_nextEvent {round : Round (workflow rt retryOn)} (h : round.Sound env)
    (hended : round.turn.Ended) : ∃ ans, (.await .nextEvent, ans) ∈ round.log := by
  by_contra hnone
  rw [h.unread (by simpa using hnone)] at hended
  cases hended.1

theorem Round.Sound.not_raised {round : Round (workflow rt retryOn)} (h : round.Sound env)
    (hended : round.turn.Ended) : ¬ StreamRaised round.log := by
  intro hraised
  obtain ⟨⟨n, e, hstop⟩, -⟩ := h.raised hraised
  rw [hended.2] at hstop
  cases hstop

/-- A stop of the response of a completed turn is a cancellation. -/
theorem cancelled_of_cutAt {e : Raised} (h : Prog.CutAt (awaits (response events)) log e)
    (hallowed : ∀ c ∈ log, Allowed c) (hraised : ¬ StreamRaised log) :
    ∃ a, a.reading = true ∧ CancelledAt log a := by
  obtain ⟨⟨a, e', ha, hmem⟩, -⟩ := cutAt_reading h
  rcases hallowed _ hmem with hserves | ⟨-, hcancelled⟩
  · rcases hserves with hok | ⟨hexternal, exn, hexn⟩
    · cases hok
    · cases hexn
      cases a <;> cases ha <;> cases hexternal
      exact absurd ⟨exn, hmem⟩ hraised
  · cases hcancelled
    exact ⟨a, ha, hmem⟩

theorem count_frames_response {f : Frame} (hf : f.ofHandoff = true) (status : Str) :
    (frames late (Prog.answered (awaits (response events) ++ [.setHandoffStatus status]))).count f =
      0 := by
  rw [Prog.answered_append, frames_append, List.count_append,
    count_frames_reading (all_answered (response_reading events)) hf]
  rfl

/-- What lies around the handoff does not matter. -/
theorem hangsUp_around {before rest after : CallLog} {qs : List Op} (hbefore : Outer before)
    (hafter : Outer after) :
    HangsUp late (before ++ Prog.answered qs ++ rest ++ after) ↔ HangsUp late rest := by
  have hcancelled {a : Await} (ha : a.guarded = true) :
      CancelledAt (before ++ Prog.answered qs ++ rest ++ after) a ↔ CancelledAt rest a := by
    have hb : ¬ CancelledAt before a := hbefore.not_mem (Await.guarded_not_outer ha) _
    have ha : ¬ CancelledAt after a := hafter.not_mem (Await.guarded_not_outer ha) _
    simp [hb, ha]
  have hclose (e : Exn) : (.await .closeSession, .error (.exception e)) ∈
      before ++ Prog.answered qs ++ rest ++ after ↔
      (.await .closeSession, .error (.exception e)) ∈ rest := by
    have hb : (.await .closeSession, .error (.exception e)) ∉ before := hbefore.not_mem rfl _
    have ha : (.await .closeSession, .error (.exception e)) ∉ after := hafter.not_mem rfl _
    simp [hb, ha, Prog.answered]
  simp only [HangsUp, hclose]
  constructor
  · intro h a ha hguarded
    exact h a ((hcancelled hguarded).mpr ha) hguarded
  · intro h a ha hguarded
    exact h a ((hcancelled hguarded).mp ha) hguarded

/-- **When an accepted handoff hangs up.** In a turn whose graph has ended with
an accepted handoff exactly one end frame is pushed if and only if no
cancellation gets out of the turn's `try` block before that. -/
theorem accepted_hangs_up_iff (rt : Runtime) (retryOn : Exn → Bool) (env : Env)
    (round : Round (workflow rt retryOn)) (h : round.Sound env) (hended : round.turn.Ended)
    (haccepted : round.turn.state.handoffStatus = some ("Accepted" : Str)) :
    round.frames.count .endFrame = 1 ↔ HangsUp round.late round.log := by
  have hprogress := played_progress h.played
  have hallowed := h.played.allowed
  have hread := h.exists_nextEvent hended
  have hraised := h.not_raised hended
  have hfinal := h.routerStatus_of_read
  rw [h.routerStatus_eq hended, haccepted] at hfinal
  rw [Round.frames]
  generalize round.log = log at hprogress hallowed hread hraised hfinal
  cases hprogress with
  | unread hlog _ =>
    obtain ⟨ans, hans⟩ := hread
    exact absurd hans (hlog.not_mem rfl ans)
  | @cut before log after e hbefore hcut hafter =>
    simp only [streamRaised_append, not_or] at hraised
    obtain ⟨a, ha, hcancelled⟩ := cancelled_of_cutAt hcut (fun c hc => hallowed c (by simp [hc]))
      hraised.1.2
    refine iff_of_false ?_ ?_
    · rw [frames_append, frames_append, List.count_append, List.count_append,
        hbefore.count_frames rfl, count_frames_reading (cutAt_reading hcut).2 rfl,
        hafter.count_frames rfl]
      simp
    · intro hhangs
      obtain ⟨hguarded, hne, hpost⟩ := Await.reading_guarded ha
      have hlost := hhangs a (by simp [hcancelled]) hguarded
      simp [hne, hpost] at hlost
  | @read before rest after hbefore hrest hafter =>
    have hstatus := Option.some.inj (hfinal (by simp [response]))
    rcases hrest with ⟨-, r, hrest⟩ | ⟨hother, -⟩
    · have hcount := handoff_hangs_up round.late hrest fun c hc => hallowed c (by simp [hc])
      rw [hangsUp_around hbefore hafter, ← hcount, frames_append, frames_append, frames_append,
        List.count_append, List.count_append, List.count_append, hbefore.count_frames rfl,
        count_frames_response rfl, hafter.count_frames rfl]
      simp
    · exact absurd hstatus.symm hother

/-! ## One transfer for a call -/

/-- The router is told to accept the handoff. -/
def acceptsReply (rt : Runtime) : Graph.Call × Except Exn Str → Bool
  | (.routerLlm _, ans) => replyAction rt ans = some ("accept_handoff" : Str)
  | _ => false

namespace Round

section
variable {N : Type} {g : LangGraph.Graph N AgentState AgentState Exn Graph.Call Str}

/-- The reply to the router accepts a handoff. -/
def accepts (rt : Runtime) (round : Round g) : Bool :=
  match round.turn.steps.head? with
  | some [r] => r.calls.any (acceptsReply rt)
  | _ => false

theorem accepts_of_head {round : Round g} {r : Record g} (h : round.turn.steps.head? = some [r]) :
    round.accepts rt = r.calls.any (acceptsReply rt) := by
  simp only [accepts, h]

/-- The requests for a transfer. -/
def posts (round : Round g) : ℕ := round.log.countP isPostCall

def ringbacks (round : Round g) : ℕ := round.frames.count .ringback

end

end Round

theorem newHandoffStatus_accepted (action : Str) :
    newHandoffStatus action = ("Accepted" : Str) ↔ action = ("accept_handoff" : Str) := by
  unfold newHandoffStatus
  split
  · rename_i h
    subst h
    decide
  · split
    · simp [*]
    · exact iff_of_false (by decide) ‹_›

theorem Round.Sound.accepts_iff {round : Round (workflow rt retryOn)} (h : round.Sound env)
    (hended : round.turn.Ended) :
    round.accepts rt = true ↔ round.routerStatus = some ("Accepted" : Str) := by
  obtain ⟨r, last, ans, hrouted, hhead, -⟩ := h.routed hended
  obtain ⟨a, hcalls⟩ := hrouted.calls
  rw [Round.accepts_of_head hhead, Round.routerStatus_of_head hhead, hrouted.update, hcalls]
  simp only [routerUpdate, Option.some.injEq, newHandoffStatus_accepted, routerResult_action,
    List.any_cons, List.any_nil, acceptsReply, Bool.false_or, Bool.or_false, decide_eq_true_eq]
  cases replyAction rt ans with
  | none => simp
  | some action => simp

variable (late) in
theorem handoff_counts {r : Except Raised Unit} (h : Prog.Runs (handoff env svc) log r)
    (hallowed : ∀ c ∈ log, Allowed c) :
    log.countP isPostCall ≤ 1 ∧ (frames late log).count .ringback ≤ 1 ∧
      ((∀ a, ¬ CancelledAt log a) → (frames late log).count .ringback = 1) := by
  obtain ⟨transferred, passed, rest, rfl, htransfer, hend⟩ := handoff_log h hallowed
  obtain ⟨hposts, hframes⟩ := transfer_counts late htransfer
  rw [frames_append, hframes, List.nil_append, List.countP_append]
  rcases hend with ⟨hpassed, rfl, -⟩ | ⟨-, ⟨rfl, -⟩ | ⟨hcut, -⟩⟩
  · refine ⟨hposts, Nat.zero_le 1, ?_⟩
    intro hundisturbed
    refine absurd ?_ (transfer_not_passed late htransfer hpassed)
    intro a ha
    exact absurd (by simpa using ha) (hundisturbed a)
  · exact ⟨hposts, Nat.le_refl 1, fun _ => rfl⟩
  · obtain ⟨before, a, after, hsplit, rfl⟩ := cutAt_split hcut
    have hdisturbed : ¬ ∀ b, ¬ CancelledAt
        (transferred ++ (Prog.answered (awaits before) ++ [(.await a, .error .cancelled)])) b := by
      intro hundisturbed
      exact hundisturbed a (by simp)
    refine ⟨?_, ?_, fun hundisturbed => absurd hundisturbed hdisturbed⟩
    · obtain ⟨rfl, h₁⟩ | ⟨_, rfl, h₁⟩ := List.cons_eq_append_iff.mp hsplit
      · cases h₁
        exact hposts
      obtain ⟨rfl, h₂⟩ | ⟨_, rfl, h₂⟩ := List.cons_eq_append_iff.mp h₁
      · cases h₂
        exact hposts
      · simp at h₂
    · obtain ⟨rfl, h₁⟩ | ⟨_, rfl, h₁⟩ := List.cons_eq_append_iff.mp hsplit
      · cases h₁
        cases late <;> decide
      obtain ⟨rfl, h₂⟩ | ⟨_, rfl, h₂⟩ := List.cons_eq_append_iff.mp h₁
      · cases h₂
        cases late <;> decide
      · simp at h₂

/-- A round starts a handoff at most once, and only if its reply accepts one. -/
theorem Round.Sound.handoff {round : Round (workflow rt retryOn)} (h : round.Sound env) :
    round.posts ≤ (if round.accepts rt then 1 else 0) ∧
      round.ringbacks ≤ (if round.accepts rt then 1 else 0) ∧
      ((∀ a, ¬ CancelledAt round.log a) → ¬ StreamRaised round.log →
        round.ringbacks = if round.accepts rt then 1 else 0) := by
  have hprogress := played_progress h.played
  have hallowed := h.played.allowed
  have hfinal := h.routerStatus_of_read
  have haccepts := fun hread => h.accepts_iff (h.read hread).1
  rw [Round.posts, Round.ringbacks, Round.frames]
  generalize round.log = log at hprogress hallowed hfinal haccepts
  cases hprogress with
  | @unread log a hlog hcancelled =>
    rw [hlog.countP_post, hlog.count_frames rfl]
    exact ⟨Nat.zero_le _, Nat.zero_le _, fun h => absurd hcancelled (h a)⟩
  | @cut before log after e hbefore hcut hafter =>
    have hreading := (cutAt_reading hcut).2
    rw [List.countP_append, List.countP_append, hbefore.countP_post, countP_post_reading hreading,
      hafter.countP_post, frames_append, frames_append, List.count_append, List.count_append,
      hbefore.count_frames rfl, count_frames_reading hreading rfl, hafter.count_frames rfl]
    refine ⟨Nat.zero_le _, Nat.zero_le _, fun hundisturbed hraised => ?_⟩
    simp only [streamRaised_append, not_or] at hraised
    obtain ⟨a, -, hcancelled⟩ := cancelled_of_cutAt hcut (fun c hc => hallowed c (by simp [hc]))
      hraised.1.2
    exact absurd (by simp [hcancelled]) (hundisturbed a)
  | @read before rest after hbefore hrest hafter =>
    have hread : (.await .finalizeResponse, .ok ()) ∈ before ++ Prog.answered
        (awaits (response round.events) ++
          [.setHandoffStatus (finalStatus round.svc round.events)]) ++ rest ++ after := by
      simp [response]
    have hposts : (Prog.answered (awaits (response round.events) ++
        [.setHandoffStatus (finalStatus round.svc round.events)]) : CallLog).countP isPostCall = 0 := by
      rw [Prog.answered_append, List.countP_append,
        countP_post_reading (all_answered (response_reading round.events))]
      rfl
    rw [List.countP_append, List.countP_append, List.countP_append, hbefore.countP_post, hposts,
      hafter.countP_post, frames_append, frames_append, frames_append, List.count_append,
      List.count_append, List.count_append, hbefore.count_frames rfl, count_frames_response rfl,
      hafter.count_frames rfl]
    have hstatus := hfinal hread
    have haccepts' := haccepts ⟨_, hread⟩
    rw [hstatus, Option.some.injEq] at haccepts'
    rcases hrest with ⟨haccepted, r, hrest⟩ | ⟨hother, rfl⟩
    · obtain ⟨hposts, hringbacks, hwhole⟩ := handoff_counts round.late hrest
        fun c hc => hallowed c (by simp [hc])
      rw [if_pos (haccepts'.mpr haccepted)]
      refine ⟨by omega, by omega, fun hundisturbed _ => ?_⟩
      have hrest := hwhole fun a ha => hundisturbed a (by simp [ha])
      omega
    · rw [if_neg (fun haccepts => hother (haccepts'.mp haccepts))]
      exact ⟨Nat.zero_le _, Nat.zero_le _, fun _ _ => rfl⟩

theorem PhoneCall.sound {rounds : List (Round (workflow rt retryOn))} {status : Str}
    (h : PhoneCall env svc rounds status) : ∀ round ∈ rounds, round.Sound env := by
  induction h with
  | start => exact fun _ hround => absurd hround List.not_mem_nil
  | round _ _ _ hsound _ ih => exact List.forall_mem_append.mpr ⟨ih, List.forall_mem_singleton.mpr hsound⟩

/-- One transfer request and one ringback for the whole call, and no handoff
after a turn that has ended with an accepted one. -/
structure HandedOffOnce (rounds : List (Round (workflow rt retryOn))) : Prop where
  posts : (rounds.map Round.posts).sum ≤ 1
  ringbacks : (rounds.map Round.ringbacks).sum ≤ 1
  later : ∀ before round after, rounds = before ++ round :: after → round.turn.Ended →
    round.turn.state.handoffStatus = some ("Accepted" : Str) →
    ∀ other ∈ after, other.posts = 0 ∧ other.ringbacks = 0

theorem sum_le_countP {α : Type} {f : α → ℕ} {p : α → Bool} {l : List α}
    (h : ∀ a ∈ l, f a ≤ if p a then 1 else 0) : (l.map f).sum ≤ l.countP p := by
  induction l with
  | nil => exact Nat.zero_le 0
  | cons a l ih =>
    have ha := h a List.mem_cons_self
    have hl := ih fun b hb => h b (List.mem_cons_of_mem _ hb)
    rw [List.map_cons, List.sum_cons, List.countP_cons]
    omega

theorem countP_le_sum {α : Type} {f : α → ℕ} {p : α → Bool} {l : List α}
    (h : ∀ a ∈ l, (if p a then 1 else 0) ≤ f a) : l.countP p ≤ (l.map f).sum := by
  induction l with
  | nil => exact Nat.zero_le 0
  | cons a l ih =>
    have ha := h a List.mem_cons_self
    have hl := ih fun b hb => h b (List.mem_cons_of_mem _ hb)
    rw [List.map_cons, List.sum_cons, List.countP_cons]
    omega

/-- **When a call is handed off at most once.** In every call in which at most
one reply to a router accepts a handoff there is at most one transfer request,
at most one ringback, and no handoff after an accepted one; in a call without
interruption or failure that is so only then. -/
theorem handed_off_once_iff (rt : Runtime) (retryOn : Exn → Bool) (env : Env) (svc : LLMService)
    (rounds : List (Round (workflow rt retryOn))) (status : Str)
    (h : PhoneCall env svc rounds status) :
    (rounds.countP (Round.accepts rt) ≤ 1 → HandedOffOnce rounds) ∧
    ((∀ round ∈ rounds, (∀ a, ¬ CancelledAt round.log a) ∧ ¬ StreamRaised round.log) →
      (HandedOffOnce rounds ↔ rounds.countP (Round.accepts rt) ≤ 1)) := by
  have honce : rounds.countP (Round.accepts rt) ≤ 1 → HandedOffOnce rounds := by
    intro haccepts
    refine ⟨?_, ?_, ?_⟩
    · exact (sum_le_countP fun round hround => (h.sound round hround).handoff.1).trans haccepts
    · exact (sum_le_countP fun round hround => (h.sound round hround).handoff.2.1).trans haccepts
    · rintro before round after rfl hended haccepted other hother
      have hround := h.sound round (by simp)
      have hone : round.accepts rt = true := by
        rw [hround.accepts_iff hended, hround.routerStatus_eq hended, haccepted]
      have hnone : after.countP (Round.accepts rt) = 0 := by
        rw [List.countP_append, List.countP_cons, if_pos hone] at haccepts
        omega
      have hother' := (h.sound other (by simp [hother])).handoff
      rw [if_neg (List.countP_eq_zero.mp hnone other hother)] at hother'
      exact ⟨Nat.le_zero.mp hother'.1, Nat.le_zero.mp hother'.2.1⟩
  refine ⟨honce, fun hundisturbed => ⟨fun hhanded => ?_, honce⟩⟩
  refine (countP_le_sum fun round hround => ?_).trans hhanded.ringbacks
  obtain ⟨hcancelled, hraised⟩ := hundisturbed round hround
  exact ((h.sound round hround).handoff.2.2 hcancelled hraised).ge

end

/-! ## A handoff accepted twice -/

def acceptingReply : Str :=
  ("\x7b\"standalone_query\": \"yes\", \"intents\": [], " : Str) ++
    ("\"handoff_action\": \"accept_handoff\"\x7d" : Str)

def acceptingAnswer : Node → Graph.Call → Except Exn Str
  | _, .routerLlm _ => .ok acceptingReply
  | _, _ => .ok []

/-- The service before the first acceptance, or after it. -/
def acceptingService (again : Bool) : LLMService :=
  { callService with handoffStatus := if again then "Accepted" else "None" }

@[irreducible]
def acceptingTurn (again : Bool) : Turn (workflow Runtime.ascii fun _ => true) :=
  Turn.play acceptingAnswer 4
    (Turn.start _ {} ((acceptingService again).turnInput callMessages).initialState)

theorem acceptingTurn_reachable (again : Bool) : Turn.Reachable (fun _ _ _ => True)
    (Turn.start _ {} ((acceptingService again).turnInput callMessages).initialState)
    (acceptingTurn again) := by
  unfold acceptingTurn
  exact Turn.Reachable.start.play (fun _ _ => trivial) 4

theorem acceptingTurn_ended (again : Bool) : (acceptingTurn again).Ended := by
  have h : ((acceptingTurn again).tasks.isEmpty && (acceptingTurn again).stop.isNone) = true := by
    cases again <;> decide +kernel
  rw [Bool.and_eq_true, List.isEmpty_iff, Option.isNone_iff_eq_none] at h
  exact h

theorem acceptingTurn_accepted (again : Bool) :
    (acceptingTurn again).state.handoffStatus = some ("Accepted" : Str) := by
  cases again <;> decide +kernel

/-- The turn, cancelled at one of its calls or at none. -/
def acceptingRound (again : Bool) (cut : Option ℕ) : Round (workflow Runtime.ascii fun _ => true) :=
  Round.play _ _ callEnv (acceptingService again) callMessages (acceptingTurn again) cut

theorem acceptingRound_sound (again : Bool) : (acceptingRound again none).Sound callEnv :=
  Round.play_sound (acceptingTurn_reachable again) (playTurn_none ..)
    fun _ => acceptingTurn_ended again

theorem accepted_hangs_up_iff_acceptingRound :
    (acceptingRound false none).frames.count .endFrame = 1 ↔
      HangsUp (acceptingRound false none).late (acceptingRound false none).log :=
  accepted_hangs_up_iff _ _ callEnv _ (acceptingRound_sound false) (acceptingTurn_ended false)
    (acceptingTurn_accepted false)

theorem playTurn_ringback (env : Env) (svc : LLMService) (state : AgentState) :
    ∃ after, playTurn env svc [.values state] (some 12) =
      Prog.answered (awaits (opening ++ lead svc ++ [.nextEvent])) ++ after :=
  ⟨_, rfl⟩

def cancelsRingback : Op × Except Raised Unit → Bool
  | (.await .pushRingback, .error .cancelled) => true
  | _ => false

/-- The caller speaks while the ringback is being pushed: the call is not ended. -/
theorem ringback_interrupted : (acceptingRound false (some 12)).Sound callEnv ∧
    (acceptingRound false (some 12)).turn.Ended ∧
    (acceptingRound false (some 12)).turn.state.handoffStatus = some ("Accepted" : Str) ∧
    (acceptingRound false (some 12)).log.any cancelsRingback = true ∧
    (acceptingRound false (some 12)).frames.count .endFrame = 0 := by
  have hsound : (acceptingRound false (some 12)).Sound callEnv :=
    Round.play_sound (acceptingTurn_reachable false) (playTurn_ringback ..)
      fun _ => acceptingTurn_ended false
  refine ⟨hsound, acceptingTurn_ended false, acceptingTurn_accepted false, ?_, ?_⟩
  · decide +kernel
  · decide +kernel

theorem accepting_call : ∃ status, PhoneCall callEnv callService
    [acceptingRound false none, acceptingRound true none] status := by
  have hfirst : PhoneCall callEnv callService [acceptingRound false none]
      (acceptingRound false none).statusAfter :=
    PhoneCall.start.round [] "neutral" (acceptingRound_sound false) rfl
  have hstatus : (acceptingRound false none).statusAfter = "Accepted" := by decide +kernel
  rw [hstatus] at hfirst
  exact ⟨_, hfirst.round [] "neutral" (acceptingRound_sound true) rfl⟩

theorem handed_off_once_iff_acceptingRound : HandedOffOnce [acceptingRound false none] := by
  have hfirst : PhoneCall callEnv callService [acceptingRound false none]
      (acceptingRound false none).statusAfter :=
    PhoneCall.start.round [] "neutral" (acceptingRound_sound false) rfl
  exact (handed_off_once_iff _ _ callEnv callService _ _ hfirst).1 List.countP_le_length

/-- The caller accepts, and speaks again before the call has ended: the transfer
is requested a second time. -/
theorem handed_off_twice : (∃ status, PhoneCall callEnv callService
      [acceptingRound false none, acceptingRound true none] status) ∧
    ([acceptingRound false none, acceptingRound true none].map Round.posts).sum = 2 ∧
    ([acceptingRound false none, acceptingRound true none].map Round.ringbacks).sum = 2 ∧
    ¬ HandedOffOnce [acceptingRound false none, acceptingRound true none] := by
  have hposts : ([acceptingRound false none, acceptingRound true none].map Round.posts).sum = 2 := by
    decide +kernel
  have hringbacks :
      ([acceptingRound false none, acceptingRound true none].map Round.ringbacks).sum = 2 := by
    decide +kernel
  refine ⟨accepting_call, hposts, hringbacks, ?_⟩
  intro honce
  have := honce.posts
  omega

end TechMart.Bot
