import TechMart.Bot.Adapter

/-!
# Barge-in

What a cancellation does at each await of a turn, and what that means for the
two tasks of the stage: the one that processes queued frames, and the one that
handles an interruption by cancelling it and awaiting its end.
-/

namespace TechMart.Bot

open Python TechMart.Graph

/-- However it goes on, the coroutine ends by letting the cancellation out. -/
abbrev LetsOut {α : Type} (p : Coro α) : Prop := Prog.Must serves (fun r => r = .error .cancelled) p

/-- However it goes on, the coroutine returns. -/
abbrev Returns (p : Coro Unit) : Prop := Prog.Must serves (fun r => r = .ok ()) p

/-- The coroutine can return. -/
abbrev MayReturn (p : Coro Unit) : Prop := Prog.May serves (fun r => r = .ok ()) p

theorem serves_total (op : Op) : ∃ ans, serves op ans := by
  cases op with
  | await a => exact ⟨.ok (), .inl rfl⟩
  | setHandoffStatus status => exact ⟨.ok (), rfl⟩

section
variable {α β : Type}

/-! ## A turn that is not cancelled -/

/-- It ends in any way but by a cancellation. -/
abbrev Uncancelled (p : Coro α) : Prop := Prog.Must serves (fun r => r ≠ .error .cancelled) p

theorem uncancelled_awaitOn_bind {a : Await} {f : Unit → Coro α} (h : Uncancelled (f ())) :
    Uncancelled (awaitOn a >>= f) := by
  apply Prog.Must.call
  intro ans hans
  rcases hans with rfl | ⟨-, e, rfl⟩
  · exact h
  · exact .raise nofun

theorem returns_awaitOn_bind {a : Await} (ha : a.external = false) {f : Unit → Coro Unit}
    (h : Returns (f ())) : Returns (awaitOn a >>= f) := by
  apply Prog.Must.call
  intro ans hans
  rcases hans with rfl | ⟨hexternal, -⟩
  · exact h
  · rw [ha] at hexternal
    cases hexternal

theorem returns_awaitOn {a : Await} (ha : a.external = false) : Returns (awaitOn a) := by
  apply Prog.Must.call
  intro ans hans
  rcases hans with rfl | ⟨hexternal, -⟩
  · exact .done rfl
  · rw [ha] at hexternal
    cases hexternal

theorem uncancelled_awaitOn (a : Await) : Uncancelled (awaitOn a) := by
  apply Prog.Must.call
  intro ans hans
  rcases hans with rfl | ⟨-, e, rfl⟩
  · exact .done nofun
  · exact .raise nofun

theorem uncancelled_streamLoop (events : List StreamEvent) (firstToken : Bool) (finalStatus : Str) :
    Uncancelled (streamLoop firstToken finalStatus events) := by
  induction events generalizing firstToken finalStatus with
  | nil => exact uncancelled_awaitOn_bind (.done nofun)
  | cons event events ih =>
    apply uncancelled_awaitOn_bind
    split
    · split
      · apply uncancelled_awaitOn_bind
        apply uncancelled_awaitOn_bind
        exact uncancelled_awaitOn_bind (ih ..)
      · exact uncancelled_awaitOn_bind (ih ..)
    · split
      · exact ih ..
      · exact ih ..

theorem returns_postTransfer (vobizUrl authId authToken alegUrl : Str) :
    Returns (postTransfer vobizUrl authId authToken alegUrl) := by
  have hbody : Uncancelled
      ((awaitOn (.post vobizUrl authId authToken alegUrl)).tryFinally (awaitOn .closeSession)) := by
    apply (uncancelled_awaitOn _).tryFinally
    refine (uncancelled_awaitOn _).mono ?_
    intro r hr e he
    rwa [he] at hr
  refine hbody.tryCatch (fun _ _ => rfl) ?_
  intro e he
  cases e with
  | exception e => exact .done rfl
  | cancelled => exact absurd rfl he

section
variable (env : Env) (svc : LLMService)

theorem uncancelled_respond (events : List StreamEvent) : Uncancelled (respond env svc events) := by
  refine (uncancelled_streamLoop events _ _).bind (fun status _ => ?_)
    fun _ he he' => he (by simpa using he')
  apply uncancelled_awaitOn_bind
  apply Prog.Must.call
  rintro _ rfl
  show Uncancelled (ite _ _ _)
  split
  · have htransfer : Returns (transfer env svc) := by
      unfold transfer
      dsimp only
      split
      · exact .done rfl
      · exact returns_postTransfer ..
    refine htransfer.bind (fun _ _ => ?_) nofun
    apply uncancelled_awaitOn_bind
    exact uncancelled_awaitOn _
  · exact .done nofun

theorem returns_completionFailed (e : Exn) : Returns (completionFailed env e) := by
  unfold completionFailed
  split
  · exact returns_awaitOn_bind rfl (returns_awaitOn rfl)
  · exact returns_awaitOn rfl

theorem uncancelled_processContext (events : List StreamEvent) :
    Uncancelled (processContext env svc events) := by
  apply uncancelled_awaitOn_bind
  apply uncancelled_awaitOn_bind
  refine (uncancelled_respond env svc events).tryCatch (fun _ _ => nofun) ?_
  intro e he
  cases e with
  | exception e => exact .raise nofun
  | cancelled => exact absurd rfl he

/-- The awaits after a turn, in its `finally` block. -/
theorem returns_finally : Returns (do awaitOn .stopProcessingMetrics; awaitOn .pushResponseEnd) :=
  returns_awaitOn_bind rfl (returns_awaitOn rfl)

theorem finally_raises_nothing (post : Except Raised α → Prop) {final : Coro Unit}
    (h : Returns final) :
    Prog.Must serves (fun r => ∀ e, r = .error e → post (.error e)) final := by
  refine h.mono ?_
  intro r hr e he
  rw [hr] at he
  cases he

theorem returns_baseProcessFrame (events : List StreamEvent) (frame : QueuedFrame) :
    Returns (baseProcessFrame env svc events frame) := by
  cases frame with
  | other => exact returns_awaitOn_bind rfl (returns_awaitOn rfl)
  | context =>
    apply returns_awaitOn_bind rfl
    refine Prog.Must.tryFinally ?_ (finally_raises_nothing (fun r => r = .ok ()) returns_finally)
    have hbody : Uncancelled (do
        awaitOn .pushResponseStart
        awaitOn .startProcessingMetrics
        processContext env svc events) :=
      uncancelled_awaitOn_bind (uncancelled_awaitOn_bind (uncancelled_processContext env svc events))
    refine hbody.tryCatch (fun _ _ => rfl) ?_
    intro e he
    cases e with
    | exception e => exact returns_completionFailed env e
    | cancelled => exact absurd rfl he

/-- A frame that no interruption meets is processed to its end. -/
theorem returns_processFrame (events : List StreamEvent) (frame : QueuedFrame) :
    Returns (processFrame env svc events frame) := by
  have hbody : Returns (do
      awaitOn .onBeforeProcessFrame
      baseProcessFrame env svc events frame
      awaitOn .onAfterProcessFrame) := by
    apply returns_awaitOn_bind rfl
    exact (returns_baseProcessFrame env svc events frame).bind (fun _ _ => returns_awaitOn rfl) nofun
  exact hbody.tryCatch (fun _ _ => rfl) nofun

/-! ## A turn that is cancelled -/

/-- What is left after a cancellation at `op` lets it out; in the `try` block,
it can return as if nothing had happened. -/
structure Cut (op : Op) (rest : Coro Unit) : Prop where
  lets_out : ∀ a, op = .await a → a.guarded = false → LetsOut rest
  swallows : ∀ a, op = .await a → a.guarded = true → MayReturn rest

/-- Inside the `try` block, what is left can get the cancellation to its handler. -/
def Dies (op : Op) (rest : Coro α) : Prop :=
  ∀ a, op = .await a → a.guarded = true ∧ Prog.May serves (fun r => r = .error .cancelled) rest

theorem Dies.bind {op : Op} {p : Coro α} {f : α → Coro β} (h : Dies op p) : Dies op (p >>= f) := by
  intro a ha
  exact ⟨(h a ha).1, (h a ha).2.bind nofun fun _ he => by simpa using he⟩

theorem Dies.cut {op : Op} {p : Coro Unit} (h : Dies op p) : Cut op (p.tryCatch exceptCancelled) where
  lets_out a ha hopen := by
    rw [(h a ha).1] at hopen
    cases hopen
  swallows a ha _ := by
    refine (h a ha).2.tryCatch nofun ?_
    intro e he
    cases he
    exact .done rfl

theorem Cut.bind {op : Op} {p : Coro Unit} {f : Unit → Coro Unit} (h : Cut op p)
    (hf : Returns (f ())) : Cut op (p >>= f) where
  lets_out a ha hopen := (h.lets_out a ha hopen).bind nofun fun _ he => by simpa using he
  swallows a ha hguarded := (h.swallows a ha hguarded).bind (fun _ _ => hf.may serves_total) nofun

theorem Cut.tryCatch {op : Op} {p : Coro Unit} {handler : Exn → Coro Unit} (h : Cut op p) :
    Cut op (p.tryCatch (exceptException handler)) where
  lets_out a ha hopen := by
    refine (h.lets_out a ha hopen).tryCatch nofun ?_
    intro e he
    cases he
    exact .raise rfl
  swallows a ha hguarded := (h.swallows a ha hguarded).tryCatch (fun _ _ => rfl) nofun

theorem Cut.tryFinally {op : Op} {p final : Coro Unit} (h : Cut op p) (hfinal : Returns final) :
    Cut op (p.tryFinally final) where
  lets_out a ha hopen := (h.lets_out a ha hopen).tryFinally
    (finally_raises_nothing (fun r => r = .error .cancelled) hfinal)
  swallows a ha hguarded := (h.swallows a ha hguarded).tryFinally (hfinal.may serves_total)

/-- A cancellation outside the `try` block. -/
theorem cut_awaitOn {a : Await} (ha : a.guarded = false) : Cut (.await a) (.raise .cancelled) where
  lets_out _ _ _ := .raise rfl
  swallows a' ha' hguarded := by
    cases ha'
    rw [ha] at hguarded
    cases hguarded

/-- A cancellation inside the `try` block. -/
theorem dies_awaitOn {a : Await} (ha : a.guarded = true) :
    Dies (.await a) (.raise .cancelled : Coro α) := by
  rintro _ ⟨⟩
  exact ⟨ha, .raise rfl⟩

/-- Cut at any call, what is left satisfies `P`. -/
abbrev Cuts (P : Op → Coro α → Prop) (p : Coro α) : Prop := Prog.Cuts serves .cancelled P p

theorem cuts_awaitOn_bind {P : Op → Coro β → Prop} {a : Await} {f : Unit → Coro β}
    (h : P (.await a) (.raise .cancelled)) (hf : Cuts P (f ())) : Cuts P (awaitOn a >>= f) := by
  refine ⟨h, fun ans _ => ?_⟩
  cases ans with
  | ok => exact hf
  | error => trivial

theorem cuts_awaitOn {P : Op → Coro Unit → Prop} {a : Await} (h : P (.await a) (.raise .cancelled)) :
    Cuts P (awaitOn a) := Prog.Cuts.perform h

theorem cuts_streamLoop (events : List StreamEvent) (firstToken : Bool) (finalStatus : Str) :
    Cuts Dies (streamLoop firstToken finalStatus events) := by
  induction events generalizing firstToken finalStatus with
  | nil => exact cuts_awaitOn_bind (dies_awaitOn rfl) trivial
  | cons event events ih =>
    apply cuts_awaitOn_bind (dies_awaitOn rfl)
    split
    · split
      · apply cuts_awaitOn_bind (dies_awaitOn rfl)
        apply cuts_awaitOn_bind (dies_awaitOn rfl)
        exact cuts_awaitOn_bind (dies_awaitOn rfl) (ih ..)
      · exact cuts_awaitOn_bind (dies_awaitOn rfl) (ih ..)
    · split
      · exact ih ..
      · exact ih ..

/-- Inside the request, the session is closed first, and the handler there takes
no cancellation. -/
theorem cuts_postTransfer (vobizUrl authId authToken alegUrl : Str) :
    Cuts Dies (postTransfer vobizUrl authId authToken alegUrl) := by
  have hclose (r : Except Raised Unit) : Cuts
      (fun op (rest : Coro Unit) => Dies op (rest.tryCatch (exceptException fun _ => .done ())))
      (awaitOn .closeSession >>= fun _ => match r with | .ok a => .done a | .error e => .raise e) := by
    apply cuts_awaitOn_bind
    · exact dies_awaitOn rfl
    · cases r <;> trivial
  refine Prog.Cuts.tryCatch (Prog.Cuts.tryFinally (cuts_awaitOn ?_) (fun a => hclose (.ok a))
    fun e => hclose (.error e)) fun e => ?_
  · rintro _ ⟨⟩
    exact ⟨rfl, .call (.inl rfl) (.raise rfl)⟩
  · cases e <;> trivial

theorem cuts_respond (events : List StreamEvent) : Cuts Dies (respond env svc events) := by
  refine Prog.Cuts.bind ((cuts_streamLoop events _ _).mono fun _ _ h => h.bind) ?_
  intro status
  apply cuts_awaitOn_bind (dies_awaitOn rfl)
  refine ⟨nofun, ?_⟩
  rintro _ rfl
  show Cuts Dies (ite _ _ _)
  split
  · have htransfer : Cuts Dies (transfer env svc) := by
      unfold transfer
      dsimp only
      split
      · trivial
      · exact cuts_postTransfer ..
    refine Prog.Cuts.bind (htransfer.mono fun _ _ h => h.bind) fun _ => ?_
    exact cuts_awaitOn_bind (dies_awaitOn rfl) (cuts_awaitOn (dies_awaitOn rfl))
  · trivial

theorem cuts_processContext (events : List StreamEvent) :
    Cuts Cut (processContext env svc events) := by
  apply cuts_awaitOn_bind (cut_awaitOn rfl)
  apply cuts_awaitOn_bind (cut_awaitOn rfl)
  refine Prog.Cuts.tryCatch ((cuts_respond env svc events).mono fun _ _ h => h.cut) ?_
  intro e
  cases e <;> trivial

theorem cuts_completionFailed (e : Exn) : Cuts Cut (completionFailed env e) := by
  unfold completionFailed
  split
  · exact cuts_awaitOn_bind (cut_awaitOn rfl) (cuts_awaitOn (cut_awaitOn rfl))
  · exact cuts_awaitOn (cut_awaitOn rfl)

/-- Outside the `try` block, with nothing done about the cancellation since. -/
def Open (op : Op) (rest : Coro Unit) : Prop := Cut op (.raise .cancelled) ∧ rest = .raise .cancelled

theorem Open.cut_bind {op : Op} {p : Coro Unit} {f : Unit → Coro Unit} (h : Open op p) :
    Cut op (p >>= f) := by
  rw [h.2]
  exact h.1

theorem cuts_finally : Cuts Open (do awaitOn .stopProcessingMetrics; awaitOn .pushResponseEnd) :=
  cuts_awaitOn_bind ⟨cut_awaitOn rfl, rfl⟩ (cuts_awaitOn ⟨cut_awaitOn rfl, rfl⟩)

theorem cuts_exceptException {handler : Exn → Coro Unit} (h : ∀ e, Cuts Cut (handler e))
    (e : Raised) : Cuts Cut (exceptException handler e) := by
  cases e with
  | exception e => exact h e
  | cancelled => trivial

theorem cuts_baseProcessFrame (events : List StreamEvent) (frame : QueuedFrame) :
    Cuts Cut (baseProcessFrame env svc events frame) := by
  cases frame with
  | other => exact cuts_awaitOn_bind (cut_awaitOn rfl) (cuts_awaitOn (cut_awaitOn rfl))
  | context =>
    apply cuts_awaitOn_bind (cut_awaitOn rfl)
    have hbody : Cuts Cut (do
        awaitOn .pushResponseStart
        awaitOn .startProcessingMetrics
        processContext env svc events) :=
      cuts_awaitOn_bind (cut_awaitOn rfl)
        (cuts_awaitOn_bind (cut_awaitOn rfl) (cuts_processContext env svc events))
    have hturn := Prog.Cuts.tryCatch (hbody.mono fun _ _ h => h.tryCatch)
      (cuts_exceptException (cuts_completionFailed env))
    exact Prog.Cuts.tryFinally (hturn.mono fun _ _ h => h.tryFinally returns_finally)
      (fun _ => Prog.Cuts.bind (cuts_finally.mono fun _ _ h => h.cut_bind) fun _ => trivial)
      fun _ => Prog.Cuts.bind (cuts_finally.mono fun _ _ h => h.cut_bind) fun _ => trivial

theorem cuts_processFrame (events : List StreamEvent) (frame : QueuedFrame) :
    Cuts Cut (processFrame env svc events frame) := by
  have hframe : Cuts Cut (do
      awaitOn .onBeforeProcessFrame
      baseProcessFrame env svc events frame
      awaitOn .onAfterProcessFrame) := by
    apply cuts_awaitOn_bind (cut_awaitOn rfl)
    refine Prog.Cuts.bind ((cuts_baseProcessFrame env svc events frame).mono fun _ _ h => ?_)
      fun _ => cuts_awaitOn (cut_awaitOn rfl)
    exact h.bind (returns_awaitOn rfl)
  exact Prog.Cuts.tryCatch (hframe.mono fun _ _ h => h.tryCatch)
    (cuts_exceptException fun e => cuts_awaitOn (cut_awaitOn rfl))

end

end

end TechMart.Bot
