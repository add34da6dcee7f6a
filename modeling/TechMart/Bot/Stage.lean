import TechMart.Bot.BargeIn

/-!
# The two tasks of the stage

The processing task takes a frame, processes it, and takes the next. The input
task queues frames for it, and handles an interruption: it cancels the
processing task once, awaits its end without a timeout, and starts a new one.
That there is none is assumed here: `cancel_task` cancels the task again after
one second, which `FrameProcessor` has.
-/

namespace TechMart.Bot

open Python TechMart.Graph

/-- The processing task: at its queue, at work on a frame, or ended. -/
inductive TaskState where
  | idle
  | working (frame : QueuedFrame) (prog : Coro Unit)
  | finished

structure Stage where
  queue : List QueuedFrame
  task : TaskState
  /-- The input task awaits the processing task it has cancelled. -/
  interrupting : Bool
  handoffStatus : Str

namespace Stage

def start : Stage := ⟨[], .idle, false, "None"⟩

/-- The interruption handler waits for a task that waits for the next frame. -/
def Wedged (s : Stage) : Prop := s.interrupting = true ∧ s.task = .idle ∧ s.queue = []

/-- The processing task is cancelled at the call its coroutine is suspended at. -/
def cancel (s : Stage) (frame : QueuedFrame) (k : Except Raised Unit → Coro Unit) : Stage :=
  { s with task := .working frame (k (.error .cancelled)), interrupting := true }

/-- The reset of the queue, which keeps what must not be interrupted. -/
def resetQueue (s : Stage) : List QueuedFrame := s.queue.filter QueuedFrame.uninterruptible

end Stage

/-- The handoff status once the call has returned. -/
def Op.status : Op → Str → Str
  | .setHandoffStatus status, _ => status
  | .await _, status => status

section
variable (env : Env) (svc : LLMService)

/-- What happens without a new frame: the processing task goes on, or has ended
and the interruption handler starts another. -/
inductive Own : Stage → Stage → Prop
  | get {s : Stage} {frame : QueuedFrame} {rest : List QueuedFrame} (profile : Dict Value)
      (events : List StreamEvent) : s.task = .idle → s.queue = frame :: rest →
      Own s { s with
        queue := rest
        task := .working frame (processFrame env
          { svc with customerProfile := profile, handoffStatus := s.handoffStatus } events frame) }
  | answer {s : Stage} {frame : QueuedFrame} {op : Op} {k : Except Raised Unit → Coro Unit}
      {ans : Except Raised Unit} : s.task = .working frame (.call op k) → serves op ans →
      Own s { s with task := .working frame (k ans), handoffStatus := op.status s.handoffStatus }
  | processed {s : Stage} {frame : QueuedFrame} : s.task = .working frame (.done ()) →
      Own s { s with task := .idle }
  | raised {s : Stage} {frame : QueuedFrame} {e : Raised} : s.task = .working frame (.raise e) →
      Own s { s with task := .finished }
  | joined {s : Stage} : s.interrupting = true → s.task = .finished →
      Own s { s with task := .idle, interrupting := false, queue := s.resetQueue }

/-- Any step of the stage; `cutAt` says at which awaits a cancellation may come. -/
inductive Step (cutAt : Await → Prop) : Stage → Stage → Prop
  | own {s s' : Stage} : Own env svc s s' → Step cutAt s s'
  | queued {s : Stage} (frame : QueuedFrame) : s.interrupting = false →
      Step cutAt s { s with queue := s.queue ++ [frame] }
  | spared {s : Stage} {frame : QueuedFrame} {prog : Coro Unit} : s.interrupting = false →
      s.task = .working frame prog → frame.uninterruptible = true →
      Step cutAt s { s with queue := s.resetQueue }
  | cancelIdle {s : Stage} : s.interrupting = false → s.task = .idle →
      Step cutAt s { s with task := .finished, interrupting := true }
  | cancelFinished {s : Stage} : s.interrupting = false → s.task = .finished →
      Step cutAt s { s with interrupting := true }
  | cancelWorking {s : Stage} {frame : QueuedFrame} {a : Await} {k : Except Raised Unit → Coro Unit} :
      s.interrupting = false → s.task = .working frame (.call (.await a) k) →
      frame.uninterruptible = false → cutAt a → Step cutAt s (s.cancel frame k)

/-- Everything the stage can come to under any order of frames, answers and
interruptions. -/
inductive Reachable (cutAt : Await → Prop) : Stage → Prop
  | start : Reachable cutAt .start
  | next {s s' : Stage} : Reachable cutAt s → Step env svc cutAt s s' → Reachable cutAt s'

/-- However it goes on, the processing task gets back to its queue, with no
interruption pending. -/
inductive Recovers : Stage → Prop
  | ready {s : Stage} : s.interrupting = false → s.task = .idle → Recovers s
  | moves {s : Stage} : (∃ s', Own env svc s s') → (∀ s', Own env svc s s' → Recovers s') → Recovers s

variable {env svc}

/-! ## What the processing task does next -/

theorem own_working {s s' : Stage} {frame : QueuedFrame} {prog : Coro Unit}
    (hown : Own env svc s s') (htask : s.task = .working frame prog) :
    (∃ op k ans, prog = .call op k ∧ serves op ans ∧
      s' = { s with task := .working frame (k ans), handoffStatus := op.status s.handoffStatus }) ∨
    (prog = .done () ∧ s' = { s with task := .idle }) ∨
    ∃ e, prog = .raise e ∧ s' = { s with task := .finished } := by
  cases hown with
  | get _ _ hidle => simp [hidle] at htask
  | @answer _ op k ans hcall hans =>
    obtain ⟨rfl, rfl⟩ : _ ∧ _ := by simpa [hcall] using htask
    exact Or.inl ⟨op, k, ans, rfl, hans, rfl⟩
  | processed hdone =>
    obtain ⟨rfl, rfl⟩ : _ ∧ _ := by simpa [hdone] using htask
    exact Or.inr (Or.inl ⟨rfl, rfl⟩)
  | @raised _ e hraise =>
    obtain ⟨rfl, rfl⟩ : _ ∧ _ := by simpa [hraise] using htask
    exact Or.inr (Or.inr ⟨e, rfl, rfl⟩)
  | joined _ hfinished => simp [hfinished] at htask

theorem own_finished {s s' : Stage} (hown : Own env svc s s') (htask : s.task = .finished) :
    s' = { s with task := .idle, interrupting := false, queue := s.resetQueue } := by
  cases hown with
  | get _ _ hidle => simp [hidle] at htask
  | answer h | processed h | raised h => simp [h] at htask
  | joined => rfl

theorem not_own_idle {s s' : Stage} (htask : s.task = .idle) (hqueue : s.queue = []) :
    ¬ Own env svc s s' := by
  intro hown
  cases hown with
  | get _ _ _ hframe => simp [hframe] at hqueue
  | answer h | processed h | raised h => simp [h] at htask
  | joined _ h => simp [h] at htask

/-! ## Coming back to the queue -/

theorem recovers_of_returns {s : Stage} {frame : QueuedFrame} {prog : Coro Unit}
    (h : Returns prog) (hpending : s.interrupting = false) (htask : s.task = .working frame prog) :
    Recovers env svc s := by
  induction h generalizing s with
  | @done a _ =>
    refine .moves ⟨_, .processed htask⟩ ?_
    intro s' hown
    obtain ⟨_, _, _, hprog, -⟩ | ⟨-, rfl⟩ | ⟨_, hprog, -⟩ := own_working hown htask
    · cases hprog
    · exact .ready hpending rfl
    · cases hprog
  | raise h => cases h
  | @call op k _ ih =>
    obtain ⟨ans, hans⟩ := serves_total op
    refine .moves ⟨_, .answer htask hans⟩ ?_
    intro s' hown
    obtain ⟨_, _, ans, hprog, hans, rfl⟩ | ⟨hprog, -⟩ | ⟨_, hprog, -⟩ := own_working hown htask
    · cases hprog
      exact ih ans hans hpending rfl
    · cases hprog
    · cases hprog

theorem recovers_of_finished {s : Stage} (hpending : s.interrupting = true)
    (htask : s.task = .finished) : Recovers env svc s := by
  refine .moves ⟨_, .joined hpending htask⟩ ?_
  intro s' hown
  rw [own_finished hown htask]
  exact .ready rfl rfl

theorem recovers_of_letsOut {s : Stage} {frame : QueuedFrame} {prog : Coro Unit}
    (h : LetsOut prog) (hpending : s.interrupting = true) (htask : s.task = .working frame prog) :
    Recovers env svc s := by
  induction h generalizing s with
  | done h => cases h
  | raise _ =>
    refine .moves ⟨_, .raised htask⟩ ?_
    intro s' hown
    obtain ⟨_, _, _, hprog, -⟩ | ⟨hprog, -⟩ | ⟨_, -, rfl⟩ := own_working hown htask
    · cases hprog
    · cases hprog
    · exact recovers_of_finished hpending rfl
  | @call op k _ ih =>
    obtain ⟨ans, hans⟩ := serves_total op
    refine .moves ⟨_, .answer htask hans⟩ ?_
    intro s' hown
    obtain ⟨_, _, ans, hprog, hans, rfl⟩ | ⟨hprog, -⟩ | ⟨_, hprog, -⟩ := own_working hown htask
    · cases hprog
      exact ih ans hans hpending rfl
    · cases hprog
    · cases hprog

/-- What holds between the steps as long as no cancellation meets the `try` block. -/
structure Sound (s : Stage) : Prop where
  alive : s.interrupting = false → s.task ≠ .finished
  working : s.interrupting = false → ∀ frame prog, s.task = .working frame prog →
    Returns prog ∧ Cuts Cut prog
  cancelled : s.interrupting = true →
    s.task = .finished ∨ ∃ frame prog, s.task = .working frame prog ∧ LetsOut prog

theorem Sound.recovers {s : Stage} (h : Sound s) : Recovers env svc s := by
  cases hpending : s.interrupting with
  | false =>
    cases htask : s.task with
    | idle => exact .ready hpending htask
    | working frame prog =>
      exact recovers_of_returns (h.working hpending frame prog htask).1 hpending htask
    | finished => exact absurd htask (h.alive hpending)
  | true =>
    rcases h.cancelled hpending with htask | ⟨frame, prog, htask, hprog⟩
    · exact recovers_of_finished hpending htask
    · exact recovers_of_letsOut hprog hpending htask

theorem sound_idle {s : Stage} (hpending : s.interrupting = false) (htask : s.task = .idle) :
    Sound s where
  alive _ h := by simp [htask] at h
  working _ _ _ h := by simp [htask] at h
  cancelled h := by simp [hpending] at h

theorem sound_finished {s : Stage} (hpending : s.interrupting = true) (htask : s.task = .finished) :
    Sound s where
  alive h := by simp [hpending] at h
  working h := by simp [hpending] at h
  cancelled _ := .inl htask

theorem sound_working {s : Stage} {frame : QueuedFrame} {prog : Coro Unit}
    (hpending : s.interrupting = false) (htask : s.task = .working frame prog)
    (hreturns : Returns prog) (hcuts : Cuts Cut prog) : Sound s where
  alive _ h := by simp [htask] at h
  working _ frame' prog' h := by
    obtain ⟨rfl, rfl⟩ : _ ∧ _ := by simpa [htask] using h
    exact ⟨hreturns, hcuts⟩
  cancelled h := by simp [hpending] at h

theorem sound_cancelled {s : Stage} {frame : QueuedFrame} {prog : Coro Unit}
    (hpending : s.interrupting = true) (htask : s.task = .working frame prog)
    (hprog : LetsOut prog) : Sound s where
  alive h := by simp [hpending] at h
  working h := by simp [hpending] at h
  cancelled _ := .inr ⟨frame, prog, htask, hprog⟩

theorem Sound.own {s s' : Stage} (h : Sound s) (hown : Own env svc s s') : Sound s' := by
  cases hpending : s.interrupting with
  | false =>
    cases hown with
    | get profile events _ _ =>
      exact sound_working hpending rfl (returns_processFrame ..) (cuts_processFrame ..)
    | answer htask hans =>
      obtain ⟨hreturns, hcuts⟩ := h.working hpending _ _ htask
      cases hreturns with
      | call hreturns => exact sound_working hpending rfl (hreturns _ hans) (hcuts.2 _ hans)
    | processed _ => exact sound_idle hpending rfl
    | raised htask =>
      cases (h.working hpending _ _ htask).1 with
      | raise hok => cases hok
    | joined hpending' _ => simp [hpending] at hpending'
  | true =>
    rcases h.cancelled hpending with htask | ⟨frame, prog, htask, hprog⟩
    · rw [own_finished hown htask]
      exact sound_idle rfl rfl
    · obtain ⟨_, _, ans, rfl, hans, rfl⟩ | ⟨rfl, rfl⟩ | ⟨_, rfl, rfl⟩ := own_working hown htask
      · cases hprog with
        | call hprog => exact sound_cancelled hpending rfl (hprog ans hans)
      · cases hprog with
        | done h => cases h
      · exact sound_finished hpending rfl

/-- A step that keeps the task and what is pending keeps soundness. -/
theorem Sound.congr {s s' : Stage} (h : Sound s) (htask : s'.task = s.task)
    (hpending : s'.interrupting = s.interrupting) : Sound s' where
  alive := by
    rw [htask, hpending]
    exact h.alive
  working := by
    rw [htask, hpending]
    exact h.working
  cancelled := by
    rw [htask, hpending]
    exact h.cancelled

theorem Sound.step {s s' : Stage} (h : Sound s)
    (hstep : Step env svc (fun a => a.guarded = false) s s') : Sound s' := by
  cases hstep with
  | own hown => exact h.own hown
  | queued | spared => exact h.congr rfl rfl
  | cancelIdle | cancelFinished _ _ => exact sound_finished rfl (by first | rfl | assumption)
  | cancelWorking hpending htask _ hopen =>
    exact sound_cancelled rfl rfl (((h.working hpending _ _ htask).2.1).lets_out _ rfl hopen)

theorem Reachable.sound {s : Stage} (h : Reachable env svc (fun a => a.guarded = false) s) :
    Sound s := by
  induction h with
  | start => exact sound_idle rfl rfl
  | next _ hstep ih => exact ih.step hstep

/-! ## A cancellation that is swallowed -/

theorem Recovers.own {s s' : Stage} (h : Recovers env svc s) (hpending : s.interrupting = true)
    (hown : Own env svc s s') : Recovers env svc s' := by
  cases h with
  | ready hready => simp [hpending] at hready
  | moves _ h => exact h s' hown

/-- The task can get back to its queue with the interruption still pending. -/
theorem own_idle {P : Stage → Prop}
    (hP : ∀ s s', P s → s.interrupting = true → Own env svc s s' → P s') {s : Stage}
    {frame : QueuedFrame} {prog : Coro Unit} (h : MayReturn prog) (hs : P s)
    (hpending : s.interrupting = true) (htask : s.task = .working frame prog) :
    ∃ status, P { s with task := .idle, handoffStatus := status } := by
  induction h generalizing s with
  | done => exact ⟨s.handoffStatus, hP _ _ hs hpending (.processed htask)⟩
  | raise h => cases h
  | call hans _ ih =>
    obtain ⟨status, h⟩ := ih (hP _ _ hs hpending (.answer htask hans)) hpending rfl
    exact ⟨status, h⟩

/-- Whatever is still queued can be worked off, and then nothing moves. -/
theorem not_recovers_idle {s : Stage} (hpending : s.interrupting = true) (htask : s.task = .idle) :
    ¬ Recovers env svc s := by
  generalize hqueue : s.queue = queue
  induction queue generalizing s with
  | nil =>
    intro h
    cases h with
    | ready hready => simp [hpending] at hready
    | moves hmoves =>
      obtain ⟨s', hown⟩ := hmoves
      exact not_own_idle htask hqueue hown
  | cons frame rest ih =>
    intro h
    have hget := h.own hpending (.get [] [] htask hqueue)
    obtain ⟨status, hidle⟩ := own_idle (fun _ _ h hpending hown => h.own hpending hown)
      ((returns_processFrame env _ [] frame).may serves_total) hget hpending rfl
    refine ih ?_ ?_ ?_ hidle
    · exact hpending
    · rfl
    · rfl

theorem not_recovers_of_mayReturn {s : Stage} {frame : QueuedFrame} {prog : Coro Unit}
    (h : MayReturn prog) (hpending : s.interrupting = true) (htask : s.task = .working frame prog) :
    ¬ Recovers env svc s := by
  intro hrecovers
  obtain ⟨status, hidle⟩ := own_idle (fun _ _ h hpending hown => h.own hpending hown) h hrecovers
    hpending htask
  refine not_recovers_idle ?_ ?_ hidle
  · exact hpending
  · rfl

/-- **When a barge-in is safe.** A cancellation at an await of a turn is let out
by `_process_context` exactly if the await stands outside its `try` block. As
long as every cancellation comes there, the stage recovers from any state it can
reach, so that it is never wedged; after one that does not, it may not recover. -/
theorem stage_recovers_iff (env : Env) (svc : LLMService) :
    (∀ events calls a k, Prog.Path (processContext env svc events) calls (.call (.await a) k) →
      (∀ c ∈ calls, serves c.1 c.2) → (LetsOut (k (.error .cancelled)) ↔ a.guarded = false)) ∧
    (∀ s, Reachable env svc (fun a => a.guarded = false) s → Recovers env svc s ∧ ¬ s.Wedged) ∧
    ∀ s frame a k, Reachable env svc (fun a => a.guarded = false) s → s.interrupting = false →
      s.task = .working frame (.call (.await a) k) → frame.uninterruptible = false →
      (Recovers env svc (s.cancel frame k) ↔ a.guarded = false) := by
  refine ⟨?_, ?_, ?_⟩
  · intro events calls a k hpath hserves
    have hcut := (cuts_processContext env svc events).path hpath hserves
    constructor
    · intro hout
      by_contra hguarded
      obtain ⟨r, hcancelled, hok⟩ := hout.exists_of_may (hcut.1.swallows a rfl (by simpa using hguarded))
      rw [hcancelled] at hok
      cases hok
    · exact hcut.1.lets_out a rfl
  · intro s hreach
    have hrecovers : Recovers env svc s := hreach.sound.recovers
    exact ⟨hrecovers, fun hwedged => not_recovers_idle hwedged.1 hwedged.2.1 hrecovers⟩
  · intro s frame a k hreach hpending htask _
    have hcut := ((hreach.sound.working hpending _ _ htask).2).1
    constructor
    · intro hrecovers
      by_contra hguarded
      exact not_recovers_of_mayReturn (hcut.swallows a rfl (by simpa using hguarded)) rfl rfl hrecovers
    · intro hopen
      exact recovers_of_letsOut (hcut.lets_out a rfl hopen) rfl rfl

/-! ## A caller who speaks while the router is at work -/

/-- The stage can be at the first event of a turn. -/
theorem exists_reachable_nextEvent (env : Env) (svc : LLMService) (cutAt : Await → Prop) :
    ∃ (s : Stage) (k : _), Reachable env svc cutAt s ∧ s.interrupting = false ∧ s.queue = [] ∧
      s.task = .working .context (.call (.await .nextEvent) k) := by
  have hqueued : Reachable env svc cutAt _ := Reachable.start.next (.queued .context rfl)
  have hget := hqueued.next (.own (.get [] [] rfl rfl))
  have h₁ := hget.next (.own (.answer rfl (.inl rfl)))
  have h₂ := h₁.next (.own (.answer rfl (.inl rfl)))
  have h₃ := h₂.next (.own (.answer rfl (.inl rfl)))
  have h₄ := h₃.next (.own (.answer rfl (.inl rfl)))
  have h₅ := h₄.next (.own (.answer rfl (.inl rfl)))
  have h₆ := h₅.next (.own (.answer rfl (.inl rfl)))
  exact ⟨_, _, h₆, rfl, rfl, rfl⟩

end

def demoEnv : Env := ⟨none, none, none, fun _ => false⟩

def demoService : LLMService := ⟨[], "call", "session", "TKT-1", "None", "neutral"⟩

theorem stage_recovers_iff_nextEvent :
    ∃ (s : Stage) (k : _), s.task = .working .context (.call (.await .nextEvent) k) ∧
      ¬ Recovers demoEnv demoService (s.cancel .context k) := by
  obtain ⟨s, k, hreach, hpending, -, htask⟩ :=
    exists_reachable_nextEvent demoEnv demoService fun a => a.guarded = false
  refine ⟨s, k, htask, ?_⟩
  intro hrecovers
  have hopen := ((stage_recovers_iff demoEnv demoService).2.2 s .context .nextEvent k hreach hpending
    htask rfl).mp hrecovers
  cases hopen

theorem Reachable.mono {env : Env} {svc : LLMService} {cutAt cutAt' : Await → Prop}
    (hcut : ∀ a, cutAt a → cutAt' a) {s : Stage} (h : Reachable env svc cutAt s) :
    Reachable env svc cutAt' s := by
  induction h with
  | start => exact .start
  | next _ hstep ih =>
    refine ih.next ?_
    cases hstep with
    | own hown => exact .own hown
    | queued frame hpending => exact .queued frame hpending
    | spared hpending htask hframe => exact .spared hpending htask hframe
    | cancelIdle hpending htask => exact .cancelIdle hpending htask
    | cancelFinished hpending htask => exact .cancelFinished hpending htask
    | cancelWorking hpending htask hframe ha => exact .cancelWorking hpending htask hframe (hcut _ ha)

/-- The interruption comes while the turn awaits its first event: it is
swallowed, the turn ends, and neither task moves again. -/
theorem barge_in_wedges_stage : ∃ s, Reachable demoEnv demoService (fun _ => True) s ∧ s.Wedged := by
  obtain ⟨s, k, hreach, hpending, hqueue, htask⟩ :=
    exists_reachable_nextEvent demoEnv demoService fun a => a.guarded = false
  have hcut := ((hreach.sound.working hpending _ _ htask).2).1
  have hcancelled : Reachable demoEnv demoService (fun _ => True) (s.cancel .context k) :=
    (hreach.mono fun _ _ => trivial).next (.cancelWorking hpending htask rfl trivial)
  obtain ⟨status, hidle⟩ := own_idle (fun _ _ h _ hown => h.next (.own hown))
    (hcut.swallows _ rfl rfl) hcancelled rfl rfl
  exact ⟨_, hidle, rfl, rfl, hqueue⟩

end TechMart.Bot
