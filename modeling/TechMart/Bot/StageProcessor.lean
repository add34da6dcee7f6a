import TechMart.Bot.Stage
import TechMart.Pipecat.FrameProcessor

/-!
# The stage as a processor

The two tasks of `Stage`, which knows the coroutine at work, are those of a
`FrameProcessor`, which knows the input queue: whatever the stage comes to, the
processor comes to, so that what the processor keeps the stage keeps. The stage has no
timeout: it follows a processor none of whose cancellations has taken more than its
second.
-/

namespace TechMart.Bot

open Python TechMart.Graph Pipecat

/-- The frames that matter to the two tasks. -/
inductive StageFrame where
  | start
  | interruption
  | queued (frame : QueuedFrame)

def StageFrame.kind : StageFrame → FrameKind
  | .start => .start
  | .interruption => .interruption
  | .queued frame => .data frame.uninterruptible

inductive TaskMatches : TaskState → ProcessTask StageFrame → Prop
  | idle : TaskMatches .idle .idle
  | working (frame : QueuedFrame) (prog : Coro Unit) :
      TaskMatches (.working frame prog) (.working (.queued frame))
  | finished (current : Option StageFrame) : TaskMatches .finished (.ended current)

theorem TaskMatches.of_idle {task : ProcessTask StageFrame} (h : TaskMatches .idle task) :
    task = .idle := by
  cases h
  rfl

theorem TaskMatches.of_working {frame : QueuedFrame} {prog : Coro Unit}
    {task : ProcessTask StageFrame} (h : TaskMatches (.working frame prog) task) :
    task = .working (.queued frame) := by
  cases h
  rfl

theorem TaskMatches.of_finished {task : ProcessTask StageFrame} (h : TaskMatches .finished task) :
    ∃ current, task = .ended current := by
  cases h
  exact ⟨_, rfl⟩

/-- The processor is where the stage is. -/
structure Matches (s : Stage) (p : FrameProcessor StageFrame) : Prop where
  alive : p.cancelling = false
  inTime : p.timedOut = false
  input : p.inputQueue = []
  inputTask : p.inputTask = if s.interrupting then .joining .interruption false else .idle
  queue : p.processQueue = s.queue.map .queued
  task : TaskMatches s.task p.processTask
  runs : p.shouldBlockFrames = false

section
variable {env : Env} {svc : LLMService} {cutAt : Await → Prop} {s s' : Stage}
  {n : ℕ} {p : FrameProcessor StageFrame}

/-- Without an interruption pending nothing raises. -/
structure Unraised (s : Stage) : Prop where
  alive : s.interrupting = false → s.task ≠ .finished
  working : s.interrupting = false → ∀ frame prog, s.task = .working frame prog → Returns prog

theorem unraised_of_interrupting (h : s.interrupting = true) : Unraised s where
  alive hpending := by simp [h] at hpending
  working hpending := by simp [h] at hpending

theorem unraised_idle (h : s.task = .idle) : Unraised s where
  alive _ hfinished := by simp [h] at hfinished
  working _ _ _ hworking := by simp [h] at hworking

theorem Unraised.own (h : Unraised s) (hown : Own env svc s s') : Unraised s' := by
  cases hown with
  | processed | joined => exact unraised_idle rfl
  | get profile events =>
    refine ⟨nofun, ?_⟩
    intro _ frame prog htask
    cases htask
    exact returns_processFrame ..
  | answer htask hans =>
    refine ⟨nofun, ?_⟩
    intro hpending frame prog hworking
    cases hworking
    cases h.working hpending _ _ htask with
    | call hreturns => exact hreturns _ hans
  | raised htask =>
    cases Bool.eq_false_or_eq_true s.interrupting with
    | inl hpending => exact unraised_of_interrupting hpending
    | inr hpending =>
      cases h.working hpending _ _ htask with
      | raise hok => cases hok

theorem Unraised.step (h : Unraised s) (hstep : Step env svc cutAt s s') : Unraised s' := by
  cases hstep with
  | own hown => exact h.own hown
  | queued | spared => exact ⟨h.alive, h.working⟩
  | cancelIdle | cancelFinished | cancelWorking => exact unraised_of_interrupting rfl

/-! ## The processor follows -/

/-- The processor, at rest but for its process task. -/
def Follows (s : Stage) : Prop :=
  ∃ n p, FrameProcessor.Reachable StageFrame.kind n p ∧ Matches s p

theorem follows_start : Follows .start := by
  have hfresh : FrameProcessor.Reachable StageFrame.kind 0 FrameProcessor.fresh := .fresh
  have hstarted := ((hfresh.next (.queueFrame .start rfl)).next (.begin rfl rfl rfl)).next
    (.start rfl rfl rfl)
  exact ⟨_, _, hstarted.next (.finish rfl), rfl, rfl, rfl, rfl, rfl, .idle, rfl⟩

/-- An interruption comes, and the input task begins with it. -/
theorem exists_interruption (h : FrameProcessor.Reachable StageFrame.kind n p) (hp : Matches s p)
    (hpending : s.interrupting = false) :
    ∃ p' : FrameProcessor StageFrame, FrameProcessor.Reachable StageFrame.kind n p' ∧
      p'.inputTask = .processing .interruption ∧ p'.cancelling = false ∧
      p'.timedOut = false ∧ p'.inputQueue = [] ∧ p'.processQueue = p.processQueue ∧
      p'.processTask = p.processTask ∧ p'.shouldBlockFrames = false := by
  have hidle : p.inputTask = .idle := by
    rw [hp.inputTask, hpending]
    rfl
  have hcame := h.next (.queueFrame .interruption hp.alive)
  have hinput : takeInput StageFrame.kind (p.inputQueue ++ [.interruption]) =
      some (.interruption, []) := by
    rw [hp.input]
    rfl
  exact ⟨_, hcame.next (.begin hidle hinput rfl), rfl, hp.alive, hp.inTime, rfl, rfl, rfl,
    hp.runs⟩

theorem filter_queued (queue : List QueuedFrame) :
    (queue.map StageFrame.queued).filter (uninterruptible StageFrame.kind) =
      (queue.filter QueuedFrame.uninterruptible).map .queued := by
  rw [List.filter_map]
  rfl

theorem Follows.own (h : Follows s) (hown : Own env svc s s') : Follows s' := by
  obtain ⟨n, p, hreach, hp⟩ := h
  have hmatches := hp.task
  cases hown with
  | @get frame rest profile events hidle hqueue =>
    rw [hidle] at hmatches
    have hqueued : p.processQueue = .queued frame :: rest.map .queued := by
      rw [hp.queue, hqueue]
      rfl
    exact ⟨_, _, hreach.next (.get hmatches.of_idle hqueued hp.runs), hp.alive, hp.inTime,
      hp.input, hp.inputTask, rfl, .working .., hp.runs⟩
  | answer htask hans =>
    rw [htask] at hmatches
    refine ⟨n, p, hreach, hp.alive, hp.inTime, hp.input, hp.inputTask, hp.queue, ?_, hp.runs⟩
    rw [hmatches.of_working]
    exact .working ..
  | processed htask =>
    rw [htask] at hmatches
    exact ⟨_, _, hreach.next (.processed hmatches.of_working), hp.alive, hp.inTime, hp.input,
      hp.inputTask, hp.queue, .idle, hp.runs⟩
  | raised htask =>
    rw [htask] at hmatches
    exact ⟨_, _, hreach.next (.raised hmatches.of_working), hp.alive, hp.inTime, hp.input,
      hp.inputTask, hp.queue, .finished _, hp.runs⟩
  | joined hpending htask =>
    rw [htask] at hmatches
    obtain ⟨current, hended⟩ := hmatches.of_finished
    have hjoining : p.inputTask = .joining .interruption false := by
      rw [hp.inputTask, hpending]
      rfl
    have hover : p.processTask.finished = true := by
      rw [hended]
      rfl
    have hjoined := (hreach.next (.joined hjoining rfl hover)).next (.finish rfl)
    refine ⟨_, _, hjoined, hp.alive, hp.inTime, hp.input, rfl, ?_, .idle, rfl⟩
    show p.processQueue.filter _ = _
    rw [hp.queue, filter_queued]
    rfl

/-- **One step** of the stage is some steps of the processor. -/
theorem Follows.step (h : Follows s) (hraised : Unraised s) (hstep : Step env svc cutAt s s') :
    Follows s' := by
  cases hstep with
  | own hown => exact h.own hown
  | queued frame hpending =>
    obtain ⟨n, p, hreach, hp⟩ := h
    have hidle : p.inputTask = .idle := by
      rw [hp.inputTask, hpending]
      rfl
    have hinput : takeInput StageFrame.kind (p.inputQueue ++ [.queued frame]) =
        some (.queued frame, []) := by
      rw [hp.input]
      rfl
    have hqueued := (hreach.next (.queueFrame (.queued frame) hp.alive)).next
      (.putOff hidle hinput rfl)
    refine ⟨_, _, hqueued, hp.alive, hp.inTime, rfl, hp.inputTask, ?_, hp.task, hp.runs⟩
    show p.processQueue ++ [.queued frame] = (s.queue ++ [frame]).map .queued
    rw [hp.queue, List.map_append]
    rfl
  | @spared frame prog hpending htask hframe =>
    obtain ⟨n, p, hreach, hp⟩ := h
    have hworking := hp.task
    rw [htask] at hworking
    obtain ⟨p', hcame, hprocessing, halive, hinTime, hinput, hqueue, htask', hruns⟩ :=
      exists_interruption hreach hp hpending
    have hcurrent : p'.processTask.current.any (uninterruptible StageFrame.kind) = true := by
      rw [htask', hworking.of_working]
      exact hframe
    have hspared := (hcame.next (.spare hprocessing rfl hcurrent)).next (.finish hprocessing)
    refine ⟨_, _, hspared, halive, hinTime, hinput, ?_, ?_, ?_, hruns⟩
    · show InputTask.idle = if s.interrupting then _ else _
      rw [hpending]
      rfl
    · show p'.processQueue.filter _ = _
      rw [hqueue, hp.queue, filter_queued]
      rfl
    · show TaskMatches s.task p'.processTask
      rw [htask']
      exact hp.task
  | cancelIdle hpending htask =>
    obtain ⟨n, p, hreach, hp⟩ := h
    have hidle := hp.task
    rw [htask] at hidle
    obtain ⟨p', hcame, hprocessing, halive, hinTime, hinput, hqueue, htask', hruns⟩ :=
      exists_interruption hreach hp hpending
    rw [hidle.of_idle] at htask'
    have hcurrent : p'.processTask.current.any (uninterruptible StageFrame.kind) = false := by
      rw [htask']
      rfl
    have hcancelled : p'.processTask.Cancelled (.ended none) := by
      rw [htask']
      exact .idle
    exact ⟨_, _, hcame.next (.interrupt hprocessing rfl hcurrent hcancelled), halive, hinTime,
      hinput, rfl, hqueue.trans hp.queue, .finished none, hruns⟩
  | cancelFinished hpending htask => exact absurd htask (hraised.alive hpending)
  | @cancelWorking frame a k hpending htask hframe =>
    obtain ⟨n, p, hreach, hp⟩ := h
    have hworking := hp.task
    rw [htask] at hworking
    obtain ⟨p', hcame, hprocessing, halive, hinTime, hinput, hqueue, htask', hruns⟩ :=
      exists_interruption hreach hp hpending
    rw [hworking.of_working] at htask'
    have hcurrent : p'.processTask.current.any (uninterruptible StageFrame.kind) = false := by
      rw [htask']
      exact hframe
    have hcancelled : p'.processTask.Cancelled (.working (.queued frame)) := by
      rw [htask']
      exact .caught _
    exact ⟨_, _, hcame.next (.interrupt hprocessing rfl hcurrent hcancelled), halive, hinTime,
      hinput, rfl, hqueue.trans hp.queue, .working .., hruns⟩

end

theorem follows_of_reachable {env : Env} {svc : LLMService} {cutAt : Await → Prop} {s : Stage}
    (h : Reachable env svc cutAt s) : Unraised s ∧ Follows s := by
  induction h with
  | start => exact ⟨unraised_idle rfl, follows_start⟩
  | next _ hstep ih => exact ⟨ih.1.step hstep, ih.2.step ih.1 hstep⟩

end TechMart.Bot
