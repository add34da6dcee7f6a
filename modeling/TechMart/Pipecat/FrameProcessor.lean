import Mathlib.Data.List.Basic

/-!
# The two tasks of a processor

`FrameProcessor`: its input task takes system frames first, and processes them; the
other frames it queues for the process task. An interruption is a system frame. It
clears that queue of all that may be interrupted and starts the process task again.
Frames wait in the order they came in; only what the tasks do to that order is said
here, not what is done with a frame.
-/

namespace TechMart.Pipecat

/-- What the tasks look at in a frame; the first four kinds are system frames. -/
inductive FrameKind where
  | start
  | interruption
  | cancel
  | system
  | data (uninterruptible : Bool)

inductive InputTask (F : Type) where
  | idle
  | processing (frame : F)
  /-- it has cancelled the process task and awaits it, at first for one second -/
  | joining (frame : F) (timedOut : Bool)

/-- `held` is a frame that waits for `resume_processing_frames`, `stale` that it
does so at an event that was replaced. -/
inductive ProcessTask (F : Type) where
  | absent
  | idle
  | held (frame : F) (stale : Bool)
  | working (frame : F)
  | ended (current : Option F)

namespace ProcessTask

variable {F : Type}

/-- `__process_current_frame`. -/
def current : ProcessTask F → Option F
  | .absent | .idle => none
  | .held frame _ | .working frame => some frame
  | .ended frame => frame

/-- The frame the task has taken and not begun with. -/
def waiting : ProcessTask F → List F
  | .held frame _ => [frame]
  | _ => []

def finished : ProcessTask F → Bool
  | .absent | .ended _ => true
  | _ => false

/-- The event that it may wait at is replaced. -/
def outdated : ProcessTask F → ProcessTask F
  | .held frame _ => .held frame true
  | task => task

theorem waiting_outdated (task : ProcessTask F) : task.outdated.waiting = task.waiting := by
  cases task <;> rfl

theorem waiting_of_finished {task : ProcessTask F} (h : task.finished = true) :
    task.waiting = [] := by
  cases task with
  | absent | ended => rfl
  | _ => cases h

/-- What a cancellation makes of the task. The code at work on a frame may catch it. -/
inductive Cancelled : ProcessTask F → ProcessTask F → Prop
  | absent : Cancelled .absent .absent
  | idle : Cancelled .idle (.ended none)
  | held (frame : F) (stale : Bool) : Cancelled (.held frame stale) (.ended (some frame))
  | working (frame : F) : Cancelled (.working frame) (.ended (some frame))
  | caught (frame : F) : Cancelled (.working frame) (.working frame)
  | ended (current : Option F) : Cancelled (.ended current) (.ended current)

theorem Cancelled.waiting {task task' : ProcessTask F} (h : task.Cancelled task') :
    task'.waiting = [] := by
  cases h <;> rfl

end ProcessTask

/-- `timedOut` says that some cancellation of the process task took more than its
second. `came` are the frames that were queued, `begun` those it has begun to process. -/
structure FrameProcessor (F : Type) where
  cancelling : Bool
  timedOut : Bool
  inputQueue : List F
  inputTask : InputTask F
  processQueue : List F
  processTask : ProcessTask F
  shouldBlockFrames : Bool
  processEvent : Bool
  came : List F
  begun : List F

section
variable {F : Type} (kind : F → FrameKind)

def isSystem (frame : F) : Bool :=
  match kind frame with
  | .data _ => false
  | _ => true

def isData (frame : F) : Bool := !isSystem kind frame

def uninterruptible (frame : F) : Bool :=
  match kind frame with
  | .data uninterruptible => uninterruptible
  | _ => false

/-- `FrameProcessorQueue.get`: keys have the priority first, and then the order. -/
def takeInput (queue : List F) : Option (F × List F) :=
  match queue.find? (isSystem kind) with
  | some frame => some (frame, queue.eraseP (isSystem kind))
  | none => match queue with
    | [] => none
    | frame :: rest => some (frame, rest)

namespace FrameProcessor

def fresh : FrameProcessor F := ⟨false, false, [], .idle, [], .absent, false, false, [], []⟩

/-- `FrameQueue.reset`. -/
def resetProcessQueue (s : FrameProcessor F) : FrameProcessor F :=
  { s with processQueue := s.processQueue.filter (uninterruptible kind) }

/-- `__reset_process_task`, which makes a new event. -/
def resetProcessTask (s : FrameProcessor F) : FrameProcessor F :=
  { s.resetProcessQueue kind with
    shouldBlockFrames := false
    processEvent := false
    processTask := s.processTask.outdated }

/-- `__create_process_task`, of a processor without one. -/
def createProcessTask (s : FrameProcessor F) : FrameProcessor F :=
  { s.resetProcessQueue kind with
    shouldBlockFrames := false
    processEvent := false
    processTask := .idle }

/-- How many frames a reset of the queue drops. -/
def dropped (s : FrameProcessor F) : ℕ :=
  (s.processQueue.filter fun frame => !uninterruptible kind frame).length

/-- The frames that wait: they are not system frames. -/
def pending (s : FrameProcessor F) : List F :=
  s.processTask.waiting ++ s.processQueue ++ s.inputQueue.filter (isData kind)

/-- A step of any task, and the number of frames it drops. -/
inductive Step : ℕ → FrameProcessor F → FrameProcessor F → Prop
  | queueFrame {s : FrameProcessor F} (frame : F) : s.cancelling = false →
      Step 0 s { s with inputQueue := s.inputQueue ++ [frame], came := s.came ++ [frame] }
  | putOff {s : FrameProcessor F} {frame : F} {rest : List F} : s.inputTask = .idle →
      takeInput kind s.inputQueue = some (frame, rest) → isSystem kind frame = false →
      Step 0 s { s with inputQueue := rest, processQueue := s.processQueue ++ [frame] }
  | begin {s : FrameProcessor F} {frame : F} {rest : List F} : s.inputTask = .idle →
      takeInput kind s.inputQueue = some (frame, rest) → isSystem kind frame = true →
      Step 0 s { s with
        inputQueue := rest, inputTask := .processing frame, begun := s.begun ++ [frame] }
  | start {s : FrameProcessor F} {frame : F} : s.inputTask = .processing frame →
      kind frame = .start → s.processTask = .absent →
      Step (s.dropped kind) s (s.createProcessTask kind)
  | spare {s : FrameProcessor F} {frame : F} : s.inputTask = .processing frame →
      kind frame = .interruption → s.processTask.current.any (uninterruptible kind) = true →
      Step (s.dropped kind) s (s.resetProcessQueue kind)
  | interrupt {s : FrameProcessor F} {frame : F} {task : ProcessTask F} :
      s.inputTask = .processing frame → kind frame = .interruption →
      s.processTask.current.any (uninterruptible kind) = false → s.processTask.Cancelled task →
      Step s.processTask.waiting.length s
        { s with inputTask := .joining frame false, processTask := task }
  /-- `wait_for` cancels the task a second time and goes on waiting -/
  | timeOut {s : FrameProcessor F} {frame : F} {task : ProcessTask F} :
      s.inputTask = .joining frame false → s.processTask.finished = false →
      s.processTask.Cancelled task →
      Step s.processTask.waiting.length s
        { s with timedOut := true, inputTask := .joining frame true, processTask := task }
  | joined {s : FrameProcessor F} {frame : F} {timedOut : Bool} :
      s.inputTask = .joining frame timedOut → kind frame = .interruption →
      s.processTask.finished = true →
      Step (s.dropped kind) s { s.createProcessTask kind with inputTask := .processing frame }
  | cancel {s : FrameProcessor F} {frame : F} {task : ProcessTask F} :
      s.inputTask = .processing frame → kind frame = .cancel → s.processTask.Cancelled task →
      Step s.processTask.waiting.length s
        { s with cancelling := true, inputTask := .joining frame false, processTask := task }
  | cancelled {s : FrameProcessor F} {frame : F} {timedOut : Bool} :
      s.inputTask = .joining frame timedOut → kind frame = .cancel →
      s.processTask.finished = true →
      Step 0 s { s with inputTask := .processing frame, processTask := .absent }
  | finish {s : FrameProcessor F} {frame : F} : s.inputTask = .processing frame →
      Step 0 s { s with inputTask := .idle }
  | get {s : FrameProcessor F} {frame : F} {rest : List F} : s.processTask = .idle →
      s.processQueue = frame :: rest → s.shouldBlockFrames = false →
      Step 0 s { s with
        processQueue := rest, processTask := .working frame, begun := s.begun ++ [frame] }
  | hold {s : FrameProcessor F} {frame : F} {rest : List F} : s.processTask = .idle →
      s.processQueue = frame :: rest → s.shouldBlockFrames = true →
      Step 0 s { s with processQueue := rest, processTask := .held frame false }
  | wake {s : FrameProcessor F} {frame : F} : s.processTask = .held frame false →
      s.processEvent = true →
      Step 0 s { s with
        processEvent := false, shouldBlockFrames := false, processTask := .working frame
        begun := s.begun ++ [frame] }
  | processed {s : FrameProcessor F} {frame : F} : s.processTask = .working frame →
      Step 0 s { s with processTask := .idle }
  | raised {s : FrameProcessor F} {frame : F} : s.processTask = .working frame →
      Step 0 s { s with processTask := .ended (some frame) }
  | pause {s : FrameProcessor F} : Step 0 s { s with shouldBlockFrames := true, processEvent := false }
  | resume {s : FrameProcessor F} : Step 0 s { s with processEvent := true }
  | broadcast {s : FrameProcessor F} : Step (s.dropped kind) s (s.resetProcessTask kind)

/-- Everything a processor can come to, with the number of frames it has dropped. -/
inductive Reachable : ℕ → FrameProcessor F → Prop
  | fresh : Reachable 0 fresh
  | next {n lost : ℕ} {s s' : FrameProcessor F} : Reachable n s → Step kind lost s s' →
      Reachable (n + lost) s'

end FrameProcessor

end

/-! ## The input queue -/

section
variable {F : Type} {kind : F → FrameKind} {queue rest : List F} {frame : F}

theorem takeInput_system (h : takeInput kind queue = some (frame, rest))
    (hframe : isSystem kind frame = true) :
    queue.filter (isSystem kind) = frame :: rest.filter (isSystem kind) ∧
      rest.filter (isData kind) = queue.filter (isData kind) := by
  unfold takeInput at h
  cases hfind : queue.find? (isSystem kind) with
  | some first =>
    rw [hfind] at h
    cases h
    obtain ⟨_, before, after, rfl, hbefore⟩ := List.find?_eq_some_iff_append.mp hfind
    have hnone : ∀ a ∈ before, ¬ isSystem kind a = true := by
      intro a ha
      simpa using hbefore a ha
    have hskip : before.filter (isSystem kind) = [] := List.filter_eq_nil_iff.mpr hnone
    rw [List.eraseP_append_right _ hnone, List.eraseP_cons_of_pos hframe]
    simp [hskip, hframe, isData]
  | none =>
    rw [hfind] at h
    have hall := List.find?_eq_none.mp hfind
    cases queue with
    | nil => cases h
    | cons first queue =>
      cases h
      exact absurd hframe (hall frame List.mem_cons_self)

theorem takeInput_data (h : takeInput kind queue = some (frame, rest))
    (hframe : isSystem kind frame = false) : queue = frame :: rest := by
  unfold takeInput at h
  cases hfind : queue.find? (isSystem kind) with
  | some first =>
    rw [hfind] at h
    cases h
    have hsystem := List.find?_some hfind
    rw [hframe] at hsystem
    cases hsystem
  | none =>
    rw [hfind] at h
    cases queue with
    | nil => cases h
    | cons first queue =>
      cases h
      rfl

theorem not_uninterruptible_of_isSystem (h : isSystem kind frame = true) :
    uninterruptible kind frame = false := by
  unfold isSystem at h
  unfold uninterruptible
  cases hkind : kind frame with
  | data => simp [hkind] at h
  | _ => rfl

end

/-! ## What becomes of the frames -/

namespace FrameProcessor

section
variable {F : Type} {kind : F → FrameKind} {n lost : ℕ} {s s' : FrameProcessor F}

/-- The frames that are not system frames, in the order they are processed in. -/
def inLine (kind : F → FrameKind) (s : FrameProcessor F) : List F :=
  s.begun.filter (isData kind) ++ s.pending kind

/-- What has become of the frames that came, of which `n` were dropped. -/
structure Kept (kind : F → FrameKind) (n : ℕ) (s : FrameProcessor F) : Prop where
  /-- Every system frame is processed, or waits, in their order. -/
  system : s.begun.filter (isSystem kind) ++ s.inputQueue.filter (isSystem kind) =
    s.came.filter (isSystem kind)
  /-- The others are, in theirs, but for those that were dropped. -/
  order : List.Sublist (s.inLine kind) (s.came.filter (isData kind))
  count : (s.inLine kind).length + n = (s.came.filter (isData kind)).length
  /-- Of which none must not be interrupted, until the processor is cancelled or
  a cancellation times out. -/
  kept : s.cancelling = false → s.timedOut = false →
    (s.inLine kind).filter (uninterruptible kind) = s.came.filter (uninterruptible kind)

/-- The frames of the process task are no system frames. -/
def Sorted (kind : F → FrameKind) (s : FrameProcessor F) : Prop :=
  ∀ frame ∈ s.processTask.waiting ++ s.processQueue, isSystem kind frame = false

/-- Frames are dropped, or none is. -/
theorem Kept.lose (h : Kept kind n s) (hcame : s'.came = s.came)
    (hsystem : s'.begun.filter (isSystem kind) ++ s'.inputQueue.filter (isSystem kind) =
      s.begun.filter (isSystem kind) ++ s.inputQueue.filter (isSystem kind))
    (hline : List.Sublist (s'.inLine kind) (s.inLine kind))
    (hlost : (s'.inLine kind).length + lost = (s.inLine kind).length)
    (hkept : s'.cancelling = false → s'.timedOut = false →
      s.cancelling = false ∧ s.timedOut = false ∧
        (s'.inLine kind).filter (uninterruptible kind) =
          (s.inLine kind).filter (uninterruptible kind)) : Kept kind (n + lost) s' where
  system := by
    rw [hsystem, hcame]
    exact h.system
  order := by
    rw [hcame]
    exact hline.trans h.order
  count := by
    have hcount := h.count
    rw [hcame]
    omega
  kept := by
    intro hcancelling htimedOut
    obtain ⟨hbefore, hinTime, hsame⟩ := hkept hcancelling htimedOut
    rw [hsame, hcame]
    exact h.kept hbefore hinTime

theorem Kept.same (h : Kept kind n s) (hcame : s'.came = s.came)
    (hsystem : s'.begun.filter (isSystem kind) ++ s'.inputQueue.filter (isSystem kind) =
      s.begun.filter (isSystem kind) ++ s.inputQueue.filter (isSystem kind))
    (hline : s'.inLine kind = s.inLine kind) (hcancelling : s'.cancelling = s.cancelling)
    (htimedOut : s'.timedOut = s.timedOut) : Kept kind n s' := by
  show Kept kind (n + 0) s'
  apply h.lose hcame hsystem
  · rw [hline]
  · rw [hline]
    rfl
  · intro hnot hinTime
    rw [hline]
    exact ⟨hcancelling.symm.trans hnot, htimedOut.symm.trans hinTime, rfl⟩

/-- The queue is reset. -/
theorem Kept.reset (h : Kept kind n s) (hcame : s'.came = s.came) (hbegun : s'.begun = s.begun)
    (hinput : s'.inputQueue = s.inputQueue)
    (hwaiting : s'.processTask.waiting = s.processTask.waiting)
    (hqueue : s'.processQueue = s.processQueue.filter (uninterruptible kind))
    (hcancelling : s'.cancelling = s.cancelling) (htimedOut : s'.timedOut = s.timedOut) :
    Kept kind (n + s.dropped kind) s' := by
  have hline : s'.inLine kind = s.begun.filter (isData kind) ++ (s.processTask.waiting ++
      s.processQueue.filter (uninterruptible kind) ++ s.inputQueue.filter (isData kind)) := by
    rw [inLine, pending, hbegun, hinput, hwaiting, hqueue]
  have hsplit : (s.processQueue.filter (uninterruptible kind)).length + s.dropped kind =
      s.processQueue.length :=
    List.length_eq_length_filter_add .. |>.symm
  apply h.lose hcame
  · rw [hbegun, hinput]
  · rw [hline, inLine, pending]
    apply List.Sublist.append_left
    apply List.Sublist.append_right
    apply List.Sublist.append_left
    exact List.filter_sublist
  · rw [hline, inLine, pending]
    simp only [List.length_append]
    omega
  · intro hnot hinTime
    refine ⟨hcancelling.symm.trans hnot, htimedOut.symm.trans hinTime, ?_⟩
    rw [hline, inLine, pending]
    simp only [List.filter_append, List.filter_filter, Bool.and_self]

/-- The task is cancelled, and a frame that it has not begun with is gone. -/
theorem Kept.stopped (h : Kept kind n s) {task : ProcessTask F}
    (htask : s.processTask.Cancelled task) (hcame : s'.came = s.came) (hbegun : s'.begun = s.begun)
    (hinput : s'.inputQueue = s.inputQueue) (hqueue : s'.processQueue = s.processQueue)
    (hprocess : s'.processTask = task)
    (hcancelling : s'.cancelling = false → s'.timedOut = false →
      s.cancelling = false ∧ s.timedOut = false ∧
        s.processTask.current.any (uninterruptible kind) = false) :
    Kept kind (n + s.processTask.waiting.length) s' := by
  have hnone : s'.processTask.waiting = [] := by
    rw [hprocess]
    exact htask.waiting
  have hline : s'.inLine kind = s.begun.filter (isData kind) ++
      (s.processQueue ++ s.inputQueue.filter (isData kind)) := by
    rw [inLine, pending, hbegun, hinput, hqueue, hnone, List.nil_append]
  apply h.lose hcame
  · rw [hbegun, hinput]
  · rw [hline, inLine, pending, List.append_assoc]
    apply List.Sublist.append_left
    exact List.sublist_append_right ..
  · rw [hline, inLine, pending]
    simp only [List.length_append]
    omega
  · intro hnot htimedOut
    obtain ⟨hbefore, hinTime, hcurrent⟩ := hcancelling hnot htimedOut
    refine ⟨hbefore, hinTime, ?_⟩
    have hwaiting : s.processTask.waiting.filter (uninterruptible kind) = [] := by
      cases hheld : s.processTask with
      | held frame stale =>
        rw [hheld] at hcurrent
        have hframe : uninterruptible kind frame = false := hcurrent
        exact List.filter_cons_of_neg (by rw [hframe]; exact Bool.false_ne_true)
      | _ => rfl
    rw [hline, inLine, pending]
    simp only [List.filter_append, hwaiting, List.nil_append]

theorem Kept.queued (h : Kept kind n s) (frame : F) :
    Kept kind n { s with inputQueue := s.inputQueue ++ [frame], came := s.came ++ [frame] } := by
  have hline : inLine kind { s with inputQueue := s.inputQueue ++ [frame], came := s.came ++ [frame] } =
      s.inLine kind ++ [frame].filter (isData kind) := by
    simp only [inLine, pending, List.filter_append, List.append_assoc]
  refine ⟨?_, ?_, ?_, ?_⟩
  · show _ ++ (s.inputQueue ++ [frame]).filter _ = (s.came ++ [frame]).filter _
    rw [List.filter_append, List.filter_append, ← List.append_assoc, h.system]
  · rw [hline]
    show List.Sublist _ ((s.came ++ [frame]).filter _)
    rw [List.filter_append]
    exact h.order.append (List.Sublist.refl _)
  · rw [hline]
    show _ = ((s.came ++ [frame]).filter _).length
    have hcount := h.count
    rw [List.filter_append, List.length_append, List.length_append]
    omega
  · intro hcancelling htimedOut
    have hframe : ([frame].filter (isData kind)).filter (uninterruptible kind) =
        [frame].filter (uninterruptible kind) := by
      rw [List.filter_filter]
      apply List.filter_congr
      intro f _
      cases hsystem : isSystem kind f with
      | true => simp [isData, hsystem, not_uninterruptible_of_isSystem hsystem]
      | false => simp [isData, hsystem]
    rw [hline]
    show _ = (s.came ++ [frame]).filter _
    rw [List.filter_append, List.filter_append, h.kept hcancelling htimedOut, hframe]

theorem sorted_step (h : Sorted kind s) (hstep : Step kind lost s s') : Sorted kind s' := by
  have hreset : Sorted kind (s.resetProcessQueue kind) := by
    intro frame hframe
    apply h
    cases List.mem_append.mp hframe with
    | inl hwaiting => exact List.mem_append_left _ hwaiting
    | inr hqueue => exact List.mem_append_right _ (List.mem_of_mem_filter hqueue)
  have hfiltered : ∀ frame ∈ s.processQueue.filter (uninterruptible kind),
      isSystem kind frame = false := by
    intro frame hframe
    exact h frame (List.mem_append_right _ (List.mem_of_mem_filter hframe))
  have hqueue : ∀ frame ∈ s.processQueue, isSystem kind frame = false :=
    fun frame hframe => h frame (List.mem_append_right _ hframe)
  cases hstep with
  | queueFrame | begin | finish | pause | resume => exact h
  | putOff _ _ hdata =>
    unfold Sorted
    rw [← List.append_assoc]
    exact List.forall_mem_append.mpr ⟨h, by simpa using hdata⟩
  | start | joined => exact hfiltered
  | spare => exact hreset
  | interrupt _ _ _ htask | cancel _ _ htask | timeOut _ _ htask =>
    intro frame hframe
    apply hqueue
    rw [htask.waiting] at hframe
    exact hframe
  | cancelled => exact hqueue
  | get hidle hframe =>
    rw [hframe] at hqueue
    exact (List.forall_mem_cons.mp hqueue).2
  | hold hidle hframe =>
    rw [hframe] at hqueue
    exact hqueue
  | wake | processed | raised => exact hqueue
  | broadcast =>
    intro frame hframe
    apply hreset
    cases List.mem_append.mp hframe with
    | inr hmem => exact List.mem_append_right _ hmem
    | inl hmem =>
      apply List.mem_append_left
      rw [← ProcessTask.waiting_outdated]
      exact hmem

/-- The process task begins with the next frame. -/
theorem Kept.begins (h : Kept kind n s) {frame : F} (hframe : isSystem kind frame = false)
    (hnext : s.processTask.waiting ++ s.processQueue =
      frame :: (s'.processTask.waiting ++ s'.processQueue))
    (hcame : s'.came = s.came) (hbegun : s'.begun = s.begun ++ [frame])
    (hinput : s'.inputQueue = s.inputQueue) (hcancelling : s'.cancelling = s.cancelling)
    (htimedOut : s'.timedOut = s.timedOut) : Kept kind n s' := by
  have hdata : isData kind frame = true := by simp [isData, hframe]
  refine h.same hcame ?_ ?_ hcancelling htimedOut
  · rw [hbegun, hinput, List.filter_append, List.filter_cons_of_neg (by simp [hframe]),
      List.filter_nil, List.append_nil]
  · rw [inLine, pending, hbegun, hinput, inLine, pending, hnext, List.filter_append,
      List.filter_cons_of_pos hdata, List.filter_nil, List.append_assoc]
    rfl

/-- **One step**, of any task. -/
theorem kept_step (hsorted : Sorted kind s) (h : Kept kind n s) (hstep : Step kind lost s s') :
    Kept kind (n + lost) s' := by
  cases hstep with
  | queueFrame frame => exact h.queued frame
  | @putOff _ frame rest _ htake hdata =>
    have hinput := takeInput_data htake hdata
    have hframe : isData kind frame = true := by simp [isData, hdata]
    refine h.same rfl ?_ ?_ rfl rfl
    · rw [hinput, List.filter_cons_of_neg (by simp [hdata])]
    · show _ ++ (_ ++ (s.processQueue ++ [frame]) ++ rest.filter _) =
        _ ++ (_ ++ _ ++ s.inputQueue.filter _)
      rw [hinput, List.filter_cons_of_pos hframe]
      simp only [List.append_assoc, List.singleton_append]
  | @begin _ frame rest _ htake hsystem =>
    obtain ⟨htaken, hrest⟩ := takeInput_system htake hsystem
    have hframe : isData kind frame = false := by simp [isData, hsystem]
    refine h.same rfl ?_ ?_ rfl rfl
    · show (s.begun ++ [frame]).filter _ ++ rest.filter _ = _
      rw [htaken, List.filter_append, List.filter_cons_of_pos hsystem, List.filter_nil,
        List.append_assoc, List.singleton_append]
    · show (s.begun ++ [frame]).filter _ ++ (_ ++ _ ++ rest.filter _) = _
      rw [hrest, List.filter_append, List.filter_cons_of_neg (by simp [hframe]), List.filter_nil,
        List.append_nil]
      rfl
  | start _ _ habsent =>
    refine h.reset rfl rfl rfl ?_ rfl rfl rfl
    rw [habsent]
    rfl
  | spare => exact h.reset rfl rfl rfl rfl rfl rfl rfl
  | joined _ _ hfinished =>
    refine h.reset rfl rfl rfl ?_ rfl rfl rfl
    rw [ProcessTask.waiting_of_finished hfinished]
    rfl
  | broadcast => exact h.reset rfl rfl rfl (ProcessTask.waiting_outdated _) rfl rfl rfl
  | interrupt _ _ hcurrent htask =>
    exact h.stopped htask rfl rfl rfl rfl rfl fun hnot hinTime => ⟨hnot, hinTime, hcurrent⟩
  | timeOut _ _ htask => exact h.stopped htask rfl rfl rfl rfl rfl fun _ hinTime => by cases hinTime
  | cancel _ _ htask => exact h.stopped htask rfl rfl rfl rfl rfl nofun
  | cancelled _ _ hfinished =>
    refine h.same rfl rfl ?_ rfl rfl
    rw [inLine, pending, inLine, pending, ProcessTask.waiting_of_finished hfinished]
    rfl
  | finish | pause | resume => exact h.same rfl rfl rfl rfl rfl
  | @get _ frame rest hidle hqueue =>
    refine h.begins (hsorted frame ?_) ?_ rfl rfl rfl rfl rfl
    · rw [hqueue]
      exact List.mem_append_right _ List.mem_cons_self
    · rw [hidle, hqueue]
      rfl
  | hold hidle hqueue =>
    refine h.same rfl rfl ?_ rfl rfl
    rw [inLine, pending, inLine, pending, hidle, hqueue]
    rfl
  | @wake _ frame hheld =>
    refine h.begins (hsorted frame ?_) ?_ rfl rfl rfl rfl rfl
    · rw [hheld]
      exact List.mem_cons_self
    · rw [hheld]
      rfl
  | processed hworking | raised hworking =>
    refine h.same rfl rfl ?_ rfl rfl
    rw [inLine, pending, inLine, pending, hworking]
    rfl

theorem Reachable.kept (h : Reachable kind n s) : Sorted kind s ∧ Kept kind n s := by
  induction h with
  | fresh => exact ⟨List.forall_mem_nil _, rfl, List.Sublist.refl _, rfl, fun _ _ => rfl⟩
  | next _ hstep ih => exact ⟨sorted_step ih.1 hstep, kept_step ih.1 ih.2 hstep⟩

/-- **What becomes of a frame.** In any order of the steps of the two tasks, and of
those that queue frames, interrupt, pause and resume: every frame is processed at
most once, and system frames and the others in the order they came in. No system
frame is dropped, and until the processor is cancelled or a cancellation times out
none that must not be interrupted. Of the others every one is processed, waits or is
counted. -/
theorem frames_kept (h : Reachable kind n s) : Kept kind n s := h.kept.2

/-- A frame is queued, and an interruption comes before its turn. -/
theorem frames_kept_interrupted : ∃ s : FrameProcessor FrameKind, s.cancelling = false ∧
    s.begun = [.start, .interruption] ∧ Kept id 1 s := by
  have hfresh : Reachable id 0 (fresh : FrameProcessor FrameKind) := .fresh
  have hstarted := ((hfresh.next (.queueFrame .start rfl)).next (.begin rfl rfl rfl)).next
    (.start rfl rfl rfl)
  have hqueued := ((hstarted.next (.finish rfl)).next (.queueFrame (.data false) rfl)).next
    (.putOff rfl rfl rfl)
  have hcame := (hqueued.next (.queueFrame .interruption rfl)).next (.begin rfl rfl rfl)
  have hjoined := (hcame.next (.interrupt rfl rfl rfl .idle)).next (.joined rfl rfl rfl)
  exact ⟨_, rfl, rfl, frames_kept hjoined⟩

end

end FrameProcessor

end TechMart.Pipecat
