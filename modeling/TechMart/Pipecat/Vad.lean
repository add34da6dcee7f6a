import TechMart.Signal.Debounce
import TechMart.Signal.Windows

/-!
# Voice activity

The analyzer reads the caller's audio window by window and counts; the
controller tells the other processors when the caller started and stopped
speaking. What the Silero model and the volume say of a window is a parameter,
with whatever they keep from one window to the next.
-/

namespace TechMart.Pipecat

open Signal

inductive VADState where
  | quiet
  | starting
  | speaking
  | stopping
  deriving DecidableEq

/-- What `set_sample_rate` and `set_params` work out: `startFrames` and
`stopFrames` are the rounded `start_secs` and `stop_secs` over the seconds of a
window. -/
structure VADSettings where
  sampleRate : ℕ
  startFrames : ℕ
  stopFrames : ℕ

namespace VADSettings

def numFramesRequired (s : VADSettings) : ℕ := if s.sampleRate = 16000 then 512 else 256

/-- One channel of two bytes a sample. -/
def numRequiredBytes (s : VADSettings) : ℕ := s.numFramesRequired * 1 * 2

theorem numRequiredBytes_pos (s : VADSettings) : 0 < s.numRequiredBytes := by
  unfold numRequiredBytes numFramesRequired
  split <;> omega

end VADSettings

structure VADAnalyzer (μ : Type) where
  vadBuffer : List UInt8
  model : μ
  vadState : VADState
  startingCount : ℕ
  stoppingCount : ℕ

variable {μ : Type} (s : VADSettings) (hears : μ → List UInt8 → Bool × μ)

namespace VADAnalyzer

def setParams (a : VADAnalyzer μ) : VADAnalyzer μ :=
  { a with vadState := .quiet, startingCount := 0, stoppingCount := 0 }

/-- One window, voiced or not. -/
def count (a : VADAnalyzer μ) (speaking : Bool) : VADAnalyzer μ :=
  if speaking then
    match a.vadState with
    | .quiet => { a with vadState := .starting, startingCount := 1 }
    | .starting => { a with startingCount := a.startingCount + 1 }
    | .stopping => { a with vadState := .speaking, stoppingCount := 0 }
    | .speaking => a
  else
    match a.vadState with
    | .starting => { a with vadState := .quiet, startingCount := 0 }
    | .speaking => { a with vadState := .stopping, stoppingCount := 1 }
    | .stopping => { a with stoppingCount := a.stoppingCount + 1 }
    | .quiet => a

@[simp] theorem count_vadBuffer (a : VADAnalyzer μ) (speaking : Bool) :
    (a.count speaking).vadBuffer = a.vadBuffer := by
  unfold count
  cases speaking <;> cases a.vadState <;> rfl

/-- The `while` loop of `_run_analyzer`. -/
def drain (a : VADAnalyzer μ) : VADAnalyzer μ :=
  if _h : s.numRequiredBytes ≤ a.vadBuffer.length then
    let audioFrames := a.vadBuffer.take s.numRequiredBytes
    let heard := hears a.model audioFrames
    drain ({ a with
      vadBuffer := a.vadBuffer.drop s.numRequiredBytes
      model := heard.2 }.count heard.1)
  else a
termination_by a.vadBuffer.length
decreasing_by
  have hpos := s.numRequiredBytes_pos
  rw [count_vadBuffer, List.length_drop]
  omega

/-- What `_run_analyzer` does after its loop. -/
def confirm (a : VADAnalyzer μ) : VADAnalyzer μ :=
  let a := if a.vadState = .starting ∧ s.startFrames ≤ a.startingCount then
    { a with vadState := .speaking, startingCount := 0 } else a
  if a.vadState = .stopping ∧ s.stopFrames ≤ a.stoppingCount then
    { a with vadState := .quiet, stoppingCount := 0 } else a

/-- `_run_analyzer`; it returns the state it leaves. -/
def runAnalyzer (a : VADAnalyzer μ) (buffer : List UInt8) : VADAnalyzer μ :=
  let a := { a with vadBuffer := a.vadBuffer ++ buffer }
  if a.vadBuffer.length < s.numRequiredBytes then a
  else (a.drain s hears).confirm s

end VADAnalyzer

/-! ## The controller -/

/-- What the controller's handlers are called with. -/
inductive VADEvent where
  | speechStarted
  | speechStopped
  | speechActivity
  deriving DecidableEq

/-- Where the processing of an audio frame is: before it, in the executor with
the state it began in, or at the event of the state it is about to leave. -/
inductive VADPhase where
  | rest
  | analyzing (audio : List UInt8) (vadState : VADState)
  | reporting (vadState : VADState)
  deriving DecidableEq

structure VADController (μ : Type) where
  vadAnalyzer : VADAnalyzer μ
  vadState : VADState
  phase : VADPhase
  events : List VADEvent

/-- What can come next: a frame, the end of its analysis, the end of the
handlers it called, no audio for `audio_idle_timeout` and new parameters. -/
inductive VADAction where
  | audio (audio : List UInt8)
  | analyzed
  | reported
  | idle
  | updateParams

/-- `_handle_vad` on the analyzer's state: what it reports and what it returns. -/
def handleVad (newVadState vadState : VADState) : List VADEvent × VADState :=
  if newVadState ≠ vadState ∧ newVadState ≠ .starting ∧ newVadState ≠ .stopping then
    (if newVadState = .speaking then [.speechStarted] else [.speechStopped], newVadState)
  else ([], vadState)

namespace VADController

/-- After `_start`. -/
def start (m : μ) : VADController μ := ⟨⟨[], m, .quiet, 0, 0⟩, .quiet, .rest, []⟩

/-- One step; frames wait until the one before them is done with. -/
def step (c : VADController μ) : VADAction → VADController μ
  | .audio audio =>
    if c.phase = .rest then { c with phase := .analyzing audio c.vadState } else c
  | .analyzed =>
    match c.phase with
    | .analyzing audio vadState =>
      let a := c.vadAnalyzer.runAnalyzer s hears audio
      let handled := handleVad a.vadState vadState
      { c with
        vadAnalyzer := a
        phase := .reporting handled.2
        events := c.events ++ handled.1 }
    | _ => c
  | .reported =>
    match c.phase with
    | .reporting vadState =>
      { c with
        vadState := vadState
        phase := .rest
        events := c.events ++ if vadState = .speaking then [.speechActivity] else [] }
    | _ => c
  | .idle =>
    if c.vadState = .speaking then
      { c with vadState := .quiet, events := c.events ++ [.speechStopped] }
    else c
  | .updateParams =>
    if c.phase = .rest then { c with vadAnalyzer := c.vadAnalyzer.setParams } else c

def run (c : VADController μ) (actions : List VADAction) : VADController μ :=
  actions.foldl (step s hears) c

/-- `_handle_audio` with nothing in between. -/
def handleAudio (c : VADController μ) (audio : List UInt8) : VADController μ :=
  c.run s hears [.audio audio, .analyzed, .reported]

/-- A caller's audio, chunk by chunk. -/
def hear (c : VADController μ) (chunks : List (List UInt8)) : VADController μ :=
  chunks.foldl (handleAudio s hears) c

end VADController

/-! ## What the analyzer hears -/

/-- Voiced or unvoiced, how many windows in a row it takes. -/
def VADSettings.thresholds : Thresholds where
  need b := max 1 (if b then s.startFrames else s.stopFrames)
  pos _ := Nat.lt_of_lt_of_le Nat.one_pos (Nat.le_max_left ..)

/-- The analyzer's state between two sides: on one of them, with some windows of
the other at the end. -/
def VADState.of (side : Bool) (others : ℕ) : VADState :=
  match side with
  | true => if others = 0 then .speaking else .stopping
  | false => if others = 0 then .quiet else .starting

theorem VADState.of_eq_speaking {side : Bool} : VADState.of side 0 = .speaking ↔ side = true := by
  cases side <;> decide

namespace VADAnalyzer

def counted (a : VADAnalyzer μ) (side : Bool) : ℕ :=
  if side then a.stoppingCount else a.startingCount

/-- The counts are those of all windows so far. -/
structure Tracks (a : VADAnalyzer μ) (side : Bool) (heard : List Bool) : Prop where
  vadState : a.vadState = .of side (trailing (!side) heard)
  counted : trailing (!side) heard ≠ 0 → a.counted side = trailing (!side) heard

variable {s} {hears} {a : VADAnalyzer μ} {side : Bool} {heard : List Bool}

theorem Tracks.held (h : a.Tracks side heard) (buffer : List UInt8) (m : μ) :
    { a with vadBuffer := buffer, model := m }.Tracks side heard :=
  ⟨h.vadState, h.counted⟩

/-- One window more of the other side. -/
theorem count_other {n : ℕ} (hstate : a.vadState = .of side n) (hcount : n ≠ 0 → a.counted side = n) :
    (a.count !side).vadState = .of side (n + 1) ∧ (a.count !side).counted side = n + 1 := by
  by_cases hzero : n = 0
  · subst hzero
    cases side <;> simp_all [VADAnalyzer.count, VADState.of, VADAnalyzer.counted]
  · have hcount := hcount hzero
    cases side <;> simp_all [VADAnalyzer.count, VADState.of, VADAnalyzer.counted]

/-- A window of the same side ends the count. -/
theorem count_same {n : ℕ} (hstate : a.vadState = .of side n) :
    (a.count side).vadState = .of side 0 := by
  by_cases hzero : n = 0
  · cases side <;> simp_all [VADAnalyzer.count, VADState.of]
  · cases side <;> simp_all [VADAnalyzer.count, VADState.of]

theorem Tracks.count (h : a.Tracks side heard) (d : Bool) :
    (a.count d).Tracks side (heard ++ [d]) := by
  by_cases hd : d = !side
  · subst hd
    have hmore : trailing (!side) (heard ++ [!side]) = trailing (!side) heard + 1 := by
      rw [trailing_concat, if_pos rfl]
    obtain ⟨hstate, hcount⟩ := count_other h.vadState h.counted
    rw [← hmore] at hstate hcount
    exact ⟨hstate, fun _ => hcount⟩
  · have hnone : trailing (!side) (heard ++ [d]) = 0 := by
      rw [trailing_concat, if_neg hd]
    have hside : d = side := by
      cases d <;> cases side <;> simp_all
    constructor
    · rw [hnone, hside]
      exact count_same h.vadState
    · intro hsome
      exact absurd hnone hsome

theorem Tracks.counts (h : a.Tracks side heard) (ds : List Bool) :
    (ds.foldl VADAnalyzer.count a).Tracks side (heard ++ ds) := by
  induction ds generalizing a heard with
  | nil => simpa using h
  | cons d ds ih =>
    have hrest := ih (h.count d)
    rwa [List.append_assoc] at hrest

theorem count_held (a : VADAnalyzer μ) (buffer : List UInt8) (m : μ) (d : Bool) :
    { a with vadBuffer := buffer, model := m }.count d =
      { a.count d with vadBuffer := buffer, model := m } := by
  obtain ⟨_, _, vadState, _, _⟩ := a
  cases d <;> cases vadState <;> rfl

theorem foldl_count_held (a : VADAnalyzer μ) (buffer : List UInt8) (m : μ) (ds : List Bool) :
    ds.foldl VADAnalyzer.count { a with vadBuffer := buffer, model := m } =
      { ds.foldl VADAnalyzer.count a with vadBuffer := buffer, model := m } := by
  induction ds generalizing a with
  | nil => rfl
  | cons d ds ih => rw [List.foldl_cons, count_held, ih, List.foldl_cons]

/-- The loop reads the windows of what is held and counts what is said of them. -/
theorem drain_eq (a : VADAnalyzer μ) :
    a.drain s hears =
      { (scan s.numRequiredBytes hears a.model a.vadBuffer).1.foldl VADAnalyzer.count a with
        model := (scan s.numRequiredBytes hears a.model a.vadBuffer).2.1
        vadBuffer := (scan s.numRequiredBytes hears a.model a.vadBuffer).2.2 } := by
  induction a using (measure fun a : VADAnalyzer μ => a.vadBuffer.length).wf.induction with
  | _ a ih =>
    have hpos := s.numRequiredBytes_pos
    by_cases hlong : s.numRequiredBytes ≤ a.vadBuffer.length
    · rw [drain, dif_pos hlong, scan_of_long hpos a.model hlong]
      dsimp only
      rw [ih _ ?_, count_held, foldl_count_held]
      · rfl
      · show (VADAnalyzer.count _ _).vadBuffer.length < a.vadBuffer.length
        rw [count_vadBuffer, List.length_drop]
        omega
    · rw [drain, dif_neg hlong, scan_of_short a.model (Nat.lt_of_not_le hlong)]
      rfl

/-- Enough windows of the other side. -/
theorem confirm_of_need {n : ℕ} (hstate : a.vadState = .of side n) (hcount : a.counted side = n)
    (hneed : s.thresholds.need (!side) ≤ n) : (a.confirm s).vadState = .of (!side) 0 := by
  have hpos := s.thresholds.pos (!side)
  have hzero : n ≠ 0 := by omega
  cases side with
  | false =>
    have hstarting : a.vadState = .starting := by simpa [VADState.of, hzero] using hstate
    have hframes : s.startFrames ≤ a.startingCount := by
      rw [show a.startingCount = n from hcount]
      exact (Nat.le_max_right 1 _).trans hneed
    simp [VADAnalyzer.confirm, hstarting, hframes, VADState.of]
  | true =>
    have hstopping : a.vadState = .stopping := by simpa [VADState.of, hzero] using hstate
    have hframes : s.stopFrames ≤ a.stoppingCount := by
      rw [show a.stoppingCount = n from hcount]
      exact (Nat.le_max_right 1 _).trans hneed
    simp [VADAnalyzer.confirm, hstopping, hframes, VADState.of]

/-- Too few of them. -/
theorem confirm_of_short {n : ℕ} (hstate : a.vadState = .of side n)
    (hcount : n ≠ 0 → a.counted side = n) (hshort : n < s.thresholds.need (!side)) :
    a.confirm s = a := by
  by_cases hzero : n = 0
  · subst hzero
    cases side <;> simp_all [VADAnalyzer.confirm, VADState.of]
  · have hcount := hcount hzero
    cases side with
    | false =>
      have hframes : ¬ s.startFrames ≤ a.startingCount := by
        have hmax : n < max 1 s.startFrames := hshort
        rw [show a.startingCount = n from hcount]
        omega
      have hstarting : a.vadState = .starting := by simpa [VADState.of, hzero] using hstate
      simp only [VADAnalyzer.confirm, hstarting, hframes, reduceCtorEq, false_and, and_false,
        if_false]
    | true =>
      have hframes : ¬ s.stopFrames ≤ a.stoppingCount := by
        have hmax : n < max 1 s.stopFrames := hshort
        rw [show a.stoppingCount = n from hcount]
        omega
      have hstopping : a.vadState = .stopping := by simpa [VADState.of, hzero] using hstate
      simp only [VADAnalyzer.confirm, hstopping, hframes, reduceCtorEq, false_and, and_false,
        if_false]

/-- After the counts are looked at, the side is that of all windows so far. -/
theorem Tracks.confirm (h : a.Tracks side heard) :
    (a.confirm s).Tracks (check s.thresholds side heard) heard := by
  by_cases hneed : s.thresholds.need (!side) ≤ trailing (!side) heard
  · have hpos := s.thresholds.pos (!side)
    have hzero : trailing (! !side) heard = 0 := trailing_not (by omega)
    rw [check, if_pos hneed]
    constructor
    · rw [hzero]
      exact confirm_of_need h.vadState (h.counted (by omega)) hneed
    · intro hsome
      exact absurd hzero hsome
  · rw [check, if_neg hneed, confirm_of_short h.vadState h.counted (Nat.lt_of_not_le hneed)]
    exact h

@[simp] theorem confirm_vadBuffer (a : VADAnalyzer μ) : (a.confirm s).vadBuffer = a.vadBuffer := by
  simp only [VADAnalyzer.confirm]
  split <;> split <;> rfl

@[simp] theorem confirm_model (a : VADAnalyzer μ) : (a.confirm s).model = a.model := by
  simp only [VADAnalyzer.confirm]
  split <;> split <;> rfl

/-- Between two frames: the counts are those of the windows heard, they have
been looked at, and less than a window waits. -/
structure Follows (s : VADSettings) (a : VADAnalyzer μ) (side : Bool) (heard : List Bool) : Prop where
  tracks : a.Tracks side heard
  settled : check s.thresholds side heard = side
  waits : a.vadBuffer.length < s.numRequiredBytes

/-- What a chunk lets the analyzer hear. -/
def heardIn (s : VADSettings) (hears : μ → List UInt8 → Bool × μ) (a : VADAnalyzer μ)
    (buffer : List UInt8) : List Bool × μ × List UInt8 :=
  scan s.numRequiredBytes hears a.model (a.vadBuffer ++ buffer)

theorem runAnalyzer_held (a : VADAnalyzer μ) (buffer : List UInt8) :
    (a.runAnalyzer s hears buffer).model = (a.heardIn s hears buffer).2.1 ∧
      (a.runAnalyzer s hears buffer).vadBuffer = (a.heardIn s hears buffer).2.2 := by
  unfold runAnalyzer heardIn
  dsimp only
  split
  · rename_i hshort
    rw [scan_of_short a.model hshort]
    exact ⟨rfl, rfl⟩
  · rw [confirm_model, confirm_vadBuffer, drain_eq]
    exact ⟨rfl, rfl⟩

/-- **One chunk.** Whatever it holds, the side is checked once, over all windows
so far. -/
theorem Follows.runAnalyzer (h : a.Follows s side heard) (buffer : List UInt8) :
    (a.runAnalyzer s hears buffer).Follows s
      (check s.thresholds side (heard ++ (a.heardIn s hears buffer).1))
      (heard ++ (a.heardIn s hears buffer).1) where
  tracks := by
    unfold VADAnalyzer.runAnalyzer heardIn
    dsimp only
    split
    · rename_i hshort
      rw [scan_of_short a.model hshort, List.append_nil, h.settled]
      exact h.tracks.held _ _
    · rw [drain_eq]
      apply Tracks.confirm
      apply Tracks.held
      exact (h.tracks.held _ _).counts _
  settled := check_check ..
  waits := by
    rw [(runAnalyzer_held a buffer).2]
    exact length_scan_left_lt s.numRequiredBytes_pos ..

end VADAnalyzer

/-! ## What the controller reports -/

/-- The event of a change of sides. -/
def VADEvent.of (side : Bool) : VADEvent := if side then .speechStarted else .speechStopped

/-- What is reported after a chunk. -/
def report (before after : Bool) : List VADEvent :=
  (if after = before then [] else [.of after]) ++ if after then [.speechActivity] else []

namespace VADController

/-- A controller between two frames, on the analyzer's side. -/
structure Listens (s : VADSettings) (c : VADController μ) (side : Bool) (heard : List Bool) :
    Prop where
  rest : c.phase = .rest
  vadState : c.vadState = .of side 0
  follows : c.vadAnalyzer.Follows s side heard

variable {s} {hears} {c : VADController μ} {side : Bool} {heard : List Bool}

theorem handleVad_of {before after : Bool} {n : ℕ} (h : after ≠ before → n = 0) :
    handleVad (.of after n) (.of before 0) =
      (if after = before then [] else [.of after], .of after 0) := by
  by_cases hsame : after = before
  · subst hsame
    by_cases hzero : n = 0
    · subst hzero
      cases after <;> rfl
    · cases after <;> simp [handleVad, VADState.of, hzero]
  · rw [h hsame, if_neg hsame]
    cases after <;> cases before <;> first | rfl | exact absurd rfl hsame

theorem Listens.handleAudio (h : c.Listens s side heard) (audio : List UInt8) :
    let r := c.vadAnalyzer.heardIn s hears audio
    let after := check s.thresholds side (heard ++ r.1)
    (c.handleAudio s hears audio).Listens s after (heard ++ r.1) ∧
      (c.handleAudio s hears audio).vadAnalyzer.model = r.2.1 ∧
      (c.handleAudio s hears audio).vadAnalyzer.vadBuffer = r.2.2 ∧
      (c.handleAudio s hears audio).events = c.events ++ report side after := by
  intro r after
  have hfollows : (c.vadAnalyzer.runAnalyzer s hears audio).Follows s after (heard ++ r.1) :=
    h.follows.runAnalyzer audio
  have hheld : (c.vadAnalyzer.runAnalyzer s hears audio).model = r.2.1 ∧
      (c.vadAnalyzer.runAnalyzer s hears audio).vadBuffer = r.2.2 :=
    VADAnalyzer.runAnalyzer_held c.vadAnalyzer audio
  -- after a change of sides no window of the other one has been heard
  have hnone : after ≠ side → trailing (!after) (heard ++ r.1) = 0 := by
    intro hchange
    apply trailing_not
    have hneed : s.thresholds.need (!side) ≤ trailing (!side) (heard ++ r.1) := by
      by_contra hshort
      exact hchange (if_neg hshort)
    have hafter : after = !side := if_pos hneed
    rw [hafter]
    exact Nat.lt_of_lt_of_le (s.thresholds.pos _) hneed
  have hhandled : handleVad (c.vadAnalyzer.runAnalyzer s hears audio).vadState c.vadState =
      (if after = side then [] else [.of after], .of after 0) := by
    rw [hfollows.tracks.vadState, h.vadState]
    exact handleVad_of hnone
  have hrun : c.handleAudio s hears audio =
      { vadAnalyzer := c.vadAnalyzer.runAnalyzer s hears audio
        vadState := .of after 0
        phase := .rest
        events := c.events ++ report side after } := by
    simp only [VADController.handleAudio, run, List.foldl_cons, List.foldl_nil, step, h.rest, if_true,
      hhandled, VADState.of_eq_speaking, report, List.append_assoc]
  rw [hrun]
  exact ⟨⟨rfl, rfl, hfollows⟩, hheld.1, hheld.2, rfl⟩

theorem Listens.start (m : μ) :
    (VADController.start m).Listens s false [] := by
  refine ⟨rfl, rfl, ⟨rfl, fun h => absurd rfl h⟩, ?_, s.numRequiredBytes_pos⟩
  exact if_neg (Nat.not_le.mpr (s.thresholds.pos _))

/-- A controller that has heard a stream. -/
structure Heard (s : VADSettings) (hears : μ → List UInt8 → Bool × μ) (m : μ)
    (c : VADController μ) (side : Bool) (stream : List UInt8) : Prop where
  listens : c.Listens s side (scan s.numRequiredBytes hears m stream).1
  model : c.vadAnalyzer.model = (scan s.numRequiredBytes hears m stream).2.1
  vadBuffer : c.vadAnalyzer.vadBuffer = (scan s.numRequiredBytes hears m stream).2.2

theorem Heard.handleAudio {m : μ} {stream : List UInt8} (h : c.Heard s hears m side stream)
    (audio : List UInt8) :
    let after := check s.thresholds side (scan s.numRequiredBytes hears m (stream ++ audio)).1
    (c.handleAudio s hears audio).Heard s hears m after (stream ++ audio) ∧
      (c.handleAudio s hears audio).events = c.events ++ report side after := by
  intro after
  have hscan : scan s.numRequiredBytes hears m (stream ++ audio) =
      ((scan s.numRequiredBytes hears m stream).1 ++ (c.vadAnalyzer.heardIn s hears audio).1,
        (c.vadAnalyzer.heardIn s hears audio).2) := by
    rw [scan_append s.numRequiredBytes_pos, VADAnalyzer.heardIn, h.model, h.vadBuffer]
  obtain ⟨hlistens, hmodel, hbuffer, hevents⟩ :=
    h.listens.handleAudio audio
  have hafter : after = check s.thresholds side ((scan s.numRequiredBytes hears m stream).1 ++
      (c.vadAnalyzer.heardIn s hears audio).1) := by
    show check _ _ (scan _ _ _ _).1 = _
    rw [hscan]
  rw [← hafter] at hlistens hevents
  refine ⟨⟨?_, ?_, ?_⟩, hevents⟩
  · rw [hscan]
    exact hlistens
  · rw [hscan]
    exact hmodel
  · rw [hscan]
    exact hbuffer

theorem hear_concat (c : VADController μ) (chunks : List (List UInt8)) (chunk : List UInt8) :
    c.hear s hears (chunks ++ [chunk]) = (c.hear s hears chunks).handleAudio s hears chunk := by
  rw [hear, List.foldl_append]
  rfl

theorem exists_heard (m : μ) (chunks : List (List UInt8)) :
    ∃ side, ((start m).hear s hears chunks).Heard s hears m side chunks.flatten := by
  induction chunks using List.reverseRecOn with
  | nil =>
    have hscan : scan s.numRequiredBytes hears m [] = ([], m, []) :=
      scan_of_short m s.numRequiredBytes_pos
    refine ⟨false, ?_, ?_, ?_⟩
    · rw [List.flatten_nil, hscan]
      exact Listens.start m
    · rw [List.flatten_nil, hscan]
      rfl
    · rw [List.flatten_nil, hscan]
      rfl
  | append_singleton chunks chunk ih =>
    obtain ⟨side, hheard⟩ := ih
    rw [hear_concat, List.flatten_append, List.flatten_singleton]
    exact ⟨_, (hheard.handleAudio chunk).1⟩

def speaks (c : VADController μ) : Bool := c.vadState = .speaking

theorem Heard.speaks {m : μ} {stream : List UInt8} (h : c.Heard s hears m side stream) :
    c.speaks = side := by
  rw [VADController.speaks, h.listens.vadState]
  cases side <;> rfl

/-- **What the caller is heard to do.** However the audio is cut into chunks,
after each of them the controller has looked once at the windows of the whole
stream so far: it takes the caller for speaking or not by the last of them and
by what it took them for before, and it reports the change, if there is one,
and that they speak, while they do. -/
theorem hears_caller (s : VADSettings) (hears : μ → List UInt8 → Bool × μ) (m : μ)
    (chunks : List (List UInt8)) (chunk : List UInt8) :
    let before := (start m).hear s hears chunks
    let after := (start m).hear s hears (chunks ++ [chunk])
    let heard := (scan s.numRequiredBytes hears m (chunks ++ [chunk]).flatten).1
    after.speaks = check s.thresholds before.speaks heard ∧
      after.events = before.events ++ report before.speaks after.speaks := by
  intro before after heard
  obtain ⟨side, hbefore⟩ := exists_heard m chunks
  obtain ⟨hafter, hevents⟩ := hbefore.handleAudio chunk
  rw [← hear_concat] at hafter hevents
  have hheard : heard = (scan s.numRequiredBytes hears m (chunks.flatten ++ chunk)).1 := by
    show (scan _ _ _ (chunks ++ [chunk]).flatten).1 = _
    rw [List.flatten_append, List.flatten_singleton]
  rw [hafter.speaks, hbefore.speaks, hheard]
  exact ⟨rfl, hevents⟩

/-! ## How long a voice must be -/

/-- What is said of the windows, chunk by chunk. -/
def calls (s : VADSettings) (hears : μ → List UInt8 → Bool × μ) :
    μ → List UInt8 → List (List UInt8) → List (List Bool)
  | _, _, [] => []
  | m, held, chunk :: chunks =>
    let r := scan s.numRequiredBytes hears m (held ++ chunk)
    r.1 :: calls s hears r.2.1 r.2.2 chunks

theorem flatten_calls (m : μ) {held : List UInt8} (hheld : held.length < s.numRequiredBytes)
    (chunks : List (List UInt8)) : (calls s hears m held chunks).flatten =
      (scan s.numRequiredBytes hears m (held ++ chunks.flatten)).1 := by
  induction chunks generalizing m held with
  | nil => rw [List.flatten_nil, List.append_nil, scan_of_short m hheld, calls, List.flatten_nil]
  | cons chunk chunks ih =>
    rw [calls, List.flatten_cons, ih _ (length_scan_left_lt s.numRequiredBytes_pos ..),
      List.flatten_cons, ← List.append_assoc,
      scan_append s.numRequiredBytes_pos m (held ++ chunk) chunks.flatten]

theorem bounded_calls (m : μ) {held : List UInt8} (hheld : held.length < s.numRequiredBytes)
    {k : ℕ} {chunks : List (List UInt8)}
    (hchunks : ∀ chunk ∈ chunks, chunk.length ≤ k * s.numRequiredBytes) :
    Bounded k (calls s hears m held chunks) := by
  induction chunks generalizing m held with
  | nil =>
    intro call hcall
    cases hcall
  | cons chunk chunks ih =>
    intro call hcall
    rw [List.forall_mem_cons] at hchunks
    rw [calls] at hcall
    cases hcall with
    | head => exact length_scan_le s.numRequiredBytes_pos m hheld hchunks.1
    | tail _ hlater =>
      exact ih _ (length_scan_left_lt s.numRequiredBytes_pos ..) hchunks.2 call hlater

theorem step_events (c : VADController μ) (action : VADAction) :
    c.events <+: (c.step s hears action).events := by
  cases action with
  | audio audio =>
    rw [step]
    split <;> exact List.prefix_rfl
  | analyzed =>
    rw [step]
    split
    · exact List.prefix_append ..
    · exact List.prefix_rfl
  | reported =>
    rw [step]
    split
    · exact List.prefix_append ..
    · exact List.prefix_rfl
  | idle =>
    rw [step]
    split
    · exact List.prefix_append ..
    · exact List.prefix_rfl
  | updateParams =>
    rw [step]
    split <;> exact List.prefix_rfl

theorem run_events (c : VADController μ) (actions : List VADAction) :
    c.events <+: (c.run s hears actions).events := by
  induction actions generalizing c with
  | nil => exact List.prefix_rfl
  | cons action actions ih => exact (step_events c action).trans (ih _)

theorem hear_events (c : VADController μ) (chunks : List (List UInt8)) :
    c.events <+: (c.hear s hears chunks).events := by
  induction chunks generalizing c with
  | nil => exact List.prefix_rfl
  | cons chunk chunks ih => exact (run_events c _).trans (ih _)

theorem not_mem_report (b : Bool) : VADEvent.of b ∉ report (!b) (!b) := by
  cases b <;> decide

/-- A change of sides is reported if the calls make one. -/
theorem mem_events_iff {b : Bool} (h : c.Listens s (!b) heard) (hnew : VADEvent.of b ∉ c.events)
    (chunks : List (List UInt8)) :
    VADEvent.of b ∈ (c.hear s hears chunks).events ↔
      ∃ before, before <+: calls s hears c.vadAnalyzer.model c.vadAnalyzer.vadBuffer chunks ∧
        settle s.thresholds heard (!b) before = b := by
  induction chunks generalizing c heard with
  | nil =>
    constructor
    · intro hmem
      exact absurd hmem hnew
    · rintro ⟨before, hprefix, hsettle⟩
      rw [List.prefix_nil.mp hprefix] at hsettle
      cases b <;> cases hsettle
  | cons chunk chunks ih =>
    let r := c.vadAnalyzer.heardIn s hears chunk
    obtain ⟨hlistens, hmodel, hbuffer, hevents⟩ :
        (c.handleAudio s hears chunk).Listens s (check s.thresholds (!b) (heard ++ r.1))
            (heard ++ r.1) ∧
          (c.handleAudio s hears chunk).vadAnalyzer.model = r.2.1 ∧
          (c.handleAudio s hears chunk).vadAnalyzer.vadBuffer = r.2.2 ∧
          (c.handleAudio s hears chunk).events =
            c.events ++ report (!b) (check s.thresholds (!b) (heard ++ r.1)) :=
      h.handleAudio chunk
    have hcalls : calls s hears c.vadAnalyzer.model c.vadAnalyzer.vadBuffer (chunk :: chunks) =
        r.1 :: calls s hears r.2.1 r.2.2 chunks := rfl
    rw [hcalls]
    by_cases hswitch : check s.thresholds (!b) (heard ++ r.1) = b
    · constructor
      · intro _
        exact ⟨[r.1], List.prefix_append [r.1] _, hswitch⟩
      · intro _
        apply (hear_events _ chunks).subset
        rw [hevents, hswitch]
        apply List.mem_append_right
        cases b <;> decide
    · have hstay : check s.thresholds (!b) (heard ++ r.1) = !b := by
        cases b <;> simpa using hswitch
      rw [hstay] at hlistens hevents
      have hnew' : VADEvent.of b ∉ (c.handleAudio s hears chunk).events := by
        rw [hevents, List.mem_append]
        exact not_or_intro hnew (not_mem_report b)
      have hrest := ih hlistens hnew'
      rw [hmodel, hbuffer] at hrest
      refine hrest.trans ?_
      constructor
      · rintro ⟨before, hprefix, hsettle⟩
        refine ⟨r.1 :: before, List.prefix_cons_inj r.1 |>.mpr hprefix, ?_⟩
        rw [settle, hstay]
        exact hsettle
      · rintro ⟨before, hprefix, hsettle⟩
        cases before with
        | nil => cases b <;> cases hsettle
        | cons call before =>
          obtain ⟨rfl, hrest⟩ := List.cons_prefix_cons.mp hprefix
          rw [settle, hstay] at hsettle
          exact ⟨before, hrest, hsettle⟩

end VADController

/-- Ears that say what they are told beforehand. -/
def replay (decisions : List Bool) (_window : List UInt8) : Bool × List Bool :=
  (decisions.headD false, decisions.tail)

theorem scan_replay {width : ℕ} (hwidth : 0 < width) {decisions : List Bool} {xs : List UInt8}
    (h : (scan width replay decisions xs).1.length ≤ decisions.length) :
    (scan width replay decisions xs).1 ++ (scan width replay decisions xs).2.1 = decisions := by
  induction decisions generalizing xs with
  | nil =>
    by_cases hlong : width ≤ xs.length
    · rw [scan_of_long hwidth _ hlong] at h
      cases h
    · rw [scan_of_short _ (Nat.lt_of_not_le hlong)]
      rfl
  | cons d decisions ih =>
    by_cases hlong : width ≤ xs.length
    · rw [scan_of_long hwidth _ hlong] at h ⊢
      exact congrArg (d :: ·) (ih (Nat.le_of_succ_le_succ h))
    · rw [scan_of_short _ (Nat.lt_of_not_le hlong)]
      rfl

/-- Any calls are those of some chunks, and of ears that hear them so. -/
theorem calls_replay {held : List UInt8} (hheld : held.length < s.numRequiredBytes)
    (cs : List (List Bool)) :
    VADController.calls s replay cs.flatten held
      (cs.map fun call => List.replicate (call.length * s.numRequiredBytes) 0) = cs := by
  induction cs generalizing held with
  | nil => rfl
  | cons call cs ih =>
    have hpos := s.numRequiredBytes_pos
    let chunk : List UInt8 := List.replicate (call.length * s.numRequiredBytes) 0
    let r := scan s.numRequiredBytes replay (call ++ cs.flatten) (held ++ chunk)
    have hlength : r.1.length = call.length :=
      length_scan_windows hpos _ hheld List.length_replicate
    have happ : r.1 ++ r.2.1 = call ++ cs.flatten := by
      apply scan_replay hpos
      show r.1.length ≤ _
      rw [hlength, List.length_append]
      omega
    obtain ⟨hcall, hrest⟩ := List.append_inj happ hlength
    have hcalls : VADController.calls s replay (call :: cs).flatten held
        ((call :: cs).map fun call => List.replicate (call.length * s.numRequiredBytes) 0) =
        r.1 :: VADController.calls s replay r.2.1 r.2.2
          (cs.map fun call => List.replicate (call.length * s.numRequiredBytes) 0) := rfl
    rw [hcalls, hcall, hrest, ih (length_scan_left_lt hpos ..)]

/-- **How long a voice, or a silence, must be.** A controller is on the other
side. Among windows of that side come `L` of this one. That this is reported,
for all chunks of at most `k + 1` windows, whatever they hold and wherever they
begin and end, takes `k` windows more than the settings ask for, and no more
than that. -/
theorem reported_iff (s : VADSettings) (b : Bool) (n L m k : ℕ) :
    (∀ (μ : Type) (hears : μ → List UInt8 → Bool × μ) (c : VADController μ)
        (chunks : List (List UInt8)), c.Listens s (!b) [] → c.events = [] →
        (∀ chunk ∈ chunks, chunk.length ≤ (k + 1) * s.numRequiredBytes) →
        (scan s.numRequiredBytes hears c.vadAnalyzer.model
            (c.vadAnalyzer.vadBuffer ++ chunks.flatten)).1 =
          List.replicate n (!b) ++ List.replicate L b ++ List.replicate (m + 1) (!b) →
        VADEvent.of b ∈ (c.hear s hears chunks).events) ↔
      s.thresholds.need b + k ≤ L := by
  have hswitches := switches_iff (t := s.thresholds) (trailing_nil b) (Nat.succ_pos k) n L m
  have hle : s.thresholds.need b + k ≤ L ↔ s.thresholds.need b + k.succ ≤ L + 1 := by omega
  rw [hle, ← hswitches]
  constructor
  · intro h cs hbounded hflatten
    -- a controller on the other side, and ears that hear these calls
    let c : VADController (List Bool) :=
      ⟨⟨[], cs.flatten, .of (!b) 0, 0, 0⟩, .of (!b) 0, .rest, []⟩
    have hlistens : c.Listens s (!b) [] :=
      ⟨rfl, rfl, ⟨rfl, fun h => absurd rfl h⟩, if_neg (Nat.not_le.mpr (s.thresholds.pos _)),
        s.numRequiredBytes_pos⟩
    let chunks : List (List UInt8) :=
      cs.map fun call => List.replicate (call.length * s.numRequiredBytes) 0
    have hcalls : VADController.calls s replay cs.flatten [] chunks = cs :=
      calls_replay s hlistens.follows.waits cs
    have hmem : VADEvent.of b ∈ (c.hear s replay chunks).events := by
      apply h (List Bool) replay c chunks hlistens rfl
      · intro chunk hchunk
        obtain ⟨call, hcall, rfl⟩ := List.mem_map.mp hchunk
        rw [List.length_replicate]
        exact Nat.mul_le_mul_right _ (hbounded call hcall)
      · rw [← VADController.flatten_calls _ hlistens.follows.waits, hcalls, hflatten]
    rw [VADController.mem_events_iff hlistens List.not_mem_nil, hcalls] at hmem
    exact hmem
  · intro h μ hears c chunks hlistens hevents hchunks hheard
    have hwaits := hlistens.follows.waits
    have hbounded : Bounded (k + 1)
        (VADController.calls s hears c.vadAnalyzer.model c.vadAnalyzer.vadBuffer chunks) :=
      VADController.bounded_calls _ hwaits hchunks
    rw [← VADController.flatten_calls _ hwaits] at hheard
    rw [VADController.mem_events_iff hlistens (by rw [hevents]; exact List.not_mem_nil)]
    exact h _ hbounded hheard

/-- The browser sends 4096 samples at once, 16 windows at the bot's 8 kHz: not
the 12 windows of `start_secs` but 27 are what it takes to be heard for sure. -/
example (L : ℕ) : (VADSettings.mk 8000 12 25).thresholds.need true + 15 ≤ L ↔ 27 ≤ L := Iff.rfl

/-! ## When audio stops while a frame is analyzed -/

/-- Whether the caller speaks, for a listener to the events; `none` once one of
them makes no sense to it. -/
def listen (speaks : Bool) : VADEvent → Option Bool
  | .speechStarted => if speaks then none else some true
  | .speechStopped => if speaks then some false else none
  | .speechActivity => if speaks then some true else none

def listenAll (events : List VADEvent) : Option Bool := events.foldlM listen false

theorem listenAll_append (events more : List VADEvent) :
    listenAll (events ++ more) = (listenAll events).bind fun speaks => more.foldlM listen speaks := by
  rw [listenAll, List.foldlM_append]
  rfl

theorem listenAll_append_of_none {events : List VADEvent} (h : listenAll events = none)
    (more : List VADEvent) : listenAll (events ++ more) = none := by
  rw [listenAll_append, h]
  rfl

theorem listenAll_append_of_some {events : List VADEvent} {speaks : Bool}
    (h : listenAll events = some speaks) (more : List VADEvent) :
    listenAll (events ++ more) = more.foldlM listen speaks := by
  rw [listenAll_append, h]
  rfl

namespace VADController

variable {s} {hears} {c : VADController μ} {action : VADAction}

/-- The idle handler stops the speech while a frame is under way. -/
def CutsIn (c : VADController μ) (action : VADAction) : Prop :=
  action = .idle ∧ c.phase ≠ .rest ∧ c.vadState = .speaking

/-- What the frame under way was begun with, or is about to leave, is what the
listeners will know. -/
inductive Sound (c : VADController μ) : Prop
  | rest (side : Bool) : c.phase = .rest → c.vadState = .of side 0 →
      listenAll c.events = some side → Sound c
  | analyzing (audio : List UInt8) (side : Bool) : c.phase = .analyzing audio (.of side 0) →
      c.vadState = .of side 0 → listenAll c.events = some side → Sound c
  | reporting (side after : Bool) : c.phase = .reporting (.of after 0) → c.vadState = .of side 0 →
      listenAll c.events = some after → Sound c

/-- An event has made no sense, or the frame under way will bring one. -/
inductive Lost (c : VADController μ) : Prop
  | lost : listenAll c.events = none → Lost c
  | analyzing (audio : List UInt8) : c.phase = .analyzing audio .speaking → c.vadState = .quiet →
      listenAll c.events = some false → Lost c
  | reporting : c.phase = .reporting .speaking → c.vadState = .quiet →
      listenAll c.events = some false → Lost c

theorem exists_handleVad (newVadState : VADState) (side : Bool) :
    ∃ after, (handleVad newVadState (.of side 0)).2 = .of after 0 ∧
      (handleVad newVadState (.of side 0)).1.foldlM listen side = some after := by
  cases newVadState with
  | quiet =>
    refine ⟨false, ?_⟩
    cases side <;> decide
  | speaking =>
    refine ⟨true, ?_⟩
    cases side <;> decide
  | starting =>
    refine ⟨side, ?_⟩
    cases side <;> decide
  | stopping =>
    refine ⟨side, ?_⟩
    cases side <;> decide

theorem handleVad_speaking (newVadState : VADState) :
    handleVad newVadState .speaking = ([], .speaking) ∨
      handleVad newVadState .speaking = ([.speechStopped], .quiet) := by
  cases newVadState <;> decide

theorem Sound.step (h : c.Sound) (hfine : ¬ c.CutsIn action) : (c.step s hears action).Sound := by
  cases action with
  | audio audio =>
    rw [VADController.step]
    cases h with
    | rest side hrest hstate hlisten =>
      rw [if_pos hrest]
      exact .analyzing audio side (by rw [hstate]) hstate hlisten
    | analyzing audio' side hphase hstate hlisten =>
      rw [if_neg (by rw [hphase]; simp)]
      exact .analyzing audio' side hphase hstate hlisten
    | reporting side after hphase hstate hlisten =>
      rw [if_neg (by rw [hphase]; simp)]
      exact .reporting side after hphase hstate hlisten
  | analyzed =>
    rw [VADController.step]
    cases h with
    | rest side hrest hstate hlisten =>
      rw [hrest]
      exact .rest side hrest hstate hlisten
    | analyzing audio side hphase hstate hlisten =>
      rw [hphase]
      obtain ⟨after, hafter, hevents⟩ :=
        exists_handleVad (c.vadAnalyzer.runAnalyzer s hears audio).vadState side
      apply Sound.reporting side after
      · exact congrArg VADPhase.reporting hafter
      · exact hstate
      · exact (listenAll_append_of_some hlisten _).trans hevents
    | reporting side after hphase hstate hlisten =>
      rw [hphase]
      exact .reporting side after hphase hstate hlisten
  | reported =>
    rw [VADController.step]
    cases h with
    | rest side hrest hstate hlisten =>
      rw [hrest]
      exact .rest side hrest hstate hlisten
    | analyzing audio side hphase hstate hlisten =>
      rw [hphase]
      exact .analyzing audio side hphase hstate hlisten
    | reporting side after hphase hstate hlisten =>
      rw [hphase]
      apply Sound.rest after rfl rfl
      refine (listenAll_append_of_some hlisten _).trans ?_
      cases after <;> decide
  | idle =>
    rw [VADController.step]
    by_cases hspeaking : c.vadState = .speaking
    · rw [if_pos hspeaking]
      -- no frame is under way, or it would be cut in
      have hrest : c.phase = .rest := by
        by_contra hphase
        exact hfine ⟨rfl, hphase, hspeaking⟩
      cases h with
      | rest side _ hstate hlisten =>
        have hside : side = true := VADState.of_eq_speaking.mp (hstate.symm.trans hspeaking)
        rw [hside] at hlisten
        exact .rest false hrest rfl (listenAll_append_of_some hlisten _)
      | analyzing audio side hphase => exact absurd (hrest.symm.trans hphase) (by simp)
      | reporting side after hphase => exact absurd (hrest.symm.trans hphase) (by simp)
    · rw [if_neg hspeaking]
      exact h
  | updateParams =>
    rw [VADController.step]
    by_cases hrest : c.phase = .rest
    · rw [if_pos hrest]
      cases h with
      | rest side _ hstate hlisten => exact .rest side hrest hstate hlisten
      | analyzing audio side hphase => exact absurd (hrest.symm.trans hphase) (by simp)
      | reporting side after hphase => exact absurd (hrest.symm.trans hphase) (by simp)
    · rw [if_neg hrest]
      exact h

theorem Sound.cut (h : c.Sound) (hcut : c.CutsIn action) : (c.step s hears action).Lost := by
  obtain ⟨rfl, hphase, hspeaking⟩ := hcut
  rw [VADController.step, if_pos hspeaking]
  cases h with
  | rest side hrest => exact absurd hrest hphase
  | analyzing audio side hanalyzing hstate hlisten =>
    have hside : side = true := VADState.of_eq_speaking.mp (hstate.symm.trans hspeaking)
    subst hside
    exact .analyzing audio hanalyzing rfl (listenAll_append_of_some hlisten _)
  | reporting side after hreporting hstate hlisten =>
    cases after with
    | true => exact .reporting hreporting rfl (listenAll_append_of_some hlisten _)
    | false => exact .lost (listenAll_append_of_some hlisten _)

theorem Lost.step (h : c.Lost) : (c.step s hears action).Lost := by
  cases h with
  | lost hnone =>
    obtain ⟨more, hmore⟩ : c.events <+: (c.step s hears action).events := step_events c action
    apply Lost.lost
    rw [← hmore]
    exact listenAll_append_of_none hnone more
  | analyzing audio hphase hstate hlisten =>
    cases action with
    | audio audio' =>
      rw [VADController.step, if_neg (by rw [hphase]; simp)]
      exact .analyzing audio hphase hstate hlisten
    | analyzed =>
      rw [VADController.step, hphase]
      cases handleVad_speaking (c.vadAnalyzer.runAnalyzer s hears audio).vadState with
      | inl hspeaks =>
        apply Lost.reporting
        · exact congrArg (VADPhase.reporting ·.2) hspeaks
        · exact hstate
        · dsimp only
          rw [hspeaks]
          exact listenAll_append_of_some hlisten _
      | inr hstops =>
        apply Lost.lost
        dsimp only
        rw [hstops]
        exact listenAll_append_of_some hlisten _
    | reported =>
      rw [VADController.step, hphase]
      exact .analyzing audio hphase hstate hlisten
    | idle =>
      rw [VADController.step, if_neg (by rw [hstate]; decide)]
      exact .analyzing audio hphase hstate hlisten
    | updateParams =>
      rw [VADController.step, if_neg (by rw [hphase]; simp)]
      exact .analyzing audio hphase hstate hlisten
  | reporting hphase hstate hlisten =>
    cases action with
    | audio audio' =>
      rw [VADController.step, if_neg (by rw [hphase]; simp)]
      exact .reporting hphase hstate hlisten
    | analyzed =>
      rw [VADController.step, hphase]
      exact .reporting hphase hstate hlisten
    | reported =>
      rw [VADController.step, hphase]
      apply Lost.lost
      exact listenAll_append_of_some hlisten _
    | idle =>
      rw [VADController.step, if_neg (by rw [hstate]; decide)]
      exact .reporting hphase hstate hlisten
    | updateParams =>
      rw [VADController.step, if_neg (by rw [hphase]; simp)]
      exact .reporting hphase hstate hlisten

theorem run_concat (c : VADController μ) (actions : List VADAction) (action : VADAction) :
    c.run s hears (actions ++ [action]) = (c.run s hears actions).step s hears action := by
  rw [run, List.foldl_append]
  rfl

/-- In a run the idle handler stops the speech while a frame is under way. -/
def Overlapped (s : VADSettings) (hears : μ → List UInt8 → Bool × μ) (c : VADController μ)
    (actions : List VADAction) : Prop :=
  ∃ before action after, actions = before ++ action :: after ∧ (c.run s hears before).CutsIn action

theorem overlapped_concat {actions : List VADAction} :
    c.Overlapped s hears (actions ++ [action]) ↔
      c.Overlapped s hears actions ∨ (c.run s hears actions).CutsIn action := by
  constructor
  · rintro ⟨before, cut, after, hsplit, hcut⟩
    cases after using List.reverseRecOn with
    | nil =>
      obtain ⟨rfl, hlast⟩ := List.append_inj' hsplit rfl
      cases hlast
      exact .inr hcut
    | append_singleton after last =>
      rw [← List.cons_append, ← List.append_assoc] at hsplit
      obtain ⟨rfl, _⟩ := List.append_inj' hsplit rfl
      exact .inl ⟨before, cut, after, rfl, hcut⟩
  · rintro (⟨before, cut, after, rfl, hcut⟩ | hcut)
    · exact ⟨before, cut, after ++ [action], by simp, hcut⟩
    · exact ⟨actions, action, [], rfl, hcut⟩

theorem sound_or_lost (m : μ) (actions : List VADAction) :
    ¬ (start m).Overlapped s hears actions ∧ ((start m).run s hears actions).Sound ∨
      (start m).Overlapped s hears actions ∧ ((start m).run s hears actions).Lost := by
  induction actions using List.reverseRecOn with
  | nil =>
    refine .inl ⟨?_, .rest false rfl rfl rfl⟩
    rintro ⟨before, cut, after, hsplit, _⟩
    simp at hsplit
  | append_singleton actions action ih =>
    rw [overlapped_concat, run_concat]
    cases ih with
    | inl hsound =>
      obtain ⟨hnone, hsound⟩ := hsound
      by_cases hcut : ((start m).run s hears actions).CutsIn action
      · exact .inr ⟨.inr hcut, hsound.cut hcut⟩
      · exact .inl ⟨not_or_intro hnone hcut, hsound.step hcut⟩
    | inr hlost => exact .inr ⟨.inl hlost.1, hlost.2.step⟩

/-- **Starts and stops.** In any run, whenever no frame is under way: what the
controller has reported makes sense, and leaves its listeners with what the
controller takes the caller for, if and only if the idle handler has stopped no
speech while a frame was under way. After one that it has, they have been told
of a stop twice or of speech that had not started. -/
theorem reports_sound_iff (s : VADSettings) (hears : μ → List UInt8 → Bool × μ) (m : μ)
    (actions : List VADAction) (hrest : ((start m).run s hears actions).phase = .rest) :
    (listenAll ((start m).run s hears actions).events =
        some ((start m).run s hears actions).speaks ↔ ¬ (start m).Overlapped s hears actions) ∧
      (listenAll ((start m).run s hears actions).events = none ↔
        (start m).Overlapped s hears actions) := by
  have hcases : ¬ (start m).Overlapped s hears actions ∧ ((start m).run s hears actions).Sound ∨
      (start m).Overlapped s hears actions ∧ ((start m).run s hears actions).Lost :=
    sound_or_lost m actions
  cases hcases with
  | inl hsound =>
    obtain ⟨hnone, hsound⟩ := hsound
    cases hsound with
    | rest side _ hstate hlisten =>
      have hside : ((start m).run s hears actions).speaks = side := by
        rw [speaks, hstate]
        cases side <;> rfl
      rw [hside, hlisten]
      simp [hnone]
    | analyzing audio side hphase => exact absurd (hrest.symm.trans hphase) (by simp)
    | reporting side after hphase => exact absurd (hrest.symm.trans hphase) (by simp)
  | inr hlost =>
    obtain ⟨hoverlap, hlost⟩ := hlost
    cases hlost with
    | lost hnone =>
      rw [hnone]
      simp [hoverlap]
    | analyzing audio hphase => exact absurd (hrest.symm.trans hphase) (by simp)
    | reporting hphase => exact absurd (hrest.symm.trans hphase) (by simp)

/-- One window, from an empty buffer. -/
theorem runAnalyzer_window {a : VADAnalyzer μ} {window : List UInt8} (hempty : a.vadBuffer = [])
    (hwindow : window.length = s.numRequiredBytes) :
    a.runAnalyzer s hears window =
      ({ a with model := (hears a.model window).2 }.count (hears a.model window).1).confirm s := by
  have hlong : ¬ window.length < s.numRequiredBytes := by omega
  have hdrain : { a with vadBuffer := window }.drain s hears =
      { a with
        vadBuffer := []
        model := (hears a.model window).2 }.count (hears a.model window).1 := by
    rw [VADAnalyzer.drain, dif_pos hwindow.ge, List.take_of_length_le hwindow.le,
      List.drop_of_length_le hwindow.le, VADAnalyzer.drain, dif_neg]
    rw [VADAnalyzer.count_vadBuffer]
    exact Nat.not_le.mpr s.numRequiredBytes_pos
  unfold VADAnalyzer.runAnalyzer
  rw [hempty, List.nil_append, if_neg hlong, hdrain]

/-- 32 milliseconds at 8 kHz. -/
def oneWindow : List UInt8 := List.replicate 512 0

theorem length_oneWindow : oneWindow.length = 512 := List.length_replicate

/-- A window in which the caller speaks, and one in which not. -/
def oneWord : List VADAction :=
  [.audio oneWindow, .analyzed, .reported, .audio oneWindow, .analyzed, .reported]

theorem run_oneWord : (start [true, false]).run ⟨8000, 1, 1⟩ replay oneWord =
    ⟨⟨[], [], .quiet, 0, 0⟩, .quiet, .rest, [.speechStarted, .speechActivity, .speechStopped]⟩ := by
  have hspoken : VADAnalyzer.runAnalyzer ⟨8000, 1, 1⟩ replay ⟨[], [true, false], .quiet, 0, 0⟩
      oneWindow = ⟨[], [false], .speaking, 0, 0⟩ := runAnalyzer_window rfl length_oneWindow
  have hsilent : VADAnalyzer.runAnalyzer ⟨8000, 1, 1⟩ replay ⟨[], [false], .speaking, 0, 0⟩
      oneWindow = ⟨[], [], .quiet, 0, 0⟩ := runAnalyzer_window rfl length_oneWindow
  simp [run, oneWord, step, start, hspoken, hsilent, handleVad]

/-- A start and a stop are reported. -/
theorem reports_sound_oneWord :
    let c := (start [true, false]).run ⟨8000, 1, 1⟩ replay oneWord
    c.events = [.speechStarted, .speechActivity, .speechStopped] ∧
      (listenAll c.events = some c.speaks ↔
        ¬ (start [true, false]).Overlapped ⟨8000, 1, 1⟩ replay oneWord) ∧
      (listenAll c.events = none ↔
        (start [true, false]).Overlapped ⟨8000, 1, 1⟩ replay oneWord) := by
  refine ⟨?_, reports_sound_iff ⟨8000, 1, 1⟩ replay [true, false] oneWord ?_⟩
  · rw [run_oneWord]
  · rw [run_oneWord]

end VADController

end TechMart.Pipecat
