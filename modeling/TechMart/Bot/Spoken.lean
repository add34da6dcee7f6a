import TechMart.Bot.Frames
import TechMart.Pipecat.Speech

/-!
# A turn is spoken

What becomes of the frames of the turns in the TTS service. A turn that is not
cancelled ends with the end of a response, and one that is with an interruption:
between two turns nothing waits there.
-/

namespace TechMart.Bot

open Python Pipecat

/-- What a frame is to the text in the TTS service. -/
def Frame.speech : Frame → List SpeechFrame
  | .responseStart => [.responseStart]
  | .text content => [.text content]
  | .responseEnd | .endFrame => [.responseEnd]
  | .ttsUpdateSettings _ | .ringback => []

/-- A turn of the service; what it is given changes from turn to turn. -/
structure SpokenTurn where
  env : Env
  svc : LLMService
  events : List StreamEvent
  log : CallLog
  late : Bool
  played : Played env svc events log

namespace SpokenTurn

def frames (turn : SpokenTurn) : List Frame := Bot.frames turn.late turn.log

def cancelled (turn : SpokenTurn) : Prop := turn.log.countP isCancelled ≠ 0

instance (turn : SpokenTurn) : Decidable turn.cancelled := by
  unfold cancelled
  infer_instance

/-- What reaches the TTS service; an interruption cancels the turn and follows it. -/
def speech (turn : SpokenTurn) : List SpeechFrame :=
  turn.frames.flatMap Frame.speech ++ if turn.cancelled then [.interruption] else []

/-- What a service with nothing else to say asks for. -/
def requests (sentTokenize : Str → List Str) (turn : SpokenTurn) : List Str :=
  (TTSService.fresh.run sentTokenize turn.speech).requests

end SpokenTurn

/-! ## The end of a turn -/

def isText : Frame → Bool
  | .text _ => true
  | _ => false

theorem beside_no_text {late : Bool} {log : CallLog} (h : Beside log) :
    ∀ f ∈ frames late log, isText f = false := by
  intro f hf
  obtain ⟨a, ha, hframe⟩ := mem_frames h hf
  cases f with
  | text content =>
    have hnot : a.beside = false := by cases a <;> first | rfl | cases hframe
    cases hnot.symm.trans ha
  | _ => rfl

/-- A turn that is not cancelled ends with the end of a response, and no text
comes after that. -/
theorem frames_of_not_cancelled (turn : SpokenTurn) (h : ¬ turn.cancelled) :
    ∃ before last, turn.frames = before ++ last ∧ (∀ f ∈ last, isText f = false) ∧
      .responseEnd ∈ last := by
  have hcount : turn.log.countP isCancelled = 0 := not_not.mp h
  cases played_log turn.played with
  | inl hcut =>
    obtain ⟨before, a, after, _, hlog⟩ := cutAt_split hcut
    rw [hlog, List.countP_append, List.countP_singleton] at hcount
    simp [isCancelled] at hcount
  | inr hplayed =>
    obtain ⟨body, last, hlog, _, hlast⟩ := hplayed
    obtain ⟨hbeside, hclosing⟩ := closing_frames turn.late hlast
    refine ⟨Bot.frames turn.late (Prog.answered (awaits opening) ++ body),
      Bot.frames turn.late last, ?_, beside_no_text hbeside, ?_⟩
    · rw [SpokenTurn.frames, hlog, frames_append]
    · cases hclosing with
      | inl hlost =>
        rw [hlog, List.countP_append] at hcount
        have hpositive := hlost.2.2
        omega
      | inr hkept =>
        have hmem : Frame.responseEnd ∈ (Bot.frames turn.late last).filter Frame.ofResponse := by
          rw [hkept.2]
          exact List.mem_singleton.mpr rfl
        exact (List.mem_filter.mp hmem).1

variable {sentTokenize : Str → List Str} {s : TTSService}

/-- Without text, a service that has nothing to say keeps it so. -/
theorem fresh_of_no_text (h : s.textAggregator = .fresh) {fs : List Frame}
    (hfs : ∀ f ∈ fs, isText f = false) :
    (s.run sentTokenize (fs.flatMap Frame.speech)).textAggregator = .fresh := by
  induction fs generalizing s with
  | nil => exact h
  | cons f fs ih =>
    obtain ⟨hf, hfs⟩ := List.forall_mem_cons.mp hfs
    rw [List.flatMap_cons, run_append]
    apply ih ?_ hfs
    have hflush := textAggregator_flush (holds_of_fresh h)
    cases f with
    | text content => cases hf
    | responseEnd => exact hflush
    | endFrame => exact hflush
    | responseStart => exact h
    | ttsUpdateSettings language => exact h
    | ringback => exact h

/-- After a turn nothing waits. -/
theorem fresh_after_turn (h : Holds s) (turn : SpokenTurn) :
    (s.run sentTokenize turn.speech).textAggregator = .fresh := by
  rw [SpokenTurn.speech, run_append]
  by_cases hcancelled : turn.cancelled
  · rw [if_pos hcancelled]
    rfl
  · rw [if_neg hcancelled]
    obtain ⟨before, last, hframes, hno, hend⟩ := frames_of_not_cancelled turn hcancelled
    obtain ⟨first, rest, hlast⟩ := List.append_of_mem hend
    rw [hlast] at hno
    have hrest : ∀ f ∈ rest, isText f = false := fun f hf => hno f (by simp [hf])
    rw [hframes, hlast, List.flatMap_append, List.flatMap_append, List.flatMap_cons,
      run_append, run_append, run_append]
    apply fresh_of_no_text ?_ hrest
    exact textAggregator_flush ((h.run _).run _)

theorem said_speech (fs : List Frame) :
    (fs.flatMap Frame.speech).flatMap SpeechFrame.said = (heard fs).flatten := by
  induction fs with
  | nil => rfl
  | cons f fs ih =>
    rw [List.flatMap_cons, List.flatMap_append, ih]
    cases f with
    | text content =>
      show (content ++ []) ++ (heard fs).flatten = content ++ (heard fs).flatten
      rw [List.append_nil]
    | _ => rfl

theorem not_interrupts_speech {fs : List Frame} :
    ∀ frame ∈ fs.flatMap Frame.speech, ∀ s, ¬ Interrupts s frame := by
  intro frame hframe s hinterrupts
  obtain ⟨f, _, hspeech⟩ := List.mem_flatMap.mp hframe
  cases frame with
  | interruption =>
    cases f <;> simp [Frame.speech] at hspeech
  | _ => exact hinterrupts

/-- All of the text is asked for, in its order. -/
def SpokenWhole (sentTokenize : Str → List Str) (turn : SpokenTurn) : Prop :=
  ∃ stretches : List Str, stretches.flatten = (heard turn.frames).flatten ∧
    turn.requests sentTokenize = stretches.filterMap request

theorem spokenWhole_of_not_cancelled (turn : SpokenTurn) (h : ¬ turn.cancelled) :
    SpokenWhole sentTokenize turn := by
  have hspeech : turn.speech = turn.frames.flatMap Frame.speech := by
    rw [SpokenTurn.speech, if_neg h, List.append_nil]
  have hfresh : TTSService.fresh.textAggregator = .fresh := rfl
  have hnothing : (TTSService.fresh.run sentTokenize turn.speech).textAggregator.text = [] := by
    rw [fresh_after_turn (holds_of_fresh hfresh) turn]
    rfl
  have hquiet : Signal.Clean (TTSService.processFrame sentTokenize) Interrupts TTSService.fresh
      turn.speech := by
    apply Signal.clean_of_forall
    rw [hspeech]
    exact not_interrupts_speech
  obtain ⟨stretches, hcame, hout, hclean⟩ := said_run sentTokenize turn.speech
  have hpassed : stretches.filter Signal.Stretch.passedOn = stretches :=
    List.filter_eq_self.mpr (hclean.mpr hquiet)
  refine ⟨stretches.map Signal.Stretch.items, ?_, ?_⟩
  · rw [← List.flatMap_def, ← said_speech, ← hspeech, hcame, hnothing, List.append_nil]
  · rw [SpokenTurn.requests, hout, hpassed, List.filterMap_map]
    rfl

/-- What becomes of the turns of a call, one after another. -/
structure Spoken (sentTokenize : Str → List Str) (turns : List SpokenTurn) : Prop where
  /-- Each asks for what it asks for alone, and nothing waits at the end. -/
  apart : TTSService.fresh.run sentTokenize (turns.flatMap SpokenTurn.speech) =
    ⟨.fresh, turns.flatMap (SpokenTurn.requests sentTokenize)⟩
  /-- One that is not cancelled is spoken whole. -/
  whole : ∀ turn ∈ turns, ¬ turn.cancelled → SpokenWhole sentTokenize turn

theorem run_turns (h : s.textAggregator = .fresh) (turns : List SpokenTurn) :
    s.run sentTokenize (turns.flatMap SpokenTurn.speech) =
      ⟨.fresh, s.requests ++ turns.flatMap (SpokenTurn.requests sentTokenize)⟩ := by
  induction turns generalizing s with
  | nil =>
    rw [List.flatMap_nil, List.flatMap_nil, List.append_nil, ← h]
    rfl
  | cons turn turns ih =>
    have hs : TTSService.fresh.after s.requests = s := by
      unfold TTSService.after
      rw [TTSService.fresh, List.append_nil, ← h]
    have hrequests : (s.run sentTokenize turn.speech).requests =
        s.requests ++ turn.requests sentTokenize := by
      have hafter : (TTSService.fresh.after s.requests).run sentTokenize turn.speech =
          (TTSService.fresh.run sentTokenize turn.speech).after s.requests := run_after _ _ _
      rw [hs] at hafter
      rw [hafter]
      rfl
    rw [List.flatMap_cons, run_append, ih (fresh_after_turn (holds_of_fresh h) turn), hrequests,
      List.flatMap_cons, List.append_assoc]

/-- **Turns do not mix.** Whatever the graph streams, wherever a turn is cancelled,
and whatever the tokenizer takes a sentence to be: in a row of turns each asks for
what it would ask for alone, and one that is not cancelled has all of its text
spoken. -/
theorem turns_spoken (sentTokenize : Str → List Str) (turns : List SpokenTurn) :
    Spoken sentTokenize turns where
  apart := run_turns rfl turns
  whole := fun turn _ hcancelled => spokenWhole_of_not_cancelled turn hcancelled

end TechMart.Bot
