import TechMart.Bot.Sentiment

/-!
# The audio of an utterance

What `VoiceSentimentProcessor` has analysed, over every run of frames it may be
given: what was said before the VAD noticed is not in it, and an end that comes
twice has the same audio analysed twice.
-/

namespace TechMart.Bot

open Pipecat

/-- A frame, and the direction it came from. -/
abbrev Heard := VoiceFrame × FrameDirection

def hearAll (frames : List Heard) : Ears :=
  frames.foldl (fun ears frame => hear ears frame.2 frame.1) Ears.fresh

def audioOf (frames : List Heard) : List UInt8 :=
  frames.flatMap fun frame => match frame.1 with
    | .inputAudioRaw audio _ => audio
    | _ => []

def isStart (frame : Heard) : Bool :=
  match frame.1 with
  | .vadUserStartedSpeaking => true
  | _ => false

def isStop (frame : Heard) : Bool :=
  match frame.1 with
  | .vadUserStoppedSpeaking => true
  | _ => false

/-- The audio up to the end of the utterance. -/
def utteranceAudio (frames : List Heard) : List UInt8 :=
  audioOf (frames.takeWhile fun frame => !isStop frame)

theorem hearAll_concat (frames : List Heard) (frame : Heard) :
    hearAll (frames ++ [frame]) = hear (hearAll frames) frame.2 frame.1 := by
  rw [hearAll, List.foldl_concat]
  rfl

theorem audioOf_append (frames later : List Heard) :
    audioOf (frames ++ later) = audioOf frames ++ audioOf later :=
  List.flatMap_append

/-- After the end of an utterance nothing is added to it. -/
theorem utteranceAudio_concat (frames : List Heard) (last : Heard) :
    utteranceAudio (frames ++ [last]) = utteranceAudio frames ++
      if frames.all (fun frame => !isStop frame) && !isStop last then audioOf [last] else [] := by
  unfold utteranceAudio
  cases hall : frames.all fun frame => !isStop frame with
  | true =>
    have hwhole := List.all_eq_true.mp hall
    rw [List.takeWhile_append_of_pos hwhole, List.takeWhile_eq_self_iff.mpr hwhole, audioOf_append]
    cases hlast : isStop last <;> simp [hlast, audioOf]
  | false =>
    have hstopped : frames.takeWhile (fun frame => !isStop frame) ++ frames.dropWhile
        (fun frame => !isStop frame) = frames := List.takeWhile_append_dropWhile
    have hshort : (frames.takeWhile fun frame => !isStop frame).length ≠ frames.length := by
      intro heq
      have hself := List.takeWhile_prefix (l := frames) (fun frame : Heard => !isStop frame)
      have hwhole := hself.eq_of_length heq
      rw [List.all_eq_true.mpr (List.takeWhile_eq_self_iff.mp hwhole)] at hall
      cases hall
    rw [List.takeWhile_append, if_neg hshort]
    exact (List.append_nil _).symm

/-- Between two starts: the buffer has the audio up to the first stop. -/
theorem hearAll_during (before : List Heard) (direction : FrameDirection) (during : List Heard)
    (h : ∀ frame ∈ during, isStart frame = false) :
    (hearAll (before ++ (.vadUserStartedSpeaking, direction) :: during)).audioBuffer =
        utteranceAudio during ∧
      (hearAll (before ++ (.vadUserStartedSpeaking, direction) :: during)).isSpeaking =
        during.all fun frame => !isStop frame := by
  induction during using List.reverseRecOn with
  | nil =>
    rw [hearAll_concat]
    exact ⟨rfl, rfl⟩
  | append_singleton during last ih =>
    obtain ⟨hduring, hlast⟩ := List.forall_mem_append.mp h
    obtain ⟨hbuffer, hspeaking⟩ := ih hduring
    have hstart := hlast last (List.mem_singleton.mpr rfl)
    rw [← List.cons_append, ← List.append_assoc, hearAll_concat, List.all_append,
      utteranceAudio_concat, ← hbuffer, ← hspeaking]
    generalize hearAll (before ++ (.vadUserStartedSpeaking, direction) :: during) = ears at *
    obtain ⟨frame, towards⟩ := last
    cases frame with
    | vadUserStartedSpeaking => cases hstart
    | vadUserStoppedSpeaking =>
      unfold hear
      dsimp only
      split <;> simp [isStop]
    | inputAudioRaw audio sampleRate =>
      unfold hear
      dsimp only
      split <;> simp_all [isStop, audioOf]
    | voiceSentiment utterance emotion => simp [hear, isStop, audioOf]
    | other => simp [hear, isStop, audioOf]

/-- What is analysed in a run. -/
structure Utterances : Prop where
  /-- Nothing before the first start. -/
  none : ∀ frames : List Heard, (∀ frame ∈ frames, isStart frame = false) →
    (hearAll frames).analyses = []
  /-- Something is at a stop only: the audio between the start before it and the
  first stop after that, if there is any. -/
  stop : ∀ before direction during towards, (∀ frame ∈ during, isStart frame = false) →
    (hearAll (before ++ (.vadUserStartedSpeaking, direction) :: during ++
        [(.vadUserStoppedSpeaking, towards)])).analyses.map
          (fun analysis => (analysis.audioBytes, analysis.direction)) =
      (hearAll (before ++ (.vadUserStartedSpeaking, direction) :: during)).analyses.map
          (fun analysis => (analysis.audioBytes, analysis.direction)) ++
        if (utteranceAudio during).isEmpty then [] else [(utteranceAudio during, towards)]
  others : ∀ frames frame, isStop frame = false →
    (hearAll (frames ++ [frame])).analyses = (hearAll frames).analyses

theorem hearAll_silent {frames : List Heard} (h : ∀ frame ∈ frames, isStart frame = false) :
    (hearAll frames).isSpeaking = false ∧ (hearAll frames).audioBuffer = [] ∧
      (hearAll frames).analyses = [] := by
  induction frames using List.reverseRecOn with
  | nil => exact ⟨rfl, rfl, rfl⟩
  | append_singleton frames last ih =>
    obtain ⟨hframes, hlast⟩ := List.forall_mem_append.mp h
    obtain ⟨hspeaking, hbuffer, hanalyses⟩ := ih hframes
    have hstart := hlast last (List.mem_singleton.mpr rfl)
    rw [hearAll_concat]
    obtain ⟨frame, towards⟩ := last
    cases frame with
    | vadUserStartedSpeaking => cases hstart
    | vadUserStoppedSpeaking =>
      unfold hear
      dsimp only
      rw [hbuffer, if_neg (by decide)]
      exact ⟨rfl, rfl, hanalyses⟩
    | inputAudioRaw audio sampleRate =>
      unfold hear
      dsimp only
      rw [hspeaking, if_neg (by decide)]
      exact ⟨hspeaking, hbuffer, hanalyses⟩
    | voiceSentiment utterance emotion => exact ⟨hspeaking, hbuffer, hanalyses⟩
    | other => exact ⟨hspeaking, hbuffer, hanalyses⟩

/-- **What the classifier hears.** Over every run: no audio from before the VAD
noticed, all of it from then to the end of the utterance, and the same again if
the end comes again. -/
theorem utterances_analysed : Utterances where
  none := fun _ h => (hearAll_silent h).2.2
  stop := by
    intro before direction during towards h
    obtain ⟨hbuffer, _⟩ := hearAll_during before direction during h
    rw [hearAll_concat]
    generalize hearAll (before ++ (.vadUserStartedSpeaking, direction) :: during) = ears at *
    unfold hear
    dsimp only
    rw [← hbuffer]
    cases haudio : ears.audioBuffer with
    | nil =>
      rw [if_neg (by decide)]
      exact (List.append_nil _).symm
    | cons byte audio =>
      have hsome : 0 < (byte :: audio).length := Nat.succ_pos _
      rw [if_pos hsome, List.map_append]
      rfl
  others := by
    intro frames frame hstop
    rw [hearAll_concat]
    obtain ⟨frame, towards⟩ := frame
    cases frame with
    | vadUserStoppedSpeaking => cases hstop
    | inputAudioRaw audio sampleRate =>
      unfold hear
      dsimp only
      split <;> rfl
    | _ => rfl

end TechMart.Bot
