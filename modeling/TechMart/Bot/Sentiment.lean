import TechMart.Bot.PhoneCall
import TechMart.Pipecat.Pipeline
import Mathlib.Data.List.MinMax

/-!
# The caller's emotion

The way of an emotion from the processor that has it analysed to the adapter
that puts it into the graph. It goes in the direction of the frame that ended
the utterance, and that frame goes upstream.
-/

namespace TechMart.Bot

open Python TechMart.Graph LangGraph Pipecat

/-! ## The pipeline -/

inductive Processor where
  | transportInput
  | sentimentProcessor
  | stt
  | inputTranslator
  | userAggregator
  | graphAdapter
  | tts
  | transportOutput
  | assistantAggregator
  deriving DecidableEq

def processors : List Processor :=
  [.transportInput, .sentimentProcessor, .stt, .inputTranslator, .userAggregator, .graphAdapter,
   .tts, .transportOutput, .assistantAggregator]

def Processor.position (processor : Processor) : ℕ := processors.idxOf processor

/-- The frames that matter here. A sentiment frame tells which utterance it is
about, which it does not in the pipeline. -/
inductive VoiceFrame where
  | vadUserStartedSpeaking
  | vadUserStoppedSpeaking
  | inputAudioRaw (audio : List UInt8) (sampleRate : ℕ)
  | voiceSentiment (utterance : ℕ) (emotion : Str)
  | other

/-- An utterance whose sentiment is being analysed. -/
structure Analysis where
  utterance : ℕ
  audioBytes : List UInt8
  direction : FrameDirection

/-- The fields of the sentiment processor and the adapter's `_user_emotion`. -/
structure Ears where
  audioBuffer : List UInt8
  isSpeaking : Bool
  currentSampleRate : ℕ
  analyses : List Analysis
  utterances : ℕ
  userEmotion : Str

def Ears.fresh : Ears := ⟨[], false, 16000, [], 0, "neutral"⟩

/-- `VoiceSentimentProcessor.process_frame`, up to the push. -/
def hear (ears : Ears) (direction : FrameDirection) : VoiceFrame → Ears
  | .vadUserStartedSpeaking => { ears with isSpeaking := true, audioBuffer := [] }
  | .vadUserStoppedSpeaking =>
    let ears := { ears with isSpeaking := false }
    if 0 < ears.audioBuffer.length then
      { ears with
        analyses := ears.analyses ++ [⟨ears.utterances, ears.audioBuffer, direction⟩]
        utterances := ears.utterances + 1 }
    else ears
  | .inputAudioRaw audio sampleRate =>
    if ears.isSpeaking then
      { ears with audioBuffer := ears.audioBuffer ++ audio, currentSampleRate := sampleRate }
    else ears
  | _ => ears

/-- `LangGraphLLMService.process_frame` of such a frame. -/
def note (ears : Ears) : VoiceFrame → Ears
  | .voiceSentiment _ emotion => { ears with userEmotion := emotion }
  | _ => ears

/-- Every processor passes these frames on. -/
def processVoice (position : ℕ) (frame : VoiceFrame) (direction : FrameDirection) (ears : Ears) :
    Ears × List (VoiceFrame × FrameDirection) :=
  match processors[position]? with
  | some .sentimentProcessor => (hear ears direction frame, [(frame, direction)])
  | some .graphAdapter => (note ears frame, [(frame, direction)])
  | _ => (ears, [(frame, direction)])

/-- What `_analyze_sentiment` pushes for a result of the classifier. -/
def sentimentFrame (analysis : Analysis) : Except Exn (List Str) → List (Hop VoiceFrame)
  | .ok (label :: _) => (Hop.pushed processors.length Processor.sentimentProcessor.position
      (.voiceSentiment analysis.utterance label, analysis.direction)).toList
  | _ => []

/-- What the processors queue of their own accord: the aggregator what its VAD
finds, the transport the caller's audio, and the end of an analysis its emotion. -/
inductive Voices (classifier : List UInt8 → ℕ → Except Exn (List Str)) :
    Ears → Ears → List (Hop VoiceFrame) → Prop
  | vad {ears : Ears} {frame : VoiceFrame} :
      frame = .vadUserStartedSpeaking ∨ frame = .vadUserStoppedSpeaking →
      Voices classifier ears ears (⟨frame, Processor.userAggregator.position, .downstream⟩ ::
        (Hop.pushed processors.length Processor.userAggregator.position (frame, .upstream)).toList)
  | audio {ears : Ears} (audio : List UInt8) (sampleRate : ℕ) :
      Voices classifier ears ears
        (Hop.pushed processors.length Processor.transportInput.position
          (.inputAudioRaw audio sampleRate, .downstream)).toList
  | other {ears : Ears} (position : ℕ) (direction : FrameDirection) :
      Voices classifier ears ears [⟨.other, position, direction⟩]
  | analyzed {ears : Ears} {before after : List Analysis} {analysis : Analysis} :
      ears.analyses = before ++ analysis :: after →
      Voices classifier ears { ears with analyses := before ++ after }
        (sentimentFrame analysis (classifier analysis.audioBytes ears.currentSampleRate))

def voicePipeline (classifier : List UInt8 → ℕ → Except Exn (List Str)) :
    Pipeline Ears VoiceFrame where
  length := processors.length
  processFrame := processVoice
  acts := Voices classifier

/-! ## Which way the frames go -/

/-- The processor that a kind of frame starts from. -/
def VoiceFrame.origin : VoiceFrame → Option ℕ
  | .vadUserStartedSpeaking | .vadUserStoppedSpeaking => some Processor.userAggregator.position
  | .voiceSentiment .. => some Processor.sentimentProcessor.position
  | _ => none

def VoiceFrame.isSentiment : VoiceFrame → Bool
  | .voiceSentiment .. => true
  | _ => false

/-- Every frame is on its way from its origin, emotions go upstream, and so the
adapter has never noted one. -/
structure Unheard (line : Line Ears VoiceFrame) : Prop where
  outbound : ∀ hop ∈ line.hops, ∀ origin ∈ hop.frame.origin, hop.Outbound origin
  upstream : ∀ hop ∈ line.hops, hop.frame.isSentiment = true → hop.direction = .upstream
  analyses : ∀ analysis ∈ line.state.analyses, analysis.direction = .upstream
  emotion : line.state.userEmotion = "neutral"

section
variable {classifier : List UInt8 → ℕ → Except Exn (List Str)} {line line' : Line Ears VoiceFrame}

theorem removed_subset {α : Type} {a : α} {before after : List α} :
    before ++ after ⊆ before ++ a :: after :=
  ((List.sublist_cons_self a after).append_left before).subset

theorem position_of {position : ℕ} {processor : Processor}
    (h : processors[position]? = some processor) : position = processor.position := by
  obtain ⟨hlt, hprocessor⟩ := List.getElem?_eq_some_iff.mp h
  have hnodup : processors.Nodup := by decide
  rw [Processor.position, ← hprocessor, hnodup.idxOf_getElem position hlt]

theorem processVoice_out (position : ℕ) (frame : VoiceFrame) (direction : FrameDirection)
    (ears : Ears) : (processVoice position frame direction ears).2 = [(frame, direction)] := by
  unfold processVoice
  split <;> rfl

theorem hear_keeps (ears : Ears) {direction : FrameDirection} {frame : VoiceFrame}
    (h : frame = .vadUserStoppedSpeaking → direction = .upstream)
    (hanalyses : ∀ analysis ∈ ears.analyses, analysis.direction = .upstream) :
    (∀ analysis ∈ (hear ears direction frame).analyses, analysis.direction = .upstream) ∧
      (hear ears direction frame).userEmotion = ears.userEmotion := by
  cases frame with
  | vadUserStoppedSpeaking =>
    simp only [hear]
    split
    · refine ⟨?_, rfl⟩
      intro analysis hmem
      rcases List.mem_append.mp hmem with hmem | hmem
      · exact hanalyses analysis hmem
      · rw [List.mem_singleton.mp hmem]
        exact h rfl
    · exact ⟨hanalyses, rfl⟩
  | inputAudioRaw =>
    simp only [hear]
    split
    · exact ⟨hanalyses, rfl⟩
    · exact ⟨hanalyses, rfl⟩
  | _ => exact ⟨hanalyses, rfl⟩

/-- A processor that takes a frame on its way leaves things as they are. -/
theorem processVoice_keeps {hop : Hop VoiceFrame} {ears : Ears}
    (hout : ∀ origin ∈ hop.frame.origin, hop.Outbound origin)
    (hup : hop.frame.isSentiment = true → hop.direction = .upstream)
    (hanalyses : ∀ analysis ∈ ears.analyses, analysis.direction = .upstream) :
    (∀ analysis ∈ (processVoice hop.position hop.frame hop.direction ears).1.analyses,
      analysis.direction = .upstream) ∧
    (processVoice hop.position hop.frame hop.direction ears).1.userEmotion = ears.userEmotion := by
  obtain ⟨frame, position, direction⟩ := hop
  unfold processVoice
  split
  · rename_i hposition
    obtain rfl : position = _ := position_of hposition
    -- What ends an utterance comes from the aggregator, behind the processor.
    refine hear_keeps ears ?_ hanalyses
    rintro rfl
    have haway := hout _ rfl
    cases direction with
    | upstream => rfl
    | downstream =>
      have hbehind : Processor.userAggregator.position ≤ Processor.sentimentProcessor.position :=
        haway
      exact absurd hbehind (by decide)
  · rename_i hposition
    obtain rfl : position = _ := position_of hposition
    refine ⟨?_, ?_⟩
    · cases frame <;> exact hanalyses
    · cases frame with
      | voiceSentiment =>
        cases hup rfl
        have hahead : Processor.graphAdapter.position < Processor.sentimentProcessor.position :=
          hout _ rfl
        exact absurd hahead (by decide)
      | _ => rfl
  · exact ⟨hanalyses, rfl⟩

/-- What the processors queue of their own accord starts from its origin, and an
emotion goes where the end of its utterance went. -/
theorem voices_keeps {ears ears' : Ears} {hops : List (Hop VoiceFrame)}
    (h : Voices classifier ears ears' hops)
    (hanalyses : ∀ analysis ∈ ears.analyses, analysis.direction = .upstream) :
    (∀ hop ∈ hops, (∀ origin ∈ hop.frame.origin, hop.Outbound origin) ∧
      (hop.frame.isSentiment = true → hop.direction = .upstream)) ∧
    (∀ analysis ∈ ears'.analyses, analysis.direction = .upstream) ∧
    ears'.userEmotion = ears.userEmotion := by
  cases h with
  | @vad frame hframe =>
    refine ⟨?_, hanalyses, rfl⟩
    intro hop hmem
    have horigin : frame.origin = some Processor.userAggregator.position := by
      rcases hframe with rfl | rfl <;> rfl
    have hother : frame.isSentiment = false := by rcases hframe with rfl | rfl <;> rfl
    rcases List.mem_cons.mp hmem with rfl | hmem
    · refine ⟨?_, fun hsentiment => ?_⟩
      · rw [horigin]
        rintro _ ⟨⟩
        exact Nat.le_refl _
      · rw [hother] at hsentiment
        cases hsentiment
    · have hpushed := Option.mem_toList.mp hmem
      have hout := (pushed_eq_some.mp hpushed).2
      rw [show hop.frame = frame from congrArg Prod.fst hout]
      refine ⟨?_, fun hsentiment => ?_⟩
      · rw [horigin]
        rintro _ ⟨⟩
        exact outbound_pushed hpushed
      · rw [hother] at hsentiment
        cases hsentiment
  | audio audio sampleRate =>
    refine ⟨?_, hanalyses, rfl⟩
    intro hop hmem
    have hout := (pushed_eq_some.mp (Option.mem_toList.mp hmem)).2
    rw [show hop.frame = .inputAudioRaw audio sampleRate from congrArg Prod.fst hout]
    exact ⟨fun _ h => (by cases h), fun h => (by cases h)⟩
  | other position direction =>
    refine ⟨?_, hanalyses, rfl⟩
    intro hop hmem
    rw [List.mem_singleton.mp hmem]
    exact ⟨fun _ h => (by cases h), fun h => (by cases h)⟩
  | @analyzed before after analysis hsplit =>
    have hrest : ∀ a ∈ before ++ after, a.direction = .upstream := by
      rw [hsplit] at hanalyses
      exact fun a ha => hanalyses a (removed_subset ha)
    refine ⟨?_, hrest, rfl⟩
    intro hop hmem
    unfold sentimentFrame at hmem
    split at hmem
    · have hpushed := Option.mem_toList.mp hmem
      have hout := (pushed_eq_some.mp hpushed).2
      have hdirection : hop.direction = analysis.direction := congrArg Prod.snd hout
      refine ⟨?_, fun _ => ?_⟩
      · rw [show hop.frame = _ from congrArg Prod.fst hout]
        rintro _ ⟨⟩
        exact outbound_pushed hpushed
      · rw [hdirection]
        exact hanalyses analysis (by simp [hsplit])
    · exact absurd hmem List.not_mem_nil

theorem unheard_move (h : Unheard line) (hmove : Move (voicePipeline classifier) line line') :
    Unheard line' := by
  cases hmove with
  | @visit before after hop hsplit =>
    have hmem : hop ∈ line.hops := by simp [hsplit]
    have hrest : before ++ after ⊆ line.hops := by
      rw [hsplit]
      exact removed_subset
    have hvisit : ∀ other ∈ ((voicePipeline classifier).visit line before hop after).hops,
        other ∈ line.hops ∨ Hop.pushed processors.length hop.position (hop.frame, hop.direction) =
          some other := by
      intro other hother
      rcases mem_hops_pushAll hother with hother | ⟨out, hout, hpushed⟩
      · exact Or.inl (hrest hother)
      · have hpassed : out ∈ (processVoice hop.position hop.frame hop.direction line.state).2 := hout
        rw [processVoice_out, List.mem_singleton] at hpassed
        rw [hpassed] at hpushed
        exact Or.inr hpushed
    have hpassed {other : Hop VoiceFrame} (hpushed : Hop.pushed processors.length hop.position
        (hop.frame, hop.direction) = some other) :
        other.frame = hop.frame ∧ other.direction = hop.direction :=
      Prod.mk.inj (pushed_eq_some.mp hpushed).2
    obtain ⟨hanalyses, hemotion⟩ :=
      processVoice_keeps (h.outbound hop hmem) (h.upstream hop hmem) h.analyses
    have hstate : ((voicePipeline classifier).visit line before hop after).state =
        (processVoice hop.position hop.frame hop.direction line.state).1 := state_pushAll ..
    constructor
    · intro other hother origin horigin
      rcases hvisit other hother with hother | hpushed
      · exact h.outbound other hother origin horigin
      · rw [(hpassed hpushed).1] at horigin
        exact (h.outbound hop hmem origin horigin).pushed hpushed
    · intro other hother hsentiment
      rcases hvisit other hother with hother | hpushed
      · exact h.upstream other hother hsentiment
      · rw [(hpassed hpushed).2]
        rw [(hpassed hpushed).1] at hsentiment
        exact h.upstream hop hmem hsentiment
    · rw [hstate]
      exact hanalyses
    · rw [hstate, hemotion]
      exact h.emotion
  | @drop before after hop hsplit =>
    have hrest : before ++ after ⊆ line.hops := by
      rw [hsplit]
      exact removed_subset
    exact ⟨fun other hother => h.outbound other (hrest hother),
      fun other hother => h.upstream other (hrest hother), h.analyses, h.emotion⟩
  | @act state hops hacts =>
    obtain ⟨hnew, hanalyses, hemotion⟩ := voices_keeps hacts h.analyses
    refine ⟨?_, ?_, hanalyses, hemotion.trans h.emotion⟩
    · intro other hother
      rcases List.mem_append.mp hother with hother | hother
      · exact h.outbound other hother
      · exact (hnew other hother).1
    · intro other hother
      rcases List.mem_append.mp hother with hother | hother
      · exact h.upstream other hother
      · exact (hnew other hother).2

theorem unheard (h : Pipecat.Reachable (voicePipeline classifier) Ears.fresh line) : Unheard line := by
  refine h.invariant ?_ fun _ _ => unheard_move
  constructor
  · exact fun _ hmem => absurd hmem List.not_mem_nil
  · exact fun _ hmem => absurd hmem List.not_mem_nil
  · exact fun _ hmem => absurd hmem List.not_mem_nil
  · rfl

end

/-! ## In the graph -/

section
variable {rt : Runtime} {retryOn : Exn → Bool}

/-- No node writes the emotion, so that all of a turn has the one it began with. -/
theorem Course.emotion {serves : Node → Graph.Call → Except Exn Str → Prop} {s₀ : AgentState}
    {steps : List (List (Record (workflow rt retryOn)))} {state : AgentState} {nodes : List Node}
    (h : Course serves s₀ steps state nodes) : state.userEmotion = s₀.userEmotion := by
  have hreduce (s u : AgentState) (hu : u.userEmotion = none) :
      (s.reduce u).userEmotion = s.userEmotion := by
    rw [AgentState.reduce, hu, Option.none_or]
  have hrouted {r : Record (workflow rt retryOn)} {last : Message} {ans : Except Exn Str}
      (hr : Routed s₀ r last ans) : (s₀.reduce r.update).userEmotion = s₀.userEmotion := by
    refine hreduce s₀ r.update ?_
    rw [hr.update]
    rfl
  cases h with
  | routing => rfl
  | working hr _ => exact hrouted hr
  | answering hr hworked =>
    exact (worked_channel hreduce (fun _ _ => rfl) (fun _ => rfl) hworked).trans (hrouted hr)
  | @ended r last ans ws z hr hworked hz =>
    have hsynth : z.update.userEmotion = none :=
      record_writes (P := fun u => u.userEmotion = none) (fun _ _ => rfl) (fun _ => rfl) (by simp [hz])
    rw [hreduce _ _ hsynth]
    exact (worked_channel hreduce (fun _ _ => rfl) (fun _ => rfl) hworked).trans (hrouted hr)

theorem turn_emotion {svc : LLMService} {messages : List Message} {turn : Turn (workflow rt retryOn)}
    (h : Turn.Reachable (fun _ _ _ => True)
      (Turn.start _ {} (svc.turnInput messages).initialState) turn) :
    turn.state.userEmotion = some svc.userEmotion := by
  obtain ⟨nodes, sound⟩ := h.sound
  have hstart : (workflow rt retryOn).reduce {} (svc.turnInput messages).initialState =
      (svc.turnInput messages).initialState := AgentState.reduce_empty _
  rw [hstart] at sound
  exact Course.emotion (workflow_course sound.chain)

def VoiceFrame.sentiment? : VoiceFrame → Option (ℕ × Str)
  | .voiceSentiment utterance emotion => some (utterance, emotion)
  | _ => none

/-- The label of the latest utterance whose frame has gone all its way. -/
def latestLabel (line : Line Ears VoiceFrame) : Option Str :=
  ((line.left.filterMap VoiceFrame.sentiment?).argmax Prod.fst).map Prod.snd

/-- **When a detected emotion reaches the graph.** However the utterances of a
call, their analyses, the frames under way and the turns follow each other: the
emotion in a turn's state is the label of the latest utterance delivered before
the turn, or `neutral` for want of one, if and only if that label is `neutral`. -/
theorem emotion_reaches_iff (rt : Runtime) (retryOn : Exn → Bool)
    (classifier : List UInt8 → ℕ → Except Exn (List Str)) (line : Line Ears VoiceFrame)
    (svc : LLMService) (messages : List Message) (turn : Turn (workflow rt retryOn))
    (h : Pipecat.Reachable (voicePipeline classifier) Ears.fresh line)
    (hsvc : svc.userEmotion = line.state.userEmotion)
    (hturn : Turn.Reachable (fun _ _ _ => True)
      (Turn.start _ {} (svc.turnInput messages).initialState) turn) :
    turn.state.userEmotion = some ((latestLabel line).getD "neutral") ↔
      ∀ label ∈ latestLabel line, label = ("neutral" : Str) := by
  rw [turn_emotion hturn, hsvc, (unheard h).emotion]
  cases latestLabel line with
  | none => simp
  | some label => simp [eq_comm]

end

/-! ## An angry caller -/

section
variable {classifier : List UInt8 → ℕ → Except Exn (List Str)}

def hearVad (frame : VoiceFrame) (line : Line Ears VoiceFrame) : Line Ears VoiceFrame :=
  { line with hops := line.hops ++ (⟨frame, Processor.userAggregator.position, .downstream⟩ ::
      (Hop.pushed processors.length Processor.userAggregator.position (frame, .upstream)).toList) }

def hearAudio (audio : List UInt8) (line : Line Ears VoiceFrame) : Line Ears VoiceFrame :=
  { line with hops := line.hops ++ (Hop.pushed processors.length Processor.transportInput.position
      (.inputAudioRaw audio 8000, .downstream)).toList }

/-- The first analysis comes to its end. -/
def finishAnalysis (classifier : List UInt8 → ℕ → Except Exn (List Str)) :
    Line Ears VoiceFrame → Line Ears VoiceFrame
  | ⟨⟨audioBuffer, isSpeaking, sampleRate, analysis :: analyses, utterances, emotion⟩, hops, left⟩ =>
    ⟨⟨audioBuffer, isSpeaking, sampleRate, analyses, utterances, emotion⟩,
      hops ++ sentimentFrame analysis (classifier analysis.audioBytes sampleRate), left⟩
  | line => line

theorem reachable_finishAnalysis {line : Line Ears VoiceFrame}
    (h : Pipecat.Reachable (voicePipeline classifier) Ears.fresh line) :
    Pipecat.Reachable (voicePipeline classifier) Ears.fresh (finishAnalysis classifier line) := by
  unfold finishAnalysis
  split
  · rename_i analysis analyses _ _ _ _
    exact h.move (.act (@Voices.analyzed classifier _ [] analyses analysis rfl))
  · exact h

end

def angry : List UInt8 → ℕ → Except Exn (List Str) := fun _ _ => .ok ["ang", "neu"]

/-- The caller says one thing, and it is analysed and delivered. -/
def angryLine : Line Ears VoiceFrame :=
  let run := (voicePipeline angry).run
  run 1 (finishAnalysis angry (run 9 (hearVad .vadUserStoppedSpeaking
    (run 8 (hearAudio [1, 2] (run 9 (hearVad .vadUserStartedSpeaking ⟨Ears.fresh, [], []⟩)))))))

theorem angryLine_reachable : Pipecat.Reachable (voicePipeline angry) Ears.fresh angryLine := by
  have hfresh : Pipecat.Reachable (voicePipeline angry) Ears.fresh ⟨Ears.fresh, [], []⟩ := .start
  have hstarted := hfresh.move (.act (.vad (Or.inl rfl)))
  have hheard := (hstarted.run 9).move (.act (.audio [1, 2] 8000))
  have hstopped := (hheard.run 8).move (.act (.vad (Or.inr rfl)))
  exact (reachable_finishAnalysis (hstopped.run 9)).run 1

/-- A turn of the service as it is then. -/
def angryTurn : Turn (workflow Runtime.ascii fun _ => true) :=
  Turn.start _ {} (LLMService.turnInput ⟨[], "call", "session", "TKT-1", "None", "neutral"⟩
    []).initialState

theorem angryLine_emotion : angryLine.state.userEmotion = "neutral" := by decide +kernel

theorem emotion_reaches_iff_angryLine :
    angryTurn.state.userEmotion = some ((latestLabel angryLine).getD "neutral") ↔
      ∀ label ∈ latestLabel angryLine, label = ("neutral" : Str) :=
  emotion_reaches_iff _ _ angry angryLine ⟨[], "call", "session", "TKT-1", "None", "neutral"⟩ []
    angryTurn angryLine_reachable angryLine_emotion.symm .start

/-- The caller was found angry, and the turn is told of a neutral caller. -/
theorem anger_not_noted : Pipecat.Reachable (voicePipeline angry) Ears.fresh angryLine ∧
    angryLine.hops.length = 0 ∧ latestLabel angryLine = some ("ang" : Str) ∧
    angryLine.state.userEmotion = "neutral" ∧
    angryTurn.state.userEmotion = some ("neutral" : Str) ∧
    angryTurn.state.userEmotion ≠ some ((latestLabel angryLine).getD "neutral") := by
  have hlabel : latestLabel angryLine = some ("ang" : Str) := by decide +kernel
  refine ⟨angryLine_reachable, by decide +kernel, hlabel, angryLine_emotion, rfl, ?_⟩
  rw [hlabel]
  decide +kernel

end TechMart.Bot
