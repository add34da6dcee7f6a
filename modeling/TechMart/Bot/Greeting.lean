import TechMart.Pipecat.UserTurn
import TechMart.Pipecat.Speech

/-!
# The greeting

`on_client_connected` pushes the greeting as one text frame, and no end of a
response after it. Its last sentence waits in the TTS service for what comes next
there; a reply comes only after the caller's turn, and that begins with an
interruption.
-/

namespace TechMart.Bot

open Python Pipecat

def greetingText (customerName : Str) : Str :=
  ("Hello " : Str) ++ customerName ++ ", welcome to TechMart. How can I help you today?"

/-- The frames of a call that reach the TTS service. -/
inductive CallFrame where
  | greeting (text : Str)
  | reply (frame : SpeechFrame)
  | interruption

def CallFrame.speech : CallFrame → SpeechFrame
  | .greeting text => .text text
  | .reply frame => frame
  | .interruption => .interruption

/-- A call, between its two ends of the context; `frames` reached the service. -/
structure Call where
  aggregator : UserAggregator
  greeted : Bool
  frames : List CallFrame

namespace Call

def fresh : Call := ⟨.fresh, false, []⟩

/-- What the beginning of a turn broadcasts. -/
def interruption (before after : UserAggregator) : List CallFrame :=
  if after.userTurn && !before.userTurn then [.interruption] else []

def hear (minWords : ℕ) (c : Call) (event : TurnEvent) : Call :=
  let aggregator := c.aggregator.step minWords event
  { c with aggregator, frames := c.frames ++ interruption c.aggregator aggregator }

/-- An interruption drops what is on its way: of the greeting, a part may reach
the service. A reply answers a message of the caller. -/
inductive Step (minWords : ℕ) (customerName : Str) : Call → Call → Prop
  | hear (c : Call) (event : TurnEvent) : Step minWords customerName c (c.hear minWords event)
  | greet (c : Call) (text : Str) : c.greeted = false → text <+: greetingText customerName →
    Step minWords customerName c
      { c with greeted := true, frames := c.frames ++ [.greeting text] }
  | reply (c : Call) (frame : SpeechFrame) : c.aggregator.messages ≠ [] →
    Step minWords customerName c { c with frames := c.frames ++ [.reply frame] }

inductive Reachable (minWords : ℕ) (customerName : Str) : Call → Prop
  | start : Reachable minWords customerName .fresh
  | next {c c' : Call} : Reachable minWords customerName c → Step minWords customerName c c' →
    Reachable minWords customerName c'

/-- What the service asked speech for. -/
def requests (sentTokenize : Str → List Str) (c : Call) : List Str :=
  (TTSService.fresh.run sentTokenize (c.frames.map CallFrame.speech)).requests

end Call

/-! ## The caller has not begun -/

structure Quiet (a : UserAggregator) : Prop where
  aggregation : a.aggregation = []
  messages : a.messages = []
  userTurn : a.userTurn = false

variable {minWords : ℕ} {customerName : Str} {a : UserAggregator} {c c' : Call}

theorem Quiet.startStrategy (h : a.messages = []) (hturn : a.userTurn = false) (text : Str) :
    Quiet (a.startStrategy minWords text) ∨ (a.startStrategy minWords text).userTurn = true := by
  unfold UserAggregator.startStrategy
  split
  · right
    unfold UserAggregator.triggerStart
    rw [hturn]
    rfl
  · exact .inl ⟨rfl, h, hturn⟩

/-- It stays so until a turn begins. -/
theorem Quiet.step (h : Quiet a) (minWords : ℕ) (event : TurnEvent) :
    Quiet (a.step minWords event) ∨ (a.step minWords event).userTurn = true := by
  have hpush : a.pushAggregation = a := by
    unfold UserAggregator.pushAggregation
    rw [if_pos (by rw [h.aggregation]; rfl)]
  have hstop : a.triggerStop = a := by
    unfold UserAggregator.triggerStop
    rw [h.userTurn]
    rfl
  have hinference : a.triggerInference = a := by
    unfold UserAggregator.triggerInference
    rw [if_neg (by rw [h.userTurn]; decide)]
  cases event with
  | frame frame =>
    cases frame with
    | transcription part =>
      apply Quiet.startStrategy
      · unfold UserAggregator.collect
        split <;> exact h.messages
      · unfold UserAggregator.collect
        split <;> exact h.userTurn
    | interimTranscription text => exact Quiet.startStrategy h.messages h.userTurn text
    | sessionEnd =>
      left
      show Quiet a.pushAggregation
      rw [hpush]
      exact h
    | botStartedSpeaking => exact .inl ⟨h.aggregation, h.messages, h.userTurn⟩
    | botStoppedSpeaking => exact .inl ⟨h.aggregation, h.messages, h.userTurn⟩
    | userStartedSpeaking => exact .inl ⟨h.aggregation, h.messages, h.userTurn⟩
    | userStoppedSpeaking => exact .inl ⟨h.aggregation, h.messages, h.userTurn⟩
  | stopTriggered =>
    left
    show Quiet a.triggerInference.triggerStop
    rw [hinference, hstop]
    exact h
  | stopTimeout =>
    left
    unfold UserAggregator.step
    dsimp only
    rw [hstop, ite_self]
    exact h

/-- A call before the caller's first turn, and one after it began. -/
inductive Opening (customerName : Str) (c : Call) : Prop
  | waiting : Quiet c.aggregator → c.greeted = false → c.frames = [] → Opening customerName c
  | greeted (text : Str) : Quiet c.aggregator → c.greeted = true → text <+: greetingText customerName →
    c.frames = [.greeting text] → Opening customerName c
  | answered (text : Str) (later : List CallFrame) : c.greeted = true →
    text <+: greetingText customerName → c.frames = .greeting text :: .interruption :: later →
    (∀ frame ∈ later, ∀ text, frame ≠ .greeting text) → Opening customerName c
  | hasty (later : List CallFrame) : c.frames = .interruption :: later → Opening customerName c

theorem interruption_of_quiet {before after : UserAggregator} (hafter : Quiet after) :
    Call.interruption before after = [] := by
  unfold Call.interruption
  rw [hafter.userTurn]
  rfl

theorem interruption_of_turn {before after : UserAggregator} (hbefore : Quiet before)
    (hafter : after.userTurn = true) : Call.interruption before after = [.interruption] := by
  unfold Call.interruption
  rw [hafter, hbefore.userTurn]
  rfl

theorem mem_interruption {before after : UserAggregator} {frame : CallFrame}
    (h : frame ∈ Call.interruption before after) : frame = .interruption := by
  unfold Call.interruption at h
  split at h
  · exact List.mem_singleton.mp h
  · cases h

theorem Opening.step (h : Opening customerName c) (hstep : Call.Step minWords customerName c c') :
    Opening customerName c' := by
  cases hstep with
  | hear event =>
    cases h with
    | waiting hquiet hgreeted hframes =>
      cases hquiet.step minWords event with
      | inl hstill =>
        refine Opening.waiting hstill hgreeted ?_
        show c.frames ++ _ = []
        rw [hframes, interruption_of_quiet hstill]
        rfl
      | inr hturn =>
        apply Opening.hasty []
        show c.frames ++ _ = _
        rw [hframes, interruption_of_turn hquiet hturn]
        rfl
    | greeted text hquiet hgreeted htext hframes =>
      cases hquiet.step minWords event with
      | inl hstill =>
        refine Opening.greeted text hstill hgreeted htext ?_
        show c.frames ++ _ = _
        rw [hframes, interruption_of_quiet hstill]
        rfl
      | inr hturn =>
        refine Opening.answered text [] hgreeted htext ?_ ?_
        · show c.frames ++ _ = _
          rw [hframes, interruption_of_turn hquiet hturn]
          rfl
        · intro frame hframe
          cases hframe
    | answered text later hgreeted htext hframes hlater =>
      refine Opening.answered text (later ++ Call.interruption c.aggregator
        (c.aggregator.step minWords event)) hgreeted htext ?_ ?_
      · show c.frames ++ _ = _
        rw [hframes]
        rfl
      · rw [List.forall_mem_append]
        refine ⟨hlater, ?_⟩
        intro frame hframe text hgreeting
        cases (mem_interruption hframe).symm.trans hgreeting
    | hasty later hframes =>
      apply Opening.hasty (later ++ _)
      show c.frames ++ _ = _
      rw [hframes]
      rfl
  | greet text hgreeted htext =>
    cases h with
    | waiting hquiet _ hframes =>
      refine Opening.greeted text hquiet rfl htext ?_
      dsimp only
      rw [hframes]
      rfl
    | greeted _ _ htrue => cases hgreeted.symm.trans htrue
    | answered _ _ htrue => cases hgreeted.symm.trans htrue
    | hasty later hframes =>
      apply Opening.hasty (later ++ [.greeting text])
      dsimp only
      rw [hframes]
      rfl
  | reply frame hmessages =>
    cases h with
    | waiting hquiet => exact absurd hquiet.messages hmessages
    | greeted _ hquiet => exact absurd hquiet.messages hmessages
    | answered text later hgreeted htext hframes hlater =>
      refine Opening.answered text (later ++ [.reply frame]) hgreeted htext ?_ ?_
      · dsimp only
        rw [hframes]
        rfl
      · rw [List.forall_mem_append]
        refine ⟨hlater, ?_⟩
        intro last hlast text hgreeting
        cases (List.mem_singleton.mp hlast).symm.trans hgreeting
    | hasty later hframes =>
      apply Opening.hasty (later ++ [.reply frame])
      dsimp only
      rw [hframes]
      rfl

theorem opening_of_reachable (h : Call.Reachable minWords customerName c) :
    Opening customerName c := by
  induction h with
  | start => exact .waiting ⟨rfl, rfl, rfl⟩ rfl rfl
  | next _ hstep ih => exact ih.step hstep

/-! ## The question -/

/-- The greeting up to where the tokenizer is asked about its first sentence. -/
def greetingOpening (customerName : Str) : Str :=
  ("Hello " : Str) ++ customerName ++ ", welcome to TechMart. H"

def greetingQuestion : Str := ("ow can I help you today" : Str) ++ ['?']

theorem greetingText_eq (customerName : Str) :
    greetingText customerName = greetingOpening customerName ++ greetingQuestion := by
  have hsplit : (", welcome to TechMart. How can I help you today?" : Str) =
      ", welcome to TechMart. H" ++ greetingQuestion := by decide
  exact (congrArg (fun tail => ("Hello " : Str) ++ customerName ++ tail) hsplit).trans
    (List.append_assoc ..).symm

/-- After the opening the service waits for the end of a sentence. -/
theorem needsLookahead_opening (sentTokenize : Str → List Str) (customerName : Str) :
    (TTSService.fresh.processText sentTokenize
      (greetingOpening customerName)).textAggregator.needsLookahead = false := by
  have hsplit : (", welcome to TechMart. H" : Str) = ", welcome to TechMart. " ++ ['H'] := by decide
  have hlast : greetingOpening customerName =
      ("Hello " : Str) ++ customerName ++ ", welcome to TechMart. " ++ ['H'] :=
    (congrArg (fun tail => ("Hello " : Str) ++ customerName ++ tail) hsplit).trans
      (List.append_assoc ..).symm
  rw [hlast, processText_append]
  exact needsLookahead_processChar _ (by decide) (by decide)

/-- Nothing is asked for inside the question, nor at its end. -/
theorem requests_question (sentTokenize : Str → List Str) {s : TTSService}
    (hs : s.textAggregator.needsLookahead = false) {text : Str} (h : text <+: greetingQuestion) :
    (s.processText sentTokenize text).requests = s.requests := by
  have hall : ("ow can I help you today" : Str).all
      (fun char => !sentenceEndingPunctuation.contains char) = true := by decide
  have hinside : ∀ char ∈ ("ow can I help you today" : Str),
      sentenceEndingPunctuation.contains char = false := by
    intro char hchar
    exact Bool.not_eq_eq_eq_not.mp (List.all_eq_true.mp hall char hchar)
  cases List.prefix_concat_iff.mp h with
  | inl hwhole =>
    rw [hwhole, processText_append, processText_inside hs _ hinside, processText_singleton,
      processChar_of_not_needsLookahead sentTokenize '?' rfl]
  | inr hpart =>
    rw [processText_inside hs text fun char hchar => hinside char (hpart.subset hchar)]

/-- What has been asked for by the opening is all that the greeting asks for. -/
theorem requests_greeting (sentTokenize : Str → List Str) {text : Str}
    (h : text <+: greetingText customerName) :
    ∃ said, said <+: greetingOpening customerName ∧
      (TTSService.fresh.processText sentTokenize text).requests =
        (TTSService.fresh.processText sentTokenize said).requests := by
  rw [greetingText_eq] at h
  cases List.prefix_or_prefix_of_prefix h (List.prefix_append _ greetingQuestion) with
  | inl hopening => exact ⟨text, hopening, rfl⟩
  | inr hbeyond =>
    obtain ⟨question, rfl⟩ := hbeyond
    refine ⟨greetingOpening customerName, List.prefix_rfl, ?_⟩
    rw [processText_append]
    apply requests_question
    · exact needsLookahead_opening sentTokenize customerName
    · exact (List.prefix_append_right_inj _).mp h

/-- What becomes of the greeting's question. -/
structure QuestionFate (sentTokenize : Str → List Str) (customerName : Str) : Prop where
  /-- If the greeting is there before the caller's first turn, all that it asks
  speech for is in the opening; the rest are replies. -/
  unheard : ∀ minWords c text later, Call.Reachable minWords customerName c →
    c.frames = .greeting text :: later →
    ∃ (stretches : List Str) (replies : List CallFrame),
      stretches.flatten <+: greetingOpening customerName ∧
      c.requests sentTokenize = stretches.filterMap request ++
        (TTSService.fresh.run sentTokenize (replies.map CallFrame.speech)).requests ∧
      ∀ frame ∈ replies, ∀ text, frame ≠ .greeting text
  /-- If a reply comes after it without an interruption, the service cannot tell
  the two apart. -/
  joined : ∀ (s : TTSService) reply later,
    s.run sentTokenize (.text (greetingText customerName) :: .responseStart :: .text reply :: later) =
      s.run sentTokenize (.text (greetingText customerName ++ reply) :: later)

/-- A text that is not interrupted asks for its stretches. -/
theorem requests_processText (sentTokenize : Str → List Str) (text : Str) :
    ∃ stretches : List Str, stretches.flatten <+: text ∧
      (TTSService.fresh.processText sentTokenize text).requests = stretches.filterMap request := by
  have hfresh : Said [] TTSService.fresh True := Signal.Accounted.start
  have hsaid : Said ([] ++ text) (TTSService.fresh.processText sentTokenize text) True :=
    hfresh.processText text
  obtain ⟨stretches, hcame, hout, hclean⟩ := hsaid
  have hpassed : stretches.filter Signal.Stretch.passedOn = stretches :=
    List.filter_eq_self.mpr (hclean.mpr trivial)
  refine ⟨stretches.map Signal.Stretch.items, ?_, ?_⟩
  · rw [← List.flatMap_def]
    exact ⟨_, hcame.symm⟩
  · rw [hout, hpassed, List.filterMap_map]
    rfl

/-- **How can I help you?** The greeting ends in a question, and the service waits
for the next text with it. What comes next in a call is the interruption that
begins the caller's turn: whatever the name and the tokenizer, the question is not
asked. -/
theorem question_unheard (sentTokenize : Str → List Str) (customerName : Str) :
    QuestionFate sentTokenize customerName where
  unheard := by
    intro minWords c text later hreachable hfirst
    have hopening := opening_of_reachable hreachable
    have hgreeting (later : List CallFrame) :
        (TTSService.fresh.run sentTokenize ((.greeting text :: later).map CallFrame.speech)) =
          (TTSService.fresh.processText sentTokenize text).run sentTokenize
            (later.map CallFrame.speech) := rfl
    have hasked (htext : text <+: greetingText customerName) :
        ∃ stretches : List Str, stretches.flatten <+: greetingOpening customerName ∧
          (TTSService.fresh.processText sentTokenize text).requests =
            stretches.filterMap request := by
      obtain ⟨said, hsaid, hrequests⟩ := requests_greeting sentTokenize htext
      obtain ⟨stretches, hstretches, hpieces⟩ := requests_processText sentTokenize said
      exact ⟨stretches, hstretches.trans hsaid, hrequests.trans hpieces⟩
    cases hopening with
    | waiting _ _ hframes => cases hframes.symm.trans hfirst
    | hasty _ hframes => cases hframes.symm.trans hfirst
    | greeted _ _ _ htext hframes =>
      cases hframes.symm.trans hfirst
      obtain ⟨stretches, hstretches, hrequests⟩ := hasked htext
      refine ⟨stretches, [], hstretches, ?_, ?_⟩
      · rw [Call.requests, hframes, hgreeting]
        exact hrequests.trans (List.append_nil _).symm
      · intro frame hframe
        cases hframe
    | answered _ replies _ htext hframes hreplies =>
      cases hframes.symm.trans hfirst
      obtain ⟨stretches, hstretches, hrequests⟩ := hasked htext
      refine ⟨stretches, replies, hstretches, ?_, hreplies⟩
      rw [Call.requests, hframes, hgreeting, List.map_cons]
      rw [← hrequests]
      exact run_interruption _ _
  joined := by
    intro s reply later
    show ((s.processText sentTokenize (greetingText customerName)).processText sentTokenize
      reply).run sentTokenize later = _
    rw [← processText_append]
    rfl

end TechMart.Bot
