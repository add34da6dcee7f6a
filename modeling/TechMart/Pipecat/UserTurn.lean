import TechMart.Python.Text
import TechMart.Signal.Stretches

/-!
# The caller's turn

The user aggregator collects what the caller is transcribed to say, and passes
it on as one message when the turn ends. `MinWordsUserTurnStartStrategy` begins
the turn, and clears what has been collected when a transcription is too short
for that. When a turn ends is left open: the strategies for it, and the watchdog
of the controller, may end one at any time.
-/

namespace TechMart.Pipecat

open Python Signal

structure TextPart where
  text : Str
  includesInterPartSpaces : Bool

/-- One step of `concatenate_aggregated_text`, with whether the part before
includes its spaces. -/
def appendPart (acc : Str × Bool) (part : TextPart) : Str × Bool :=
  let (result, last) := acc
  if part.text.isEmpty then acc
  else if result.isEmpty then (part.text, part.includesInterPartSpaces)
  else if part.includesInterPartSpaces && last then
    (result ++ part.text, part.includesInterPartSpaces)
  else if !part.includesInterPartSpaces && !last then
    (result ++ " " ++ part.text, part.includesInterPartSpaces)
  else if !(result.getLast?.any isspace) && !(part.text.head?.any isspace) then
    (result ++ " " ++ part.text, part.includesInterPartSpaces)
  else (result ++ part.text, part.includesInterPartSpaces)

def concatenateAggregatedText (textParts : List TextPart) : Str :=
  strip (textParts.foldl appendPart ([], false)).1

/-- The frames that matter to a turn. -/
inductive TurnFrame where
  | transcription (part : TextPart)
  | interimTranscription (text : Str)
  | botStartedSpeaking
  | botStoppedSpeaking
  /-- `UserStartedSpeakingFrame` and what the VAD controller queues -/
  | userStartedSpeaking
  | userStoppedSpeaking
  /-- the end of the session, or its cancellation -/
  | sessionEnd

/-- A frame, a stop strategy that finds the turn complete, or the watchdog. -/
inductive TurnEvent where
  | frame (frame : TurnFrame)
  | stopTriggered
  | stopTimeout

/-- The aggregator with the controller and the start strategy in it; `messages`
are those of the caller in the context. -/
structure UserAggregator where
  aggregation : List TextPart
  messages : List Str
  userTurn : Bool
  userSpeaking : Bool
  botSpeaking : Bool

namespace UserAggregator

def fresh : UserAggregator := ⟨[], [], false, false, false⟩

def reset (a : UserAggregator) : UserAggregator := { a with aggregation := [] }

def pushAggregation (a : UserAggregator) : UserAggregator :=
  if a.aggregation.length = 0 then a
  else { a.reset with messages := a.messages ++ [concatenateAggregatedText a.aggregation] }

/-- `_handle_transcription` of the aggregator. -/
def collect (a : UserAggregator) (part : TextPart) : UserAggregator :=
  if (strip part.text).isEmpty then a else { a with aggregation := a.aggregation ++ [part] }

/-- `_trigger_user_turn_start`; it resets the start strategy. -/
def triggerStart (a : UserAggregator) : UserAggregator :=
  if a.userTurn then a else { a with userTurn := true, botSpeaking := false }

/-- `_trigger_user_turn_inference_triggered`. -/
def triggerInference (a : UserAggregator) : UserAggregator :=
  if a.userTurn then a.pushAggregation else a

/-- `_trigger_user_turn_stop`. -/
def triggerStop (a : UserAggregator) : UserAggregator :=
  if !a.userTurn then a
  else if a.userSpeaking then a
  else { a with userTurn := false }.pushAggregation

/-- The words `_handle_transcription` of the start strategy asks for. -/
def wordsAsked (minWords : ℕ) (a : UserAggregator) : ℕ := if a.botSpeaking then minWords else 1

/-- `_handle_transcription` of the start strategy. -/
def startStrategy (minWords : ℕ) (a : UserAggregator) (text : Str) : UserAggregator :=
  if a.wordsAsked minWords ≤ (splitWords text).length then a.triggerStart else a.reset

def processFrame (minWords : ℕ) (a : UserAggregator) : TurnFrame → UserAggregator
  | .transcription part => (a.collect part).startStrategy minWords part.text
  | .interimTranscription text => a.startStrategy minWords text
  | .botStartedSpeaking => { a with botSpeaking := true }
  | .botStoppedSpeaking => { a with botSpeaking := false }
  | .userStartedSpeaking => { a with userSpeaking := true }
  | .userStoppedSpeaking => { a with userSpeaking := false }
  | .sessionEnd => a.pushAggregation

def step (minWords : ℕ) (a : UserAggregator) : TurnEvent → UserAggregator
  | .frame frame => a.processFrame minWords frame
  | .stopTriggered => a.triggerInference.triggerStop
  | .stopTimeout => if a.userTurn && !a.userSpeaking then a.triggerStop else a

def run (minWords : ℕ) (events : List TurnEvent) : UserAggregator :=
  events.foldl (step minWords) fresh

end UserAggregator

/-! ## What becomes of the words -/

/-- What the caller was heard to say: final transcriptions that are not blank. -/
def TurnEvent.heard : TurnEvent → List TextPart
  | .frame (.transcription part) => if (strip part.text).isEmpty then [] else [part]
  | _ => []

/-- The transcription is too short, and something waits after it. -/
def Clears (minWords : ℕ) (a : UserAggregator) : TurnEvent → Prop
  | .frame (.transcription part) =>
    (splitWords part.text).length < a.wordsAsked minWords ∧ (a.collect part).aggregation ≠ []
  | .frame (.interimTranscription text) =>
    (splitWords text).length < a.wordsAsked minWords ∧ a.aggregation ≠ []
  | _ => False

/-- What was heard, by what waits in an aggregator and the messages. -/
abbrev Heard (heard : List TextPart) (a : UserAggregator) (clean : Prop) : Prop :=
  Accounted (fun parts => some (concatenateAggregatedText parts)) heard a.aggregation a.messages
    clean

variable {heard : List TextPart} {a b : UserAggregator} {clean : Prop}

theorem Heard.of_eq (h : Heard heard a clean) (haggregation : b.aggregation = a.aggregation)
    (hmessages : b.messages = a.messages) : Heard heard b clean := by
  rw [Heard, haggregation, hmessages]
  exact h

theorem Heard.collect (h : Heard heard a clean) (part : TextPart) :
    Heard (heard ++ TurnEvent.heard (.frame (.transcription part))) (a.collect part) clean := by
  have hheard : TurnEvent.heard (.frame (.transcription part)) =
      if (strip part.text).isEmpty then [] else [part] := rfl
  rw [hheard]
  unfold UserAggregator.collect
  split
  · rw [List.append_nil]
    exact h
  · exact h.come [part]

theorem Heard.push (h : Heard heard a clean) : Heard heard a.pushAggregation clean := by
  unfold UserAggregator.pushAggregation
  split
  · exact h
  · exact h.pass

/-- The start strategy passes nothing on; it clears what is too short. -/
theorem Heard.startStrategy (h : Heard heard a clean) (minWords : ℕ) (text : Str) :
    Heard heard (a.startStrategy minWords text)
      (clean ∧ ¬ ((splitWords text).length < a.wordsAsked minWords ∧ a.aggregation ≠ [])) := by
  unfold UserAggregator.startStrategy
  split
  · rename_i hlong
    have hstart : Heard heard a.triggerStart clean := by
      unfold UserAggregator.triggerStart
      split
      · exact h
      · exact h.of_eq rfl rfl
    exact hstart.iff (by simp [Nat.not_lt.mpr hlong])
  · rename_i hshort
    exact h.clear.iff (by simp [Nat.lt_of_not_le hshort])

theorem Heard.triggerStop (h : Heard heard a clean) : Heard heard a.triggerStop clean := by
  unfold UserAggregator.triggerStop
  split
  · exact h
  · split
    · exact h
    · exact Heard.push (h.of_eq rfl rfl)

/-- **One step.** It adds what it heard, and clears if it is one that does. -/
theorem Heard.step (h : Heard heard a clean) (minWords : ℕ) (event : TurnEvent) :
    Heard (heard ++ event.heard) (a.step minWords event) (clean ∧ ¬ Clears minWords a event) := by
  have hsame (hheard : event.heard = []) (hclears : ¬ Clears minWords a event)
      (hstep : Heard heard (a.step minWords event) clean) :
      Heard (heard ++ event.heard) (a.step minWords event)
        (clean ∧ ¬ Clears minWords a event) := by
    rw [hheard, List.append_nil]
    exact hstep.iff (by simp [hclears])
  cases event with
  | frame frame =>
    cases frame with
    | transcription part =>
      have hasked : (a.collect part).wordsAsked minWords = a.wordsAsked minWords := by
        unfold UserAggregator.collect
        split <;> rfl
      have hstart := (h.collect part).startStrategy minWords part.text
      rw [hasked] at hstart
      exact hstart
    | interimTranscription text =>
      have hstart := h.startStrategy minWords text
      rw [← List.append_nil heard] at hstart
      exact hstart
    | sessionEnd => exact hsame rfl id h.push
    | botStartedSpeaking => exact hsame rfl id (h.of_eq rfl rfl)
    | botStoppedSpeaking => exact hsame rfl id (h.of_eq rfl rfl)
    | userStartedSpeaking => exact hsame rfl id (h.of_eq rfl rfl)
    | userStoppedSpeaking => exact hsame rfl id (h.of_eq rfl rfl)
  | stopTriggered =>
    apply hsame rfl id
    apply Heard.triggerStop
    unfold UserAggregator.triggerInference
    split
    · exact h.push
    · exact h
  | stopTimeout =>
    apply hsame rfl id
    unfold UserAggregator.step
    dsimp only
    split
    · exact h.triggerStop
    · exact h

/-- A one-word answer while the bot speaks is lost. -/
example : (UserAggregator.run 2 [.frame .botStartedSpeaking,
    .frame (.transcription ⟨"Yes.", false⟩)]).aggregation = [] := rfl

end TechMart.Pipecat
