import TechMart.Pipecat.UserTurn

/-!
# The bot's turn

The assistant aggregator collects the text that has been played, and adds it to
the context as one message when the turn ends or is interrupted. A turn is opened
by the start of a response, or by speech that belongs to none.
-/

namespace TechMart.Pipecat

open Python Signal

/-- The frames that matter to the bot's turn; `appendToContext` is a field of the
last two. -/
inductive AssistantFrame where
  | responseStart
  | responseEnd
  /-- `LLMAssistantPushAggregationFrame`, and the end of the session or its
  cancellation -/
  | pushAggregation
  | interruption
  | ttsStarted (appendToContext : Bool)
  | text (part : TextPart) (appendToContext : Bool)

/-- `turnOpen` is whether the turn has a time of its start; `messages` are those of
the assistant in the context. -/
structure AssistantAggregator where
  aggregation : List TextPart
  messages : List Str
  turnOpen : Bool

namespace AssistantAggregator

def fresh : AssistantAggregator := ⟨[], [], false⟩

def reset (a : AssistantAggregator) : AssistantAggregator := { a with aggregation := [] }

def pushAggregation (a : AssistantAggregator) : AssistantAggregator :=
  if a.aggregation.isEmpty then a
  else { a.reset with messages := a.messages ++ [concatenateAggregatedText a.aggregation] }

/-- `_trigger_assistant_turn_started`. -/
def triggerStarted (a : AssistantAggregator) : AssistantAggregator := { a with turnOpen := true }

/-- `_trigger_assistant_turn_stopped`. -/
def triggerStopped (a : AssistantAggregator) : AssistantAggregator :=
  if a.turnOpen then { a.pushAggregation with turnOpen := false } else a

/-- `_handle_text`. -/
def handleText (a : AssistantAggregator) (part : TextPart) (appendToContext : Bool) :
    AssistantAggregator :=
  if !appendToContext then a
  else if part.text.length = 0 then a
  else { a with aggregation := a.aggregation ++ [part] }

def processFrame (a : AssistantAggregator) : AssistantFrame → AssistantAggregator
  | .responseStart => a.triggerStarted
  | .responseEnd | .pushAggregation => a.triggerStopped
  | .interruption => a.triggerStopped.reset
  | .ttsStarted appendToContext =>
    if appendToContext && !a.turnOpen then a.triggerStarted else a
  | .text part appendToContext => a.handleText part appendToContext

def run (a : AssistantAggregator) (frames : List AssistantFrame) : AssistantAggregator :=
  frames.foldl processFrame a

end AssistantAggregator

/-! ## What becomes of the text -/

def AssistantFrame.played : AssistantFrame → List TextPart
  | .text part appendToContext =>
    if !appendToContext then [] else if part.text.length = 0 then [] else [part]
  | _ => []

/-- An interruption outside a turn, while text waits. -/
def Forgets (a : AssistantAggregator) : AssistantFrame → Prop
  | .interruption => a.turnOpen = false ∧ a.aggregation ≠ []
  | _ => False

variable {played : List TextPart} {a b : AssistantAggregator} {clean : Prop}

/-- What was played, by what waits in an aggregator and the messages. -/
abbrev Remembered (played : List TextPart) (a : AssistantAggregator) (clean : Prop) : Prop :=
  Accounted (fun parts => some (concatenateAggregatedText parts)) played a.aggregation a.messages
    clean

theorem Remembered.triggerStopped (h : Remembered played a clean) :
    Remembered played a.triggerStopped clean := by
  unfold AssistantAggregator.triggerStopped AssistantAggregator.pushAggregation
  split
  · by_cases hempty : a.aggregation.isEmpty = true
    · rw [if_pos hempty]
      exact h
    · rw [if_neg hempty]
      exact h.pass
  · exact h

/-- A turn that is stopped keeps nothing back. -/
theorem aggregation_triggerStopped (a : AssistantAggregator) :
    a.triggerStopped.aggregation ≠ [] ↔ a.turnOpen = false ∧ a.aggregation ≠ [] := by
  unfold AssistantAggregator.triggerStopped AssistantAggregator.pushAggregation
  cases hopen : a.turnOpen with
  | false => simp
  | true =>
    rw [if_pos rfl]
    by_cases hempty : a.aggregation.isEmpty = true
    · rw [if_pos hempty]
      simpa using hempty
    · rw [if_neg hempty]
      simp [AssistantAggregator.reset]

/-- **One frame.** A text is added, and an interruption outside a turn clears. -/
theorem Remembered.processFrame (h : Remembered played a clean) (frame : AssistantFrame) :
    Remembered (played ++ frame.played) (a.processFrame frame) (clean ∧ ¬ Forgets a frame) := by
  have hsame {b : AssistantAggregator} (hb : Remembered played b clean) :
      Remembered (played ++ []) b (clean ∧ ¬ False) := by
    rw [List.append_nil]
    exact hb.iff (by simp)
  cases frame with
  | responseStart => exact hsame h
  | responseEnd => exact hsame h.triggerStopped
  | pushAggregation => exact hsame h.triggerStopped
  | interruption =>
    show Remembered (played ++ []) _ _
    rw [List.append_nil]
    have hclear := h.triggerStopped.clear
    apply hclear.iff
    rw [Forgets, ← aggregation_triggerStopped, not_not]
  | ttsStarted appendToContext =>
    apply hsame
    unfold AssistantAggregator.processFrame
    dsimp only
    split <;> exact h
  | text part appendToContext =>
    show Accounted _ (played ++ if !appendToContext then [] else
      if part.text.length = 0 then [] else [part]) (a.handleText part appendToContext).aggregation
      (a.handleText part appendToContext).messages (clean ∧ ¬ False)
    unfold AssistantAggregator.handleText
    by_cases happend : (!appendToContext) = true
    · rw [if_pos happend, if_pos happend]
      exact hsame h
    · rw [if_neg happend, if_neg happend]
      by_cases hnothing : part.text.length = 0
      · rw [if_pos hnothing, if_pos hnothing]
        exact hsame h
      · rw [if_neg hnothing, if_neg hnothing]
        exact (h.come [part]).iff (by simp)

end TechMart.Pipecat
