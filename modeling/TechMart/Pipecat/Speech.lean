import TechMart.Python.Text
import TechMart.Signal.Stretches

/-!
# What the bot says

The TTS service is given a reply in tokens and asks for speech in sentences.
`SimpleTextAggregator` keeps back what may not be a whole sentence yet: after
punctuation that can end one, it waits for the next character that is not space,
and asks a tokenizer. The tokenizer is not looked into.

A text frame that an interruption cuts short counts with what was done of it.
-/

namespace TechMart.Pipecat

open Python Signal

/-- `SENTENCE_ENDING_PUNCTUATION`. -/
def sentenceEndingPunctuation : List Char :=
  ['.', '!', '?', ';', '…', '。', '？', '！', '；', '．', '｡', '।', '॥', '؟', '؛', '۔', '؏', '၊',
   '။', '។', '៕', '໌', '༎', '།', '։', '՜', '՞', '።', '፧', '፨']

def latinSentenceEndingPunctuation : List Char := ['.', '!', '?', ';', '…']

def unambiguousSentenceEndingPunctuation : List Char :=
  sentenceEndingPunctuation.filter fun c => !latinSentenceEndingPunctuation.contains c

/-- `strip(" ")`. -/
def stripSpaces (s : Str) : Str := (s.dropWhile (· == ' ')).rdropWhile (· == ' ')

/-- `lstrip("\n")`. -/
def lstripNewlines (s : Str) : Str := s.dropWhile (· == '\n')

structure SimpleTextAggregator where
  text : Str
  needsLookahead : Bool

/-- The service with its aggregator; `requests` are the texts `run_tts` was given. -/
structure TTSService where
  textAggregator : SimpleTextAggregator
  requests : List Str

/-- The frames that matter to what is said. -/
inductive SpeechFrame where
  | text (text : Str)
  | responseStart
  /-- the end of a response, or of the session -/
  | responseEnd
  | interruption

section
variable (sentTokenize : Str → List Str)

def matchEndofsentence (text : Str) : ℕ :=
  let text := rstrip text
  if text.isEmpty then 0
  else match sentTokenize text with
    | [] => 0
    | [firstSentence] =>
      if firstSentence = text then
        if text.getLast?.any sentenceEndingPunctuation.contains then text.length
        else match text.findIdx? unambiguousSentenceEndingPunctuation.contains with
          | some i => i + 1
          | none => 0
      else 0
    | firstSentence :: _ => firstSentence.length

namespace SimpleTextAggregator

def fresh : SimpleTextAggregator := ⟨[], false⟩

/-- `_check_sentence_with_lookahead`. -/
def checkSentence (a : SimpleTextAggregator) (char : Char) : SimpleTextAggregator × Option Str :=
  if a.needsLookahead then
    if isspace char then (a, none)
    else
      let eosMarker := matchEndofsentence sentTokenize a.text
      if eosMarker ≠ 0 then
        (⟨a.text.drop eosMarker, false⟩, some (stripSpaces (a.text.take eosMarker)))
      else ({ a with needsLookahead := false }, none)
  else if a.text.getLast?.any sentenceEndingPunctuation.contains then
    ({ a with needsLookahead := true }, none)
  else (a, none)

/-- One character of `aggregate`. -/
def aggregate (a : SimpleTextAggregator) (char : Char) : SimpleTextAggregator × Option Str :=
  { a with text := a.text ++ [char] }.checkSentence sentTokenize char

def flush (a : SimpleTextAggregator) : SimpleTextAggregator × Option Str :=
  if a.text.isEmpty then (a, none) else (fresh, some (stripSpaces a.text))

end SimpleTextAggregator

namespace TTSService

def fresh : TTSService := ⟨.fresh, []⟩

/-- `_push_tts_frames`, of a sentence if there is one. -/
def pushTtsFrames (s : TTSService) : Option Str → TTSService
  | none => s
  | some sentence =>
    let text := lstripNewlines sentence
    if (strip text).isEmpty then s else { s with requests := s.requests ++ [text] }

def processChar (s : TTSService) (char : Char) : TTSService :=
  let (textAggregator, sentence) := s.textAggregator.aggregate sentTokenize char
  { s with textAggregator }.pushTtsFrames sentence

def processText (s : TTSService) (text : Str) : TTSService :=
  text.foldl (processChar sentTokenize) s

def flush (s : TTSService) : TTSService :=
  let (textAggregator, remaining) := s.textAggregator.flush
  { s with textAggregator }.pushTtsFrames remaining

/-- `_handle_interruption`. -/
def interrupt (s : TTSService) : TTSService := { s with textAggregator := .fresh }

def processFrame (s : TTSService) : SpeechFrame → TTSService
  | .text text => s.processText sentTokenize text
  | .responseStart => s
  | .responseEnd => s.flush
  | .interruption => s.interrupt

def run (s : TTSService) (frames : List SpeechFrame) : TTSService :=
  frames.foldl (processFrame sentTokenize) s

end TTSService

end

/-! ## What becomes of a text -/

def SpeechFrame.said : SpeechFrame → Str
  | .text said => said
  | _ => []

/-- The request a stretch of text becomes, if it is not blank. -/
def request (stretch : Str) : Option Str :=
  let text := lstripNewlines (stripSpaces stretch)
  if (strip text).isEmpty then none else some text

/-- An interruption while text waits. -/
def Interrupts (s : TTSService) : SpeechFrame → Prop
  | .interruption => s.textAggregator.text ≠ []
  | _ => False

variable {sentTokenize : Str → List Str} {came : Str} {s : TTSService} {clean : Prop}

/-- What was to be said, by what waits in a service and its requests. -/
abbrev Said (came : Str) (s : TTSService) (clean : Prop) : Prop :=
  Accounted request came s.textAggregator.text s.requests clean

theorem pushTtsFrames_cut (a : SimpleTextAggregator) (requests : List Str) (stretch : Str) :
    (TTSService.mk a requests).pushTtsFrames (some (stripSpaces stretch)) =
      ⟨a, requests ++ (request stretch).toList⟩ := by
  unfold TTSService.pushTtsFrames request
  dsimp only
  split
  · rw [Option.toList_none, List.append_nil]
  · rfl

/-- A sentence is cut off the front of what waits; where, is for the tokenizer. -/
theorem checkSentence_cases (sentTokenize : Str → List Str) (a : SimpleTextAggregator)
    (char : Char) :
    ((a.checkSentence sentTokenize char).1.text = a.text ∧
      (a.checkSentence sentTokenize char).2 = none) ∨
    ∃ eosMarker, (a.checkSentence sentTokenize char).1.text = a.text.drop eosMarker ∧
      (a.checkSentence sentTokenize char).2 = some (stripSpaces (a.text.take eosMarker)) := by
  unfold SimpleTextAggregator.checkSentence
  split
  · split
    · exact .inl ⟨rfl, rfl⟩
    · dsimp only
      split
      · exact .inr ⟨_, rfl, rfl⟩
      · exact .inl ⟨rfl, rfl⟩
  · split <;> exact .inl ⟨rfl, rfl⟩

theorem Said.processChar (h : Said came s clean) (char : Char) :
    Said (came ++ [char]) (s.processChar sentTokenize char) clean := by
  have hcome := h.come [char]
  unfold TTSService.processChar SimpleTextAggregator.aggregate
  cases checkSentence_cases sentTokenize
      ⟨s.textAggregator.text ++ [char], s.textAggregator.needsLookahead⟩ char with
  | inl hwaits =>
    dsimp only
    rw [hwaits.2]
    show Accounted request _ (SimpleTextAggregator.checkSentence ..).1.text s.requests clean
    rw [hwaits.1]
    exact hcome
  | inr hcut =>
    obtain ⟨eosMarker, htext, hsentence⟩ := hcut
    dsimp only
    rw [hsentence, pushTtsFrames_cut]
    show Accounted request _ (SimpleTextAggregator.checkSentence ..).1.text _ clean
    rw [htext]
    exact hcome.cut eosMarker

theorem Said.processText (h : Said came s clean) (text : Str) :
    Said (came ++ text) (s.processText sentTokenize text) clean := by
  induction text generalizing came s with
  | nil =>
    rw [List.append_nil]
    exact h
  | cons char text ih =>
    have hchar : Said (came ++ [char]) (s.processChar sentTokenize char) clean :=
      h.processChar char
    have hnext := ih hchar
    rw [List.append_assoc] at hnext
    exact hnext

theorem Said.flush (h : Said came s clean) : Said came s.flush clean := by
  unfold TTSService.flush SimpleTextAggregator.flush
  by_cases hempty : s.textAggregator.text.isEmpty = true
  · rw [if_pos hempty]
    exact h
  · rw [if_neg hempty]
    dsimp only
    rw [pushTtsFrames_cut]
    exact h.pass

/-- **One frame.** A text is added, and an interruption clears what waits. -/
theorem Said.processFrame (h : Said came s clean) (frame : SpeechFrame) :
    Said (came ++ frame.said) (s.processFrame sentTokenize frame) (clean ∧ ¬ Interrupts s frame) := by
  have hsame {s' : TTSService} (hs : Said came s' clean) :
      Said (came ++ []) s' (clean ∧ ¬ False) := by
    rw [List.append_nil]
    exact hs.iff (by simp)
  cases frame with
  | text text => exact (h.processText text).iff (by simp [Interrupts])
  | responseStart => exact hsame h
  | responseEnd => exact hsame h.flush
  | interruption =>
    show Said (came ++ []) _ _
    rw [List.append_nil]
    exact h.clear.iff (by simp [Interrupts])

theorem said_run (sentTokenize : Str → List Str) (frames : List SpeechFrame) :
    Said (frames.flatMap SpeechFrame.said) (TTSService.fresh.run sentTokenize frames)
      (Clean (TTSService.processFrame sentTokenize) Interrupts TTSService.fresh frames) :=
  accounted_run (fun s => s.textAggregator.text) TTSService.requests
    (fun _ _ _ frame h => Said.processFrame h frame) Accounted.start frames

theorem run_append (s : TTSService) (frames later : List SpeechFrame) :
    s.run sentTokenize (frames ++ later) = (s.run sentTokenize frames).run sentTokenize later :=
  List.foldl_append ..

theorem processText_append (s : TTSService) (text more : Str) :
    s.processText sentTokenize (text ++ more) =
      (s.processText sentTokenize text).processText sentTokenize more :=
  List.foldl_append ..

theorem processText_singleton (s : TTSService) (char : Char) :
    s.processText sentTokenize [char] = s.processChar sentTokenize char :=
  rfl

/-- The service that has asked for more before. -/
def TTSService.after (asked : List Str) (s : TTSService) : TTSService :=
  { s with requests := asked ++ s.requests }

theorem pushTtsFrames_after (asked : List Str) (s : TTSService) (sentence : Option Str) :
    (s.after asked).pushTtsFrames sentence = (s.pushTtsFrames sentence).after asked := by
  cases sentence with
  | none => rfl
  | some sentence =>
    unfold TTSService.pushTtsFrames
    dsimp only
    split
    · rfl
    · rw [TTSService.after, TTSService.after, List.append_assoc]

theorem processText_after (asked : List Str) (s : TTSService) (text : Str) :
    (s.after asked).processText sentTokenize text =
      (s.processText sentTokenize text).after asked := by
  induction text generalizing s with
  | nil => rfl
  | cons char text ih =>
    have hchar : (s.after asked).processChar sentTokenize char =
        (s.processChar sentTokenize char).after asked :=
      pushTtsFrames_after asked ⟨(s.textAggregator.aggregate sentTokenize char).1, s.requests⟩
        (s.textAggregator.aggregate sentTokenize char).2
    show ((s.after asked).processChar sentTokenize char).processText sentTokenize text = _
    rw [hchar, ih]
    rfl

/-- What was asked for before makes no difference. -/
theorem run_after (asked : List Str) (s : TTSService) (frames : List SpeechFrame) :
    (s.after asked).run sentTokenize frames = (s.run sentTokenize frames).after asked := by
  induction frames generalizing s with
  | nil => rfl
  | cons frame frames ih =>
    have hframe : (s.after asked).processFrame sentTokenize frame =
        (s.processFrame sentTokenize frame).after asked := by
      cases frame with
      | text text => exact processText_after asked s text
      | responseStart => rfl
      | responseEnd =>
        exact pushTtsFrames_after asked ⟨s.textAggregator.flush.1, s.requests⟩
          s.textAggregator.flush.2
      | interruption => rfl
    show ((s.after asked).processFrame sentTokenize frame).run sentTokenize frames = _
    rw [hframe, ih]
    rfl

/-- An interruption leaves a service with what it has asked for. -/
theorem run_interruption (s : TTSService) (frames : List SpeechFrame) :
    (s.run sentTokenize (.interruption :: frames)).requests =
      s.requests ++ (TTSService.fresh.run sentTokenize frames).requests := by
  have hinterrupt : s.interrupt = TTSService.fresh.after s.requests := by
    unfold TTSService.interrupt TTSService.after
    rw [TTSService.fresh, List.append_nil]
  show (s.interrupt.run sentTokenize frames).requests = _
  rw [hinterrupt, run_after]
  rfl

theorem textAggregator_pushTtsFrames (s : TTSService) (sentence : Option Str) :
    (s.pushTtsFrames sentence).textAggregator = s.textAggregator := by
  cases sentence with
  | none => rfl
  | some sentence =>
    unfold TTSService.pushTtsFrames
    dsimp only
    split <;> rfl

/-- A service that waits for a character has text. -/
def Holds (s : TTSService) : Prop :=
  s.textAggregator.text = [] → s.textAggregator.needsLookahead = false

theorem holds_processChar (s : TTSService) (char : Char) : Holds (s.processChar sentTokenize char) := by
  unfold Holds
  show (TTSService.pushTtsFrames _ _).textAggregator.text = [] →
    (TTSService.pushTtsFrames _ _).textAggregator.needsLookahead = false
  rw [textAggregator_pushTtsFrames]
  show ((SimpleTextAggregator.mk (s.textAggregator.text ++ [char])
      s.textAggregator.needsLookahead).checkSentence sentTokenize char).1.text = [] →
    ((SimpleTextAggregator.mk (s.textAggregator.text ++ [char])
      s.textAggregator.needsLookahead).checkSentence sentTokenize char).1.needsLookahead = false
  have hsome : s.textAggregator.text ++ [char] ≠ [] := by simp
  unfold SimpleTextAggregator.checkSentence
  split
  · split
    · exact fun htext => absurd htext hsome
    · dsimp only
      split
      · exact fun _ => rfl
      · exact fun _ => rfl
  · split <;> exact fun htext => absurd htext hsome

theorem textAggregator_flush {s : TTSService} (h : Holds s) : s.flush.textAggregator = .fresh := by
  unfold TTSService.flush
  dsimp only
  rw [textAggregator_pushTtsFrames]
  unfold SimpleTextAggregator.flush
  split
  · rename_i hempty
    have htext := List.isEmpty_iff.mp hempty
    rw [SimpleTextAggregator.fresh, ← htext, ← h htext]
  · rfl

theorem holds_of_fresh {s : TTSService} (h : s.textAggregator = .fresh) : Holds s := by
  intro _
  rw [h]
  rfl

theorem Holds.processFrame {s : TTSService} (h : Holds s) (frame : SpeechFrame) :
    Holds (s.processFrame sentTokenize frame) := by
  cases frame with
  | text text =>
    show Holds (s.processText sentTokenize text)
    induction text using List.reverseRecOn with
    | nil => exact h
    | append_singleton text char =>
      rw [processText_append, processText_singleton]
      exact holds_processChar _ _
  | responseStart => exact h
  | responseEnd => exact holds_of_fresh (textAggregator_flush h)
  | interruption => exact holds_of_fresh rfl

theorem Holds.run {s : TTSService} (h : Holds s) (frames : List SpeechFrame) :
    Holds (s.run sentTokenize frames) := by
  induction frames generalizing s with
  | nil => exact h
  | cons frame frames ih => exact ih (h.processFrame frame)

/-! ## Inside a sentence -/

/-- A character that is no space and ends no sentence is all that is waited for. -/
theorem needsLookahead_processChar (s : TTSService) {char : Char} (hspace : isspace char = false)
    (hends : sentenceEndingPunctuation.contains char = false) :
    (s.processChar sentTokenize char).textAggregator.needsLookahead = false := by
  show (TTSService.pushTtsFrames _ _).textAggregator.needsLookahead = false
  rw [textAggregator_pushTtsFrames]
  show ((SimpleTextAggregator.mk (s.textAggregator.text ++ [char])
    s.textAggregator.needsLookahead).checkSentence sentTokenize char).1.needsLookahead = false
  unfold SimpleTextAggregator.checkSentence
  split
  · rw [if_neg (by rw [hspace]; decide)]
    dsimp only
    split <;> rfl
  · rename_i hlookahead
    rw [if_neg (by simpa using hends)]
    simpa using hlookahead

/-- Nothing waits for the next character. -/
theorem processChar_of_not_needsLookahead (sentTokenize : Str → List Str) {s : TTSService}
    (char : Char) (h : s.textAggregator.needsLookahead = false) :
    s.processChar sentTokenize char = ⟨⟨s.textAggregator.text ++ [char],
      sentenceEndingPunctuation.contains char⟩, s.requests⟩ := by
  unfold TTSService.processChar SimpleTextAggregator.aggregate SimpleTextAggregator.checkSentence
  dsimp only
  rw [if_neg (by rw [h]; decide), List.getLast?_concat, Option.any_some]
  cases hends : sentenceEndingPunctuation.contains char with
  | true => rfl
  | false =>
    rw [h]
    rfl

theorem processText_inside {s : TTSService} (h : s.textAggregator.needsLookahead = false) (text : Str)
    (htext : ∀ char ∈ text, sentenceEndingPunctuation.contains char = false) :
    s.processText sentTokenize text = ⟨⟨s.textAggregator.text ++ text, false⟩, s.requests⟩ := by
  induction text generalizing s with
  | nil =>
    rw [List.append_nil, ← h]
    rfl
  | cons char text ih =>
    have hchar := processChar_of_not_needsLookahead sentTokenize char h
    rw [htext char List.mem_cons_self] at hchar
    show (s.processChar sentTokenize char).processText sentTokenize text = _
    rw [hchar, ih rfl fun c hc => htext c (List.mem_cons_of_mem _ hc), List.append_assoc]
    rfl

end TechMart.Pipecat
