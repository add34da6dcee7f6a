import TechMart.Bot.Spoken
import TechMart.Pipecat.AssistantTurn

/-!
# A turn is remembered

The way of a reply into the history: from the frames of a turn through the TTS
service and the playback to the assistant aggregator. Playback may stop anywhere;
the caller's next turn begins with an interruption.
-/

namespace TechMart.Bot

open Python Pipecat

/-! ## The shape of a turn -/

def endsResponse : Frame → Bool
  | .responseEnd | .endFrame => true
  | _ => false

/-- The texts of a turn follow a start, and no end. -/
def Shaped (fs : List Frame) : Prop :=
  (∀ f ∈ fs, isText f = false) ∨
    ∃ before after, fs = .responseStart :: before ++ after ∧
      (∀ f ∈ before, endsResponse f = false) ∧ ∀ f ∈ after, isText f = false

theorem no_end_delivery (firstToken : Bool) (events : List StreamEvent) :
    ∀ f ∈ pushes (delivery firstToken events), endsResponse f = false := by
  rw [pushes_delivery]
  intro f hf
  cases List.mem_append.mp hf with
  | inl hstart =>
    split at hstart
    · cases List.mem_singleton.mp hstart
      rfl
    · cases hstart
  | inr htext =>
    obtain ⟨content, _, rfl⟩ := List.mem_map.mp htext
    rfl

theorem no_end_within {firstToken : Bool} {ahead : List StreamEvent} {inner : List Await} {a : Await}
    (h : Within firstToken ahead inner a) : ∀ f ∈ pushes inner, endsResponse f = false := by
  cases h <;> simp [Await.frame, endsResponse]

section
variable {late : Bool} {env : Env} {svc : LLMService} {events : List StreamEvent} {log : CallLog}

variable (late) in
/-- What the service sends of a response: no end, then no text. -/
theorem shaped_response {r : Except Raised Unit} (h : Prog.Runs (respond env svc events) log r)
    (hallowed : ∀ c ∈ log, Allowed c) :
    ∃ before after, frames late log = before ++ after ∧
      (∀ f ∈ before, endsResponse f = false) ∧ ∀ f ∈ after, isText f = false := by
  cases respond_log h hallowed with
  | inl hcut =>
    obtain ⟨e, hcut, _⟩ := hcut
    obtain ⟨done, ahead, inner, a, _, hwithin, hlog⟩ := cutAt_response hcut
    have hframes : frames late log =
        pushes (delivery true done) ++ pushes inner ++ (handedOn late (.await a, .error e)).toList := by
      rw [hlog, frames_append, frames_answered, pushes_append, frames_singleton]
    have hbefore : ∀ f ∈ pushes (delivery true done) ++ pushes inner, endsResponse f = false :=
      List.forall_mem_append.mpr ⟨no_end_delivery true done, no_end_within hwithin⟩
    have hlast : ∀ f ∈ (handedOn late (.await a, .error e)).toList,
        endsResponse f = false ∨ isText f = false := by
      intro f _
      cases f with
      | text content => exact .inl rfl
      | _ => exact .inr rfl
    cases hhanded : handedOn late (.await a, .error e) with
    | none =>
      refine ⟨_, [], hframes.trans ?_, hbefore, List.forall_mem_nil _⟩
      rw [hhanded]
      rfl
    | some f =>
      rw [hhanded] at hframes hlast
      cases hlast f (List.mem_singleton.mpr rfl) with
      | inl hno =>
        refine ⟨_, [], hframes.trans (List.append_nil _).symm, ?_, List.forall_mem_nil _⟩
        exact List.forall_mem_append.mpr ⟨hbefore, List.forall_mem_singleton.mpr hno⟩
      | inr hno => exact ⟨_, _, hframes, hbefore, List.forall_mem_singleton.mpr hno⟩
  | inr hwhole =>
    obtain ⟨rest, hlog, hrest⟩ := hwhole
    have haside : Aside rest := by
      cases hrest with
      | inl hhandoff => exact hhandoff.2.asks (asks_handoff env svc)
      | inr hnone =>
        rw [hnone.2.1]
        exact fun _ hc => absurd hc List.not_mem_nil
    have hframes : frames late log =
        pushes (delivery true events) ++ ([.responseEnd] ++ frames late rest) := by
      rw [hlog, Prog.answered_append, frames_append, frames_append, frames_answered, response,
        pushes_append, List.append_assoc, List.append_assoc]
      rfl
    refine ⟨_, _, hframes, no_end_delivery true events, ?_⟩
    exact List.forall_mem_append.mpr
      ⟨List.forall_mem_singleton.mpr rfl, beside_no_text haside.beside⟩

theorem shaped_body (h : Body env svc events log) (hallowed : ∀ c ∈ log, Allowed c) :
    Shaped (frames late log) := by
  cases h with
  | cut hcut =>
    left
    intro f hf
    obtain ⟨before, a, after, hsplit, hlog⟩ := cutAt_split hcut
    have hno : ∀ b ∈ lead svc, ∀ content, b.frame ≠ some (.text content) := by
      simp [lead, Await.frame]
    obtain ⟨b, ans, hb, hframe⟩ := exists_await hf
    have hmem : b ∈ lead svc := by
      rw [hlog] at hb
      cases List.mem_append.mp hb with
      | inl hbefore =>
        simp only [Prog.answered, awaits, List.map_map, List.mem_map] at hbefore
        obtain ⟨b', hb', heq⟩ := hbefore
        cases heq
        rw [hsplit]
        exact List.mem_append_left _ hb'
      | inr hlast =>
        cases List.mem_singleton.mp hlast
        rw [hsplit]
        simp
    cases f with
    | text content => exact absurd hframe (hno b hmem content)
    | _ => rfl
  | @responded r rlog report hrespond hreport =>
    have hlog : ∀ c ∈ rlog, Allowed c := fun c hc => hallowed c (by simp [hc])
    obtain ⟨before, after, hframes, hbefore, hafter⟩ := shaped_response late hrespond hlog
    right
    refine ⟨.ttsUpdateSettings (ttsLanguage svc.customerProfile) :: before,
      after ++ frames late report, ?_, ?_, ?_⟩
    · rw [frames_append, frames_append, frames_answered, hframes, ← List.append_assoc,
        List.append_assoc _ after]
      rfl
    · exact List.forall_mem_cons.mpr ⟨rfl, hbefore⟩
    · exact List.forall_mem_append.mpr ⟨hafter, beside_no_text (aside_report hreport).beside⟩

theorem Shaped.append {fs gs : List Frame} (h : Shaped fs) (hgs : ∀ f ∈ gs, isText f = false) :
    Shaped (fs ++ gs) := by
  cases h with
  | inl hno => exact .inl (List.forall_mem_append.mpr ⟨hno, hgs⟩)
  | inr hsome =>
    obtain ⟨before, after, hfs, hbefore, hafter⟩ := hsome
    refine .inr ⟨before, after ++ gs, ?_, hbefore, List.forall_mem_append.mpr ⟨hafter, hgs⟩⟩
    rw [hfs, List.append_assoc]

end

/-- Whatever it streams and wherever it is cancelled. -/
theorem shaped_frames (turn : SpokenTurn) : Shaped turn.frames := by
  have hopening : frames turn.late (Prog.answered (awaits opening)) = [] := by
    rw [frames_answered]
    rfl
  cases played_log turn.played with
  | inl hcut =>
    have haside : Aside turn.log := all_cutAt hcut (by simp [opening, Await.aside, Await.beside])
    exact .inl (beside_no_text haside.beside)
  | inr hplayed =>
    obtain ⟨body, last, hlog, hbody, hlast⟩ := hplayed
    obtain ⟨hbeside, _⟩ := closing_frames turn.late hlast
    have hallowed : ∀ c ∈ body, Allowed c := fun c hc => turn.played.allowed c (by simp [hlog, hc])
    rw [SpokenTurn.frames, hlog, frames_append, frames_append, hopening, List.nil_append]
    exact (shaped_body hbody hallowed).append (beside_no_text hbeside)

/-! ## From the service to the aggregator -/

/-- The texts a frame makes the TTS service ask for. -/
def asked (sentTokenize : Str → List Str) (s : TTSService) (frame : SpeechFrame) : List Str :=
  (TTSService.processFrame sentTokenize ⟨s.textAggregator, []⟩ frame).requests

/-- What the service sends on for a frame: a text follows once it is spoken. The
session's end ends a turn like a response's. -/
def sentOn (sentTokenize : Str → List Str) (s : TTSService) (frame : SpeechFrame) :
    List AssistantFrame :=
  (asked sentTokenize s frame).map (fun text => .text ⟨text, false⟩ true) ++
    match frame with
    | .responseStart => [.responseStart]
    | .responseEnd => [.responseEnd]
    | _ => []

def output (sentTokenize : Str → List Str) (s : TTSService) : List SpeechFrame → List AssistantFrame
  | [] => []
  | frame :: frames =>
    sentOn sentTokenize s frame ++ output sentTokenize (s.processFrame sentTokenize frame) frames

def isPlayed : AssistantFrame → Bool
  | .text .. => true
  | _ => false

def closes : AssistantFrame → Bool
  | .responseEnd | .pushAggregation | .interruption => true
  | _ => false

def isTtsStarted : AssistantFrame → Bool
  | .ttsStarted _ => true
  | _ => false

variable {sentTokenize : Str → List Str} {s : TTSService}

theorem requests_processFrame (s : TTSService) (frame : SpeechFrame) :
    (s.processFrame sentTokenize frame).requests = s.requests ++ asked sentTokenize s frame := by
  have hafter : ((TTSService.mk s.textAggregator []).after s.requests).run sentTokenize [frame] =
      ((TTSService.mk s.textAggregator []).run sentTokenize [frame]).after s.requests :=
    run_after _ _ _
  have hs : (TTSService.mk s.textAggregator []).after s.requests = s := by
    rw [TTSService.after, List.append_nil]
  rw [hs] at hafter
  exact congrArg TTSService.requests hafter

theorem output_append (s : TTSService) (frames later : List SpeechFrame) :
    output sentTokenize s (frames ++ later) =
      output sentTokenize s frames ++ output sentTokenize (s.run sentTokenize frames) later := by
  induction frames generalizing s with
  | nil => rfl
  | cons frame frames ih =>
    rw [List.cons_append, output, output, ih, List.append_assoc]
    rfl

def NoText (frame : SpeechFrame) : Prop := ∀ text, frame ≠ .text text

theorem noText_speech {fs : List Frame} (h : ∀ f ∈ fs, isText f = false) :
    ∀ frame ∈ fs.flatMap Frame.speech, NoText frame := by
  rintro frame hframe text rfl
  obtain ⟨f, hf, hspeech⟩ := List.mem_flatMap.mp hframe
  have hno := h f hf
  cases f with
  | text content => cases hno
  | _ => simp [Frame.speech] at hspeech

theorem no_end_speech {fs : List Frame} (h : ∀ f ∈ fs, endsResponse f = false) :
    ∀ frame ∈ fs.flatMap Frame.speech, frame ≠ .responseEnd := by
  rintro frame hframe rfl
  obtain ⟨f, hf, hspeech⟩ := List.mem_flatMap.mp hframe
  have hno := h f hf
  cases f <;> simp [Frame.speech, endsResponse] at hspeech hno

theorem asked_of_fresh (sentTokenize : Str → List Str) (h : s.textAggregator = .fresh)
    {frame : SpeechFrame} (hframe : NoText frame) :
    asked sentTokenize s frame = [] ∧ (s.processFrame sentTokenize frame).textAggregator = .fresh := by
  have hflush := textAggregator_flush (holds_of_fresh h)
  unfold asked
  rw [h]
  cases frame with
  | text text => exact absurd rfl (hframe text)
  | responseStart => exact ⟨rfl, h⟩
  | responseEnd => exact ⟨rfl, hflush⟩
  | interruption => exact ⟨rfl, rfl⟩

theorem mem_sentOn {frame : SpeechFrame} {f : AssistantFrame} (h : f ∈ sentOn sentTokenize s frame) :
    (∃ text ∈ asked sentTokenize s frame, f = .text ⟨text, false⟩ true) ∨
      f = .responseStart ∧ frame = .responseStart ∨ f = .responseEnd ∧ frame = .responseEnd := by
  cases List.mem_append.mp h with
  | inl htext =>
    obtain ⟨text, hasked, rfl⟩ := List.mem_map.mp htext
    exact .inl ⟨text, hasked, rfl⟩
  | inr hsame =>
    cases frame with
    | responseStart => exact .inr (.inl ⟨List.mem_singleton.mp hsame, rfl⟩)
    | responseEnd => exact .inr (.inr ⟨List.mem_singleton.mp hsame, rfl⟩)
    | text text => cases hsame
    | interruption => cases hsame

/-- Without text, and with nothing waiting, nothing is played. -/
theorem no_played_of_fresh (h : s.textAggregator = .fresh) {frames : List SpeechFrame}
    (hframes : ∀ frame ∈ frames, NoText frame) :
    ∀ f ∈ output sentTokenize s frames, isPlayed f = false := by
  induction frames generalizing s with
  | nil => exact List.forall_mem_nil _
  | cons frame frames ih =>
    obtain ⟨hframe, hframes⟩ := List.forall_mem_cons.mp hframes
    obtain ⟨hasked, hfresh⟩ := asked_of_fresh sentTokenize h hframe
    rw [output, List.forall_mem_append]
    refine ⟨?_, ih hfresh hframes⟩
    intro f hf
    cases mem_sentOn hf with
    | inl htext =>
      obtain ⟨text, hmem, _⟩ := htext
      rw [hasked] at hmem
      cases hmem
    | inr hsame => cases hsame with
      | inl hstart => exact hstart.1 ▸ rfl
      | inr hend => exact hend.1 ▸ rfl

theorem no_closes_sentOn {frame : SpeechFrame} (h : frame ≠ .responseEnd) :
    ∀ f ∈ sentOn sentTokenize s frame, closes f = false := by
  intro f hf
  cases mem_sentOn hf with
  | inl htext =>
    obtain ⟨_, _, rfl⟩ := htext
    rfl
  | inr hsame => cases hsame with
    | inl hstart => exact hstart.1 ▸ rfl
    | inr hend => exact absurd hend.2 h

/-- Without an end, no turn is closed. -/
theorem no_closes_output {frames : List SpeechFrame} (h : ∀ frame ∈ frames, frame ≠ .responseEnd) :
    ∀ f ∈ output sentTokenize s frames, closes f = false := by
  induction frames generalizing s with
  | nil => exact List.forall_mem_nil _
  | cons frame frames ih =>
    obtain ⟨hframe, hframes⟩ := List.forall_mem_cons.mp h
    rw [output, List.forall_mem_append]
    exact ⟨no_closes_sentOn hframe, ih hframes⟩

/-- What is open is closed once, and nothing is played after that. -/
def ClosedOnce (fs : List AssistantFrame) : Prop :=
  ∃ before after, fs = before ++ after ∧ (∀ f ∈ before, closes f = false) ∧
    ∀ f ∈ after, isPlayed f = false

/-- Without text, what waits is asked for at the first end. -/
theorem closedOnce_output (sentTokenize : Str → List Str) (h : Holds s) {frames : List SpeechFrame}
    (hframes : ∀ frame ∈ frames, NoText frame) : ClosedOnce (output sentTokenize s frames) := by
  induction frames generalizing s with
  | nil => exact ⟨[], [], rfl, List.forall_mem_nil _, List.forall_mem_nil _⟩
  | cons frame frames ih =>
    obtain ⟨hframe, hrest⟩ := List.forall_mem_cons.mp hframes
    rw [output]
    by_cases hend : frame = .responseEnd
    · subst hend
      have hfresh := textAggregator_flush h
      refine ⟨(asked sentTokenize s .responseEnd).map fun text => .text ⟨text, false⟩ true,
        .responseEnd :: output sentTokenize s.flush frames, ?_, ?_, ?_⟩
      · rw [sentOn, List.append_assoc]
        rfl
      · intro f hf
        obtain ⟨_, _, rfl⟩ := List.mem_map.mp hf
        rfl
      · exact List.forall_mem_cons.mpr ⟨rfl, no_played_of_fresh hfresh hrest⟩
    · obtain ⟨before, after, houtput, hbefore, hafter⟩ := ih (h.processFrame frame) hrest
      refine ⟨sentOn sentTokenize s frame ++ before, after, ?_, ?_, hafter⟩
      · rw [houtput, List.append_assoc]
      · exact List.forall_mem_append.mpr ⟨no_closes_sentOn hend, hbefore⟩

/-- A turn is open whenever a text of it is played. -/
def OpenedFirst (fs : List AssistantFrame) : Prop :=
  (∀ f ∈ fs, isPlayed f = false) ∨ ∃ rest, fs = .responseStart :: rest ∧ ClosedOnce rest

theorem openedFirst_output (turn : SpokenTurn) :
    OpenedFirst (output sentTokenize .fresh turn.speech) := by
  have hfresh : TTSService.fresh.textAggregator = .fresh := rfl
  have hlast : ∀ frame ∈ (if turn.cancelled then [SpeechFrame.interruption] else []),
      NoText frame := by
    intro frame hframe text htext
    split at hframe
    · cases (List.mem_singleton.mp hframe).symm.trans htext
    · cases hframe
  cases shaped_frames turn with
  | inl hno =>
    left
    apply no_played_of_fresh hfresh
    exact List.forall_mem_append.mpr ⟨noText_speech hno, hlast⟩
  | inr hsome =>
    obtain ⟨before, after, hframes, hbefore, hafter⟩ := hsome
    right
    have hspeech : turn.speech = .responseStart :: (before.flatMap Frame.speech ++
        (after.flatMap Frame.speech ++ if turn.cancelled then [.interruption] else [])) := by
      rw [SpokenTurn.speech, hframes, List.cons_append, List.flatMap_cons, List.flatMap_append,
        List.append_assoc, List.append_assoc]
      rfl
    have hrest : ∀ frame ∈ after.flatMap Frame.speech ++
        (if turn.cancelled then [.interruption] else []), NoText frame :=
      List.forall_mem_append.mpr ⟨noText_speech hafter, hlast⟩
    rw [hspeech, output]
    refine ⟨_, rfl, ?_⟩
    rw [output_append]
    have hholds : Holds ((TTSService.fresh.processFrame sentTokenize .responseStart).run sentTokenize
        (before.flatMap Frame.speech)) := Holds.run (holds_of_fresh rfl) _
    obtain ⟨first, last, houtput, hfirst, hplayed⟩ := closedOnce_output sentTokenize hholds hrest
    refine ⟨output sentTokenize (TTSService.fresh.processFrame sentTokenize .responseStart)
      (before.flatMap Frame.speech) ++ first, last, ?_, ?_, hplayed⟩
    · rw [List.append_assoc, ← houtput]
      rfl
    · exact List.forall_mem_append.mpr ⟨no_closes_output (no_end_speech hbefore), hfirst⟩

/-! ## What is remembered -/

def playedText : AssistantFrame → Option Str
  | .text part _ => some part.text
  | _ => none

def playedTexts (fs : List AssistantFrame) : List Str := fs.filterMap playedText

def parts (texts : List Str) : List TextPart := texts.map (⟨·, false⟩)

/-- The message for the texts that were played. -/
def remembers (texts : List Str) : Option Str :=
  if texts.isEmpty then none else some (concatenateAggregatedText (parts texts))

/-- If it is a text, then one that the service sends on. -/
def SentOn (f : AssistantFrame) : Prop :=
  isPlayed f = true → ∃ text, text ≠ [] ∧ f = .text ⟨text, false⟩ true

theorem playedTexts_of_no_played {fs : List AssistantFrame} (h : ∀ f ∈ fs, isPlayed f = false) :
    playedTexts fs = [] := by
  apply List.filterMap_eq_nil_iff.mpr
  intro f hf
  have hno := h f hf
  cases f with
  | text part appendToContext => cases hno
  | _ => rfl

theorem playedTexts_append (fs gs : List AssistantFrame) :
    playedTexts (fs ++ gs) = playedTexts fs ++ playedTexts gs :=
  List.filterMap_append ..

/-- In an open turn the texts add up. -/
theorem run_open (texts : List Str) (messages : List Str) {fs : List AssistantFrame}
    (hopen : ∀ f ∈ fs, closes f = false) (hsent : ∀ f ∈ fs, SentOn f) :
    (AssistantAggregator.mk (parts texts) messages true).run fs =
      ⟨parts (texts ++ playedTexts fs), messages, true⟩ := by
  induction fs generalizing texts with
  | nil =>
    rw [playedTexts, List.filterMap_nil, List.append_nil]
    rfl
  | cons f fs ih =>
    obtain ⟨hf, hopen⟩ := List.forall_mem_cons.mp hopen
    obtain ⟨hsentf, hsent⟩ := List.forall_mem_cons.mp hsent
    have hstep : (AssistantAggregator.mk (parts texts) messages true).processFrame f =
        ⟨parts (texts ++ (playedText f).toList), messages, true⟩ := by
      cases f with
      | text part appendToContext =>
        obtain ⟨text, hsome, htext⟩ := hsentf rfl
        cases htext
        show AssistantAggregator.handleText _ _ _ = _
        have hlength : ¬ text.length = 0 := by simpa using hsome
        rw [AssistantAggregator.handleText, if_neg (by decide), if_neg hlength, parts, parts,
          List.map_append]
        rfl
      | responseStart | ttsStarted =>
        show _ = AssistantAggregator.mk (parts (texts ++ [])) messages true
        rw [List.append_nil]
        simp [AssistantAggregator.processFrame, AssistantAggregator.triggerStarted]
      | responseEnd | pushAggregation | interruption => cases hf
    show ((AssistantAggregator.mk (parts texts) messages true).processFrame f).run fs = _
    rw [hstep, ih _ hopen hsent, List.append_assoc, playedTexts, playedTexts, List.filterMap_cons]
    cases playedText f <;> rfl

/-- The messages there will be once the turn is over. -/
def Owes (a : AssistantAggregator) (messages : List Str) : Prop :=
  ∃ texts earlier turnOpen, a = ⟨parts texts, earlier, turnOpen⟩ ∧
    (texts ≠ [] → turnOpen = true) ∧ messages = earlier ++ (remembers texts).toList

variable {a : AssistantAggregator} {messages : List Str}

/-- A turn that is stopped has paid. -/
theorem Owes.triggerStopped (h : Owes a messages) : a.triggerStopped = ⟨[], messages, false⟩ := by
  obtain ⟨texts, earlier, turnOpen, rfl, hopen, rfl⟩ := h
  cases texts with
  | nil =>
    have hnone : earlier ++ (remembers []).toList = earlier := List.append_nil _
    rw [hnone]
    cases turnOpen <;> rfl
  | cons text texts =>
    rw [hopen (List.cons_ne_nil _ _)]
    rfl

theorem owes_idle (messages : List Str) (turnOpen : Bool) : Owes ⟨[], messages, turnOpen⟩ messages :=
  ⟨[], messages, turnOpen, rfl, fun h => absurd rfl h, (List.append_nil _).symm⟩

/-- Nothing that is not played changes what is owed. -/
theorem Owes.processFrame (h : Owes a messages) {f : AssistantFrame} (hf : isPlayed f = false) :
    Owes (a.processFrame f) messages := by
  have hstopped : Owes a.triggerStopped messages := h.triggerStopped ▸ owes_idle messages false
  have hstarted : Owes a.triggerStarted messages := by
    obtain ⟨texts, earlier, turnOpen, rfl, _, howed⟩ := h
    exact ⟨texts, earlier, true, rfl, fun _ => rfl, howed⟩
  cases f with
  | text part appendToContext => cases hf
  | responseStart => exact hstarted
  | responseEnd => exact hstopped
  | pushAggregation => exact hstopped
  | interruption =>
    show Owes a.triggerStopped.reset messages
    rw [h.triggerStopped]
    exact owes_idle messages false
  | ttsStarted appendToContext =>
    unfold AssistantAggregator.processFrame
    dsimp only
    split
    · exact hstarted
    · exact h

theorem Owes.run (h : Owes a messages) {fs : List AssistantFrame} (hfs : ∀ f ∈ fs, isPlayed f = false) :
    Owes (a.run fs) messages := by
  induction fs generalizing a with
  | nil => exact h
  | cons f fs ih =>
    obtain ⟨hf, hfs⟩ := List.forall_mem_cons.mp hfs
    exact ih (h.processFrame hf) hfs

theorem Owes.interrupted (h : Owes a messages) :
    a.processFrame .interruption = ⟨[], messages, false⟩ := by
  show a.triggerStopped.reset = _
  rw [h.triggerStopped]
  rfl

theorem ClosedOnce.early {fs gs : List AssistantFrame} (h : ClosedOnce gs) (hearly : fs <+: gs) :
    ClosedOnce fs := by
  obtain ⟨before, after, rfl, hbefore, hafter⟩ := h
  cases List.prefix_or_prefix_of_prefix hearly (List.prefix_append before after) with
  | inl hshort =>
    refine ⟨fs, [], (List.append_nil _).symm, ?_, List.forall_mem_nil _⟩
    exact fun f hf => hbefore f (hshort.subset hf)
  | inr hlong =>
    obtain ⟨more, rfl⟩ := hlong
    refine ⟨before, more, rfl, hbefore, ?_⟩
    exact fun f hf => hafter f (((List.prefix_append_right_inj _).mp hearly).subset hf)

theorem OpenedFirst.early {fs gs : List AssistantFrame} (h : OpenedFirst gs)
    (hearly : fs <+: gs) : OpenedFirst fs := by
  cases h with
  | inl hno => exact .inl fun f hf => hno f (hearly.subset hf)
  | inr hopened =>
    obtain ⟨rest, rfl, hclosed⟩ := hopened
    cases fs with
    | nil => exact .inl (List.forall_mem_nil _)
    | cons f fs =>
      obtain ⟨rfl, hrest⟩ := List.cons_prefix_cons.mp hearly
      exact .inr ⟨fs, rfl, hclosed.early hrest⟩

/-- Frames that neither close a turn nor are played may stand anywhere. -/
theorem forall_of_filter {p : AssistantFrame → Bool} {fs : List AssistantFrame}
    (htts : ∀ f, isTtsStarted f = true → p f = false)
    (h : ∀ f ∈ fs.filter (fun f => !isTtsStarted f), p f = false) : ∀ f ∈ fs, p f = false := by
  intro f hf
  by_cases hstarted : isTtsStarted f = true
  · exact htts f hstarted
  · exact h f (List.mem_filter.mpr ⟨hf, by simpa using hstarted⟩)

theorem run_ttsStarted (messages : List Str) (turnOpen : Bool) {fs : List AssistantFrame}
    (h : ∀ f ∈ fs, isTtsStarted f = true) :
    ∃ turnOpen', (AssistantAggregator.mk [] messages turnOpen).run fs = ⟨[], messages, turnOpen'⟩ := by
  induction fs generalizing turnOpen with
  | nil => exact ⟨turnOpen, rfl⟩
  | cons f fs ih =>
    obtain ⟨hf, hfs⟩ := List.forall_mem_cons.mp h
    cases f with
    | ttsStarted appendToContext =>
      cases appendToContext <;> cases turnOpen
      · exact ih false hfs
      · exact ih true hfs
      · exact ih true hfs
      · exact ih true hfs
    | _ => cases hf

theorem run_append_assistant (a : AssistantAggregator) (fs gs : List AssistantFrame) :
    a.run (fs ++ gs) = (a.run fs).run gs :=
  List.foldl_append ..

/-- **One turn.** It is remembered as what was played of it. -/
theorem owes_delivered (messages : List Str) {fs : List AssistantFrame} (hsent : ∀ f ∈ fs, SentOn f)
    (hfirst : OpenedFirst (fs.filter fun f => !isTtsStarted f)) :
    Owes ((AssistantAggregator.mk [] messages false).run fs)
      (messages ++ (remembers (playedTexts fs)).toList) := by
  have hplayed : ∀ f, isTtsStarted f = true → isPlayed f = false := by
    intro f hf
    cases f with
    | ttsStarted => rfl
    | _ => cases hf
  have hcloses : ∀ f, isTtsStarted f = true → closes f = false := by
    intro f hf
    cases f with
    | ttsStarted => rfl
    | _ => cases hf
  cases hfirst with
  | inl hno =>
    have hnothing := forall_of_filter hplayed hno
    rw [playedTexts_of_no_played hnothing]
    show Owes _ (messages ++ [])
    rw [List.append_nil]
    exact (owes_idle messages false).run hnothing
  | inr hopened =>
    obtain ⟨rest, hfilter, before, after, rfl, hbefore, hafter⟩ := hopened
    obtain ⟨first, later, rfl, hleading, _, hlater⟩ := List.filter_eq_cons_iff.mp hfilter
    obtain ⟨spoken, silent, rfl, hspoken, hsilent⟩ := List.filter_eq_append_iff.mp hlater
    rw [← hspoken] at hbefore
    rw [← hsilent] at hafter
    have htts : ∀ f ∈ first, isTtsStarted f = true := by
      intro f hf
      simpa using hleading f hf
    have hnone : ∀ f ∈ first, isPlayed f = false := fun f hf => hplayed f (htts f hf)
    have hlast := forall_of_filter hplayed hafter
    have htexts : playedTexts (first ++ .responseStart :: (spoken ++ silent)) = playedTexts spoken := by
      have hstart : playedTexts (.responseStart :: (spoken ++ silent)) =
          playedTexts (spoken ++ silent) := rfl
      rw [playedTexts_append, hstart, playedTexts_append, playedTexts_of_no_played hnone,
        playedTexts_of_no_played hlast, List.append_nil, List.nil_append]
    obtain ⟨turnOpen, hrun⟩ := run_ttsStarted messages false htts
    have hopen := run_open [] messages (forall_of_filter hcloses hbefore)
      fun f hf => hsent f (by simp [hf])
    rw [htexts, run_append_assistant, hrun]
    show Owes ((AssistantAggregator.mk (parts []) messages true).run (spoken ++ silent)) _
    rw [run_append_assistant, hopen]
    apply Owes.run ?_ hlast
    exact ⟨playedTexts spoken, messages, true, rfl, fun _ => rfl, rfl⟩

/-! ## The history -/

def Worded (s : TTSService) : Prop := ∀ text ∈ s.requests, text ≠ []

theorem Worded.pushTtsFrames {s : TTSService} (h : Worded s) (sentence : Option Str) :
    Worded (s.pushTtsFrames sentence) := by
  cases sentence with
  | none => exact h
  | some sentence =>
    unfold TTSService.pushTtsFrames
    dsimp only
    split
    · exact h
    · rename_i hblank
      apply List.forall_mem_append.mpr ⟨h, ?_⟩
      intro text htext hnil
      rw [List.mem_singleton.mp htext] at hnil
      rw [hnil] at hblank
      exact hblank rfl

theorem Worded.processText {s : TTSService} (h : Worded s) (text : Str) :
    Worded (s.processText sentTokenize text) := by
  induction text generalizing s with
  | nil => exact h
  | cons char text ih =>
    have haggregate : Worded ⟨(s.textAggregator.aggregate sentTokenize char).1, s.requests⟩ := h
    exact ih (haggregate.pushTtsFrames _)

/-- Every text that is asked for has something in it. -/
theorem asked_ne_nil (s : TTSService) (frame : SpeechFrame) :
    ∀ text ∈ asked sentTokenize s frame, text ≠ [] := by
  have hnone (a : SimpleTextAggregator) : Worded ⟨a, []⟩ := List.forall_mem_nil _
  unfold asked
  cases frame with
  | text text => exact (hnone _).processText text
  | responseStart => exact hnone _
  | responseEnd => exact (hnone s.textAggregator.flush.1).pushTtsFrames _
  | interruption => exact hnone _

theorem sentOn_output (s : TTSService) (frames : List SpeechFrame) :
    ∀ f ∈ output sentTokenize s frames, SentOn f := by
  induction frames generalizing s with
  | nil => exact List.forall_mem_nil _
  | cons frame frames ih =>
    rw [output, List.forall_mem_append]
    refine ⟨?_, ih _⟩
    intro f hf hplayed
    cases mem_sentOn hf with
    | inl htext =>
      obtain ⟨text, hasked, rfl⟩ := htext
      exact ⟨text, asked_ne_nil s frame text hasked, rfl⟩
    | inr hsame => cases hsame with
      | inl hstart =>
        rw [hstart.1] at hplayed
        cases hplayed
      | inr hend =>
        rw [hend.1] at hplayed
        cases hplayed

theorem playedTexts_sentOn (s : TTSService) (frame : SpeechFrame) :
    playedTexts (sentOn sentTokenize s frame) = asked sentTokenize s frame := by
  have htexts (texts : List Str) :
      playedTexts (texts.map fun text => .text ⟨text, false⟩ true) = texts := by
    rw [playedTexts, List.filterMap_map]
    exact List.filterMap_some
  unfold sentOn
  rw [playedTexts_append, htexts]
  cases frame <;> exact List.append_nil (asked sentTokenize s _)

/-- The texts of the output are what the service asks for. -/
theorem requests_output (s : TTSService) (frames : List SpeechFrame) :
    (s.run sentTokenize frames).requests =
      s.requests ++ playedTexts (output sentTokenize s frames) := by
  induction frames generalizing s with
  | nil => exact (List.append_nil _).symm
  | cons frame frames ih =>
    show ((s.processFrame sentTokenize frame).run sentTokenize frames).requests = _
    rw [ih, requests_processFrame, output, playedTexts_append, playedTexts_sentOn, List.append_assoc]

/-- A turn, and what of it came to the aggregator before the caller's next: its
output up to somewhere, with a `TTSStartedFrame` here and there. -/
structure PlayedBack (sentTokenize : Str → List Str) where
  turn : SpokenTurn
  delivered : List AssistantFrame
  order : delivered.filter (fun f => !isTtsStarted f) <+:
    output sentTokenize .fresh turn.speech

namespace PlayedBack

def texts (played : PlayedBack sentTokenize) : List Str := playedTexts played.delivered

/-- With the interruption that begins the caller's turn. -/
def frames (played : PlayedBack sentTokenize) : List AssistantFrame :=
  played.delivered ++ [.interruption]

end PlayedBack

theorem sentOn_delivered (played : PlayedBack sentTokenize) : ∀ f ∈ played.delivered, SentOn f := by
  intro f hf hplayed
  have hkept : f ∈ played.delivered.filter fun f => !isTtsStarted f := by
    apply List.mem_filter.mpr
    cases f with
    | text => exact ⟨hf, rfl⟩
    | _ => cases hplayed
  exact sentOn_output _ _ f (played.order.subset hkept) hplayed

theorem run_playedBack (messages : List Str) (turns : List (PlayedBack sentTokenize)) :
    (AssistantAggregator.mk [] messages false).run (turns.flatMap PlayedBack.frames) =
      ⟨[], messages ++ turns.filterMap (fun played => remembers played.texts), false⟩ := by
  induction turns generalizing messages with
  | nil =>
    rw [List.filterMap_nil, List.append_nil]
    rfl
  | cons played turns ih =>
    have howes := owes_delivered messages (sentOn_delivered played)
      ((openedFirst_output played.turn).early played.order)
    have hturn : (AssistantAggregator.mk [] messages false).run played.frames =
        ⟨[], messages ++ (remembers played.texts).toList, false⟩ := by
      rw [PlayedBack.frames, run_append_assistant]
      exact howes.interrupted
    rw [List.flatMap_cons, run_append_assistant, hturn, ih, List.append_assoc, List.filterMap_cons]
    cases remembers played.texts <;> rfl

theorem texts_prefix (played : PlayedBack sentTokenize) :
    played.texts <+: played.turn.requests sentTokenize := by
  have hrequests : played.turn.requests sentTokenize =
      playedTexts (output sentTokenize .fresh played.turn.speech) :=
    requests_output _ _
  have hfilter : playedTexts (played.delivered.filter fun f => !isTtsStarted f) = played.texts := by
    rw [playedTexts, List.filterMap_filter]
    apply List.filterMap_congr
    intro f _
    cases f <;> rfl
  rw [hrequests, ← hfilter]
  exact played.order.filterMap playedText

/-- What the history has of the bot's turns. -/
structure History (sentTokenize : Str → List Str) (turns : List (PlayedBack sentTokenize)) : Prop where
  /-- One message for each turn of which something was played, and nothing else. -/
  messages : AssistantAggregator.fresh.run (turns.flatMap PlayedBack.frames) =
    ⟨[], turns.filterMap fun played => remembers played.texts, false⟩
  /-- It is what was asked for, up to where the playback stopped. -/
  prefixes : ∀ played ∈ turns, played.texts <+: played.turn.requests sentTokenize

/-- **The bot remembers what it has said.** Whatever the graph streams, wherever a
turn is cancelled and wherever its playback stops: the history has one message for
each turn that was heard, and in it the requests of that turn up to the last one
that was played to its end. -/
theorem turns_remembered (sentTokenize : Str → List Str) (turns : List (PlayedBack sentTokenize)) :
    History sentTokenize turns where
  messages := run_playedBack [] turns
  prefixes := fun played _ => texts_prefix played

end TechMart.Bot
