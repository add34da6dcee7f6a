import TechMart.Bot.Reply
import TechMart.Main.Caller

/-!
# The language of a call

The detector notes in the profile which language the caller speaks; the adapter
sets the voice by it, and the synthesizer orders the reply in it. Each of the
three has a table of codes of its own.
-/

namespace TechMart.Bot

open Python TechMart.Graph LangGraph

/-- A member of Pipecat's `Language`, which has no `od-IN`. -/
structure Language where
  value : Str
  ne_nil : value ≠ []
  ne_od : value ≠ "od-IN"

structure Transcription where
  text : Str
  language : Language

def Transcription.wordCount (t : Transcription) : ℕ := (splitWords (strip t.text)).length

/-! ## The detector -/

/-- The language in the profile. -/
def detectedLanguage (profile : Dict Value) : Option Str :=
  match profile.get? "detected_language" with
  | some (.str code) => some code
  | _ => none

/-- `InputLanguageDetectorProcessor.process_frame` of a transcription: the
profile after it, and what it pushes ahead of the transcription. -/
def detect (profile : Dict Value) (t : Transcription) : Dict Value × List Frame :=
  if (strip t.text).isEmpty then (profile, [])
  else if t.language.value ≠ [] ∧ 3 ≤ t.wordCount then
    if detectedLanguage profile ≠ some t.language.value then
      (profile.set "detected_language" (.str t.language.value),
        [.ttsUpdateSettings t.language.value])
    else (profile, [])
  else (profile, [])

theorem wordCount_of_empty {t : Transcription} (h : (strip t.text).isEmpty = true) :
    t.wordCount = 0 := by
  rw [Transcription.wordCount, List.isEmpty_iff.mp h]
  rfl

theorem detect_of_short {t : Transcription} (h : ¬ 3 ≤ t.wordCount) (profile : Dict Value) :
    detect profile t = (profile, []) := by
  unfold detect
  split
  · rfl
  · exact if_neg fun hlong => h hlong.2

/-- A transcription of three words is noted. -/
theorem detect_of_long {t : Transcription} (h : 3 ≤ t.wordCount) (profile : Dict Value) :
    detectedLanguage (detect profile t).1 = some t.language.value := by
  have htext : ¬ (strip t.text).isEmpty = true := by
    intro hempty
    rw [wordCount_of_empty hempty] at h
    omega
  rw [detect, if_neg htext, if_pos ⟨t.language.ne_nil, h⟩]
  by_cases hnoted : detectedLanguage profile = some t.language.value
  · rw [if_neg (not_not.mpr hnoted)]
    exact hnoted
  · rw [if_pos hnoted, detectedLanguage, Dict.get?_set_self]

/-! ## Calls -/

section
variable {N E Q A : Type} {g : LangGraph.Graph N AgentState AgentState E Q A}

/-- What happens in a call, as far as its language goes. -/
inductive Event (g : LangGraph.Graph N AgentState AgentState E Q A) where
  | transcription (t : Transcription)
  | turn (round : Round g)

/-- The profile of a call, and the frames that have reached the TTS. -/
structure Voice where
  profile : Dict Value
  frames : List Frame

def Voice.after (voice : Voice) : Event g → Voice
  | .transcription t => ⟨(detect voice.profile t).1, voice.frames ++ (detect voice.profile t).2⟩
  | .turn round => { voice with frames := voice.frames ++ round.frames }

/-- The call after these events. -/
def voiceAfter (profile : Dict Value) (events : List (Event g)) : Voice :=
  events.foldl Voice.after ⟨profile, []⟩

/-- The language of the latest transcription of three words. -/
def latestLanguage (events : List (Event g)) : Option Language :=
  events.foldl (fun latest event => match event with
    | .transcription t => if 3 ≤ t.wordCount then some t.language else latest
    | .turn _ => latest) none

theorem voiceAfter_snoc (profile : Dict Value) (events : List (Event g)) (event : Event g) :
    voiceAfter profile (events ++ [event]) = (voiceAfter profile events).after event := by
  simp [voiceAfter]

/-- The profile holds the latest language from the first on. -/
theorem detectedLanguage_after {profile : Dict Value} (hfresh : detectedLanguage profile = none)
    (events : List (Event g)) :
    detectedLanguage (voiceAfter profile events).profile =
      (latestLanguage events).map Language.value := by
  induction events using List.reverseRecOn with
  | nil => exact hfresh
  | append_singleton events event ih =>
    rw [voiceAfter_snoc, latestLanguage, List.foldl_append]
    cases event with
    | turn => exact ih
    | transcription t =>
      by_cases hlong : 3 ≤ t.wordCount
      · simp only [Voice.after, detect_of_long hlong, List.foldl_cons, List.foldl_nil, if_pos hlong]
        rfl
      · simp only [Voice.after, detect_of_short hlong, List.foldl_cons, List.foldl_nil, if_neg hlong]
        exact ih

end

/-! ## The tables -/

/-- Sarvam's code of a language. -/
def sarvamCode (code : Str) : Str := if code = ("or-IN" : Str) then "od-IN" else code

/-- The code of the language a caller is to be answered in. -/
def callerCode (latest : Option Language) : Str :=
  match latest with
  | some language =>
    let code := sarvamCode language.value
    if code ∈ langMap.keys ∧ code ∈ ttsSupportedLanguages then code else "en-IN"
  | none => "en-IN"

theorem mem_langMap_iff {code : Str} : code ∈ langMap.keys ↔ code ∈ ttsSupportedLanguages := by
  have hsub : ∀ code ∈ langMap.keys, code ∈ ttsSupportedLanguages := by decide +kernel
  have hsup : ∀ code ∈ ttsSupportedLanguages, code ∈ langMap.keys := by decide +kernel
  exact ⟨hsub code, hsup code⟩

theorem targetLangName_eq (profile : Dict Value) :
    targetLangName profile = langMap.getD ((detectedLanguage profile).getD "en-IN") "English" := by
  have henglish : langMap.getD "en-IN" "English" = ("English" : Str) := by decide +kernel
  unfold targetLangName detectedLanguage Dict.getD
  cases profile.get? "detected_language" with
  | none => rfl
  | some value =>
    cases value with
    | str code => rfl
    | _ => exact henglish.symm

theorem ttsLanguage_eq (profile : Dict Value) :
    ttsLanguage profile =
      let code := (detectedLanguage profile).getD "en-IN"
      if code ∈ ttsSupportedLanguages ∧ code ≠ ("od-IN" : Str) then code else "en-IN" := by
  have henglish : ("en-IN" : Str) ∈ ttsSupportedLanguages ∧ ("en-IN" : Str) ≠ "od-IN" := by
    decide +kernel
  unfold ttsLanguage detectedLanguage Dict.getD
  cases profile.get? "detected_language" with
  | none => rfl
  | some value =>
    cases value with
    | str code => rfl
    | _ => exact (if_pos henglish).symm

theorem callerCode_some {language : Language} (h : language.value ≠ ("or-IN" : Str)) :
    callerCode (some language) =
      if language.value ∈ ttsSupportedLanguages then language.value else "en-IN" := by
  simp only [callerCode, sarvamCode, if_neg h, mem_langMap_iff, and_self]

theorem getD_of_not_mem {α : Type} {d : Dict α} {key : Str} (h : key ∉ d.keys) (default : α) :
    d.getD key default = default := by
  rw [← Dict.get?_isSome_iff, Option.not_isSome_iff_eq_none] at h
  rw [Dict.getD, h]
  rfl

/-- The order is for the caller's language, unless that is Odia. -/
theorem order_agrees {latest : Option Language} {profile : Dict Value}
    (h : detectedLanguage profile = latest.map Language.value)
    (hodia : ∀ language ∈ latest, language.value ≠ ("or-IN" : Str)) :
    targetLangName profile = langMap.getD (callerCode latest) "English" := by
  rw [targetLangName_eq, h]
  cases latest with
  | none => rfl
  | some language =>
    rw [callerCode_some (hodia language rfl), Option.map_some, Option.getD_some]
    by_cases hlisted : language.value ∈ ttsSupportedLanguages
    · rw [if_pos hlisted]
    · rw [if_neg hlisted, getD_of_not_mem fun hkey => hlisted (mem_langMap_iff.mp hkey)]
      decide +kernel

/-- And so is the voice; an Odia caller is answered in an English one. -/
theorem voice_agrees_iff {latest : Option Language} {profile : Dict Value}
    (h : detectedLanguage profile = latest.map Language.value) :
    sarvamCode (ttsLanguage profile) = callerCode latest ↔
      ∀ language ∈ latest, language.value ≠ ("or-IN" : Str) := by
  rw [ttsLanguage_eq, h]
  cases latest with
  | none =>
    refine iff_of_true ?_ (by simp)
    decide +kernel
  | some language =>
    by_cases hodia : language.value = ("or-IN" : Str)
    · refine iff_of_false ?_ fun hne => hne language rfl hodia
      simp only [Option.map_some, Option.getD_some, hodia, callerCode]
      decide +kernel
    · refine iff_of_true ?_ ?_
      · rw [callerCode_some hodia, Option.map_some, Option.getD_some]
        by_cases hlisted : language.value ∈ ttsSupportedLanguages
        · rw [if_pos hlisted, if_pos ⟨hlisted, language.ne_od⟩]
          exact if_neg hodia
        · rw [if_neg hlisted, if_neg fun h => hlisted h.1]
          decide +kernel
      · rintro _ ⟨⟩
        exact hodia

/-! ## A turn -/

/-- The TTS languages that are set by these frames. -/
def ttsSettings (fs : List Frame) : List Str :=
  fs.filterMap fun
    | .ttsUpdateSettings language => some language
    | _ => none

/-- The frames ahead of the first text. -/
def untilText (fs : List Frame) : List Frame :=
  fs.takeWhile fun
    | .text _ => false
    | _ => true

/-- The languages that a turn's synthesizer orders its reply in. -/
def orderedLanguages {N : Type} {g : LangGraph.Graph N AgentState AgentState Exn Graph.Call Str}
    (turn : Turn g) : List Str :=
  match turn.steps.getLast? with
  | some [z] => z.calls.filterMap fun
    | (.synthLlm prompt, _) => some prompt.targetLangName
    | _ => none
  | _ => []

section
variable {env : Env} {svc : LLMService} {events : List StreamEvent} {log : CallLog} {late : Bool}

theorem setting_mem {language : Str} (h : language ∈ ttsSettings (frames late log)) :
    ∃ ans, (.await (.pushTtsUpdateSettings language), ans) ∈ log := by
  obtain ⟨f, hf, hlanguage⟩ := List.mem_filterMap.mp h
  obtain ⟨a, ans, hc, hframe⟩ := exists_await hf
  cases f with
  | ttsUpdateSettings l =>
    cases hlanguage
    cases a <;> cases hframe
    exact ⟨ans, hc⟩
  | _ => cases hlanguage

theorem no_setting {p : Await → Bool} (h : ∀ c ∈ log, c.1.All p)
    (hp : ∀ language, p (.pushTtsUpdateSettings language) = false) :
    ttsSettings (frames late log) = [] := by
  refine List.eq_nil_iff_forall_not_mem.mpr ?_
  intro language hmem
  obtain ⟨ans, hc⟩ := setting_mem hmem
  have hop : p (.pushTtsUpdateSettings language) = true := h _ hc
  rw [hp] at hop
  cases hop

theorem ttsSettings_append (fs gs : List Frame) :
    ttsSettings (fs ++ gs) = ttsSettings fs ++ ttsSettings gs :=
  List.filterMap_append

variable (late) in
/-- The `try` block of a turn sets no language. -/
theorem respond_settings {r : Except Raised Unit} (h : Prog.Runs (respond env svc events) log r)
    (hallowed : ∀ c ∈ log, Allowed c) : ttsSettings (frames late log) = [] := by
  rcases respond_log h hallowed with ⟨e, hcut, -⟩ | ⟨rest, rfl, hrest⟩
  · exact no_setting (cutAt_reading hcut).2 fun _ => rfl
  · have hresponse : ttsSettings (frames late (Prog.answered (awaits (response events)))) = [] :=
      no_setting (all_answered (response_reading events)) fun _ => rfl
    have haside : Aside rest := by
      rcases hrest with ⟨haccepted, hrest⟩ | ⟨hother, rfl, -⟩
      · exact handoff_aside (Or.inl ⟨haccepted, r, hrest⟩)
      · exact fun _ hc => absurd hc List.not_mem_nil
    rw [Prog.answered_append, frames_append, frames_append, ttsSettings_append, ttsSettings_append,
      hresponse, no_setting haside fun _ => rfl]
    rfl

variable (late) in
/-- A turn that is not cancelled sets the language once, ahead of its texts. -/
theorem played_settings (h : Played env svc events log) (hwhole : ∀ a, ¬ CancelledAt log a) :
    ∃ rest, frames late log =
        [.responseStart, .ttsUpdateSettings (ttsLanguage svc.customerProfile)] ++ rest ∧
      ttsSettings rest = [] := by
  rcases played_log h with hcut | ⟨body, last, rfl, hbody, hlast⟩
  · obtain ⟨_, a, _, _, hlog⟩ := cutAt_split hcut
    exact absurd (by simp [hlog]) (hwhole a)
  · cases hbody with
    | cut hcut =>
      obtain ⟨_, a, _, _, hlog⟩ := cutAt_split hcut
      exact absurd (by simp [hlog]) (hwhole a)
    | @responded r log report hrespond hreport =>
      refine ⟨frames late log ++ frames late report ++ frames late last, ?_, ?_⟩
      · simp only [frames_append, List.append_assoc]
        rfl
      · have hlog := respond_settings late hrespond fun c hc => h.allowed c (by simp [hc])
        have hreport : ttsSettings (frames late report) = [] :=
          no_setting (aside_report hreport) fun _ => rfl
        have hlast : ttsSettings (frames late last) = [] :=
          no_setting (closing_frames late hlast).1 fun _ => rfl
        rw [ttsSettings_append, ttsSettings_append, hlog, hreport, hlast]
        rfl

end

section
variable {rt : Runtime} {retryOn : Exn → Bool} {env : Env}

/-- What the synthesizer of a completed turn orders is read off the profile. -/
theorem Round.Sound.ordered {round : Round (workflow rt retryOn)} (h : round.Sound env)
    (hended : round.turn.Ended) {language : Str} (hlanguage : language ∈ orderedLanguages round.turn) :
    language = targetLangName round.svc.customerProfile := by
  obtain ⟨z, hlast, hz, hprofile⟩ := h.synthesized hended
  simp only [orderedLanguages, hlast] at hlanguage
  obtain ⟨⟨q, ans⟩, hc, hprompt⟩ := List.mem_filterMap.mp hlanguage
  have hq : q = .synthLlm (synthPrompt z.read) := by
    have hpath := z.path
    rw [hz] at hpath
    change Prog.Path (Prog.retry retryOn (synthesizerNode z.read) 1) _ _ at hpath
    rcases synthesizerNode_eq z.read with hnode | hnode
    · rw [hnode] at hpath
      rw [(Prog.path_done hpath).1] at hc
      exact absurd hc List.not_mem_nil
    · rw [hnode] at hpath
      rcases retry_path hpath with ⟨failed, reply, hcalls, -⟩ | ⟨failed, hcalls, -⟩
      · simp only [hcalls, failures, List.mem_append, List.mem_map, List.mem_singleton] at hc
        rcases hc with ⟨_, -, hc⟩ | hc
        · exact (Prod.mk.inj hc).1.symm
        · exact (Prod.mk.inj hc).1
      · simp only [hcalls, failures, List.mem_map] at hc
        obtain ⟨_, -, hc⟩ := hc
        exact (Prod.mk.inj hc).1.symm
  subst hq
  cases hprompt
  rw [synthPrompt, hprofile, Option.getD_some]

variable (env) in
/-- A call whose turns are completed, each with the profile of its time. -/
def Conversed (profile : Dict Value) (events : List (Event (workflow rt retryOn))) : Prop :=
  ∀ before round after, events = before ++ .turn round :: after →
    round.Sound env ∧ round.turn.Ended ∧ (∀ a, ¬ CancelledAt round.log a) ∧
      round.svc.customerProfile = (voiceAfter profile before).profile

/-- The reply is ordered, and the voice for its first text set, in the language
of the latest transcription of three words. -/
def InCallerLanguage (profile : Dict Value) (before : List (Event (workflow rt retryOn)))
    (round : Round (workflow rt retryOn)) : Prop :=
  let code := callerCode (latestLanguage before)
  (∀ language ∈ orderedLanguages round.turn, language = langMap.getD code "English") ∧
  (ttsSettings ((voiceAfter profile before).frames ++ untilText round.frames)).getLast?.map
    sarvamCode = some code

theorem inCallerLanguage_iff {profile : Dict Value} (hfresh : detectedLanguage profile = none)
    {before : List (Event (workflow rt retryOn))} {round : Round (workflow rt retryOn)}
    (h : round.Sound env) (hended : round.turn.Ended) (hwhole : ∀ a, ¬ CancelledAt round.log a)
    (hprofile : round.svc.customerProfile = (voiceAfter profile before).profile) :
    InCallerLanguage profile before round ↔
      ∀ language ∈ latestLanguage before, language.value ≠ ("or-IN" : Str) := by
  have hdetected := detectedLanguage_after hfresh before
  rw [← hprofile] at hdetected
  obtain ⟨rest, hframes, hrest⟩ := played_settings round.late h.played hwhole
  have hvoice : ttsSettings (untilText round.frames) = [ttsLanguage round.svc.customerProfile] := by
    have hlater : ttsSettings (untilText rest) = [] :=
      List.sublist_nil.mp (hrest ▸ (List.takeWhile_sublist _).filterMap _)
    rw [Round.frames, hframes]
    exact congrArg (_ :: ·) hlater
  have hset : (ttsSettings ((voiceAfter profile before).frames ++ untilText round.frames)).getLast? =
      some (ttsLanguage round.svc.customerProfile) := by
    rw [ttsSettings_append, hvoice, List.getLast?_concat]
  rw [InCallerLanguage, hset, Option.map_some, Option.some.injEq, voice_agrees_iff hdetected]
  refine and_iff_right_of_imp ?_
  intro hodia language hlanguage
  rw [h.ordered hended hlanguage, order_agrees hdetected hodia]

/-- No customer row has a language. -/
theorem customerProfile_fresh {u : Unicode} {customers : Sql.Table} {query : Main.PhoneQuery}
    {queryParams : Dict Str} {phoneNumber : Str}
    (hcolumns : customers.columns = Main.customerColumns) :
    detectedLanguage (Main.customerProfile u customers query queryParams phoneNumber) = none := by
  have hnone : (Main.customerProfile u customers query queryParams phoneNumber).get?
      "detected_language" = none := by
    unfold Main.customerProfile
    split
    · apply Dict.get?_ofPairs_of_not_mem
      rw [hcolumns]
      intro hmem
      obtain ⟨pair, hpair, hkey⟩ := List.mem_map.mp hmem
      have hcolumn : ("detected_language" : Str) ∈ Main.customerColumns := by
        rw [← hkey]
        exact (List.of_mem_zip hpair).1
      exact absurd hcolumn (by decide +kernel)
    · rfl
  rw [detectedLanguage, hnone]

/-- **When the reply is in the caller's language.** In every call, whatever is
transcribed between its turns, a turn is answered in the language of the latest
transcription of three words, in word and in voice, if and only if that language
is not Odia. -/
theorem caller_language_iff (rt : Runtime) (retryOn : Exn → Bool) (env : Env) (u : Unicode)
    (customers : Sql.Table) (query : Main.PhoneQuery) (queryParams : Dict Str) (phoneNumber : Str)
    (events : List (Event (workflow rt retryOn)))
    (hcolumns : customers.columns = Main.customerColumns)
    (h : Conversed env (Main.customerProfile u customers query queryParams phoneNumber) events) :
    ∀ before round after, events = before ++ .turn round :: after →
      (InCallerLanguage (Main.customerProfile u customers query queryParams phoneNumber)
          before round ↔
        ∀ language ∈ latestLanguage before, language.value ≠ ("or-IN" : Str)) := by
  intro before round after hsplit
  obtain ⟨hsound, hended, hwhole, hprofile⟩ := h before round after hsplit
  exact inCallerLanguage_iff (customerProfile_fresh hcolumns) hsound hended hwhole hprofile

end

/-! ## A caller who speaks Odia -/

def odia : Language := ⟨"or-IN", by decide, by decide +kernel⟩

def question : Transcription := ⟨"mora order kemiti achhi", odia⟩

def noCustomers : Sql.Table := ⟨Main.customerColumns, []⟩

def odiaQuestion : List (Event (workflow Runtime.ascii fun _ => true)) := [.transcription question]

/-- The service once the question has passed the detector. -/
def odiaService : LLMService :=
  { callService with customerProfile := (voiceAfter [] odiaQuestion).profile }

@[irreducible]
def odiaTurn : Turn (workflow Runtime.ascii fun _ => true) :=
  Turn.play offerAnswer 5 (Turn.start _ {} (odiaService.turnInput callMessages).initialState)

def odiaRound : Round (workflow Runtime.ascii fun _ => true) :=
  Round.play _ _ callEnv odiaService callMessages odiaTurn none

def odiaCall : List (Event (workflow Runtime.ascii fun _ => true)) :=
  odiaQuestion ++ [.turn odiaRound]

theorem odiaTurn_ended : odiaTurn.Ended := by
  have h : (odiaTurn.tasks.isEmpty && odiaTurn.stop.isNone) = true := by decide +kernel
  rw [Bool.and_eq_true, List.isEmpty_iff, Option.isNone_iff_eq_none] at h
  exact h

theorem odiaRound_sound : odiaRound.Sound callEnv := by
  refine Round.play_sound ?_ (playTurn_none ..) fun _ => odiaTurn_ended
  unfold odiaTurn
  exact Turn.Reachable.start.play (fun _ _ => trivial) 5

theorem odiaRound_whole (a : Await) : ¬ CancelledAt odiaRound.log a := by
  apply not_cancelledAt_of_countP
  decide +kernel

theorem odiaCall_conversed : Conversed callEnv
    (Main.customerProfile Unicode.ascii noCustomers (fun _ => []) [] []) odiaCall := by
  intro before round after hsplit
  obtain ⟨rfl, h₁⟩ | ⟨_, rfl, h₁⟩ := List.cons_eq_append_iff.mp hsplit
  · cases h₁
  obtain ⟨rfl, h₂⟩ | ⟨_, rfl, h₂⟩ := List.cons_eq_append_iff.mp h₁
  · cases h₂
    exact ⟨odiaRound_sound, odiaTurn_ended, odiaRound_whole, rfl⟩
  · simp at h₂

theorem caller_language_iff_odiaCall :
    InCallerLanguage (Main.customerProfile Unicode.ascii noCustomers (fun _ => []) [] [])
        odiaQuestion odiaRound ↔
      ∀ language ∈ latestLanguage odiaQuestion, language.value ≠ ("or-IN" : Str) :=
  caller_language_iff _ _ callEnv _ _ _ _ _ odiaCall rfl odiaCall_conversed
    odiaQuestion odiaRound [] rfl

/-- Asked in Odia, the synthesizer is told to answer in English. -/
theorem odia_answered_in_english :
    Conversed callEnv (Main.customerProfile Unicode.ascii noCustomers (fun _ => []) [] [])
      odiaCall ∧
    odiaCall = [.transcription question, .turn odiaRound] ∧ question.wordCount = 4 ∧
    callerCode (some question.language) = "od-IN" ∧
    orderedLanguages odiaRound.turn = ["English"] ∧
    ttsSettings (untilText odiaRound.frames) = ["en-IN"] ∧
    ¬ InCallerLanguage (Main.customerProfile Unicode.ascii noCustomers (fun _ => []) [] [])
      odiaQuestion odiaRound := by
  have hordered : orderedLanguages odiaRound.turn = ["English"] := by decide +kernel
  have hcode : callerCode (latestLanguage odiaQuestion) = "od-IN" := by decide +kernel
  refine ⟨odiaCall_conversed, rfl, by decide +kernel, by decide +kernel, hordered,
    by decide +kernel, ?_⟩
  rintro ⟨hlanguage, -⟩
  have henglish := hlanguage "English" (by rw [hordered]; exact List.mem_cons_self)
  rw [hcode] at henglish
  exact absurd henglish (by decide +kernel)

end TechMart.Bot
