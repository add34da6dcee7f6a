import TechMart.Posix.Path
import TechMart.Python.Value

/-!
# Recordings

`recording_ready`: the caller of the endpoint names a recording and where to get
it, and the server stores what it gets there. The name becomes part of a path as
it is.
-/

namespace TechMart.Main

open Python Posix

abbrev Files := FileTree (List UInt8)

/-- The fields of the form that decide; `CallUUID` is read and not used. -/
structure RecordingForm where
  recordUrl : Option Str
  recordingId : Option Str

/-- The process and its environment; `permits` is what the system does not
refuse for another reason than the path. -/
structure RecordingEnv where
  cwd : Location
  authId : Option Str
  authToken : Option Str
  permits : Location → Bool
  fetch : (url authId authToken : Str) → Except Exn (ℕ × List UInt8)

/-- A string that is there and not empty. -/
def given (s : Option Str) : Option Str := s.filter fun s => !s.isEmpty

def recordingReply : Str := "<Response></Response>"

def recordingPath (recordingId : Str) : Str := ("recordings/" : Str) ++ recordingId ++ ".mp3"

section
variable (env : RecordingEnv)

def recordings : Location := env.cwd ++ [("recordings" : Str)]

/-- `os.makedirs("recordings", exist_ok=True)`. -/
def makeRecordings (t : Files) : Option (Files) :=
  if t.isDirectory (recordings env) || env.permits (recordings env) then
    t.makeDirectory env.cwd ("recordings" : Str)
  else none

/-- `open(path, "wb")` and the `write`. -/
def writeFile (t : Files) (path : Str) (audio : List UInt8) :
    Option (Files) :=
  (t.target env.cwd path).bind fun place =>
    if env.permits (place.1 ++ [place.2]) then t.create place.1 place.2 audio else none

/-- The reply, `none` where an exception leaves the handler, and the files after
it. -/
def recordingReady (t : Files) (form : RecordingForm) :
    Option Str × Files :=
  match given form.recordUrl, given form.recordingId with
  | some recordingUrl, some recordingId => match makeRecordings env t with
    | none => (none, t)
    | some t => match given env.authId, given env.authToken with
      | some authId, some authToken => match env.fetch recordingUrl authId authToken with
        | .error _ => (none, t)
        | .ok (status, audio) =>
          if status = 200 then
            match writeFile env t (recordingPath recordingId) audio with
            | none => (none, t)
            | some written => (some recordingReply, written)
          else (some recordingReply, t)
      | _, _ => (some recordingReply, t)
  | _, _ => (some recordingReply, t)

end

variable {env : RecordingEnv} {t made : Files}

/-- A request writes one file at most, where its id leads. -/
theorem recordingReady_cases (hmade : makeRecordings env t = some made) (form : RecordingForm) :
    (recordingReady env t form).2 = t ∨ (recordingReady env t form).2 = made ∨
      ∃ recordingId audio, given form.recordingId = some recordingId ∧
        writeFile env made (recordingPath recordingId) audio =
          some (recordingReady env t form).2 := by
  unfold recordingReady
  split
  · rename_i recordingUrl recordingId hurl hid
    rw [hmade]
    dsimp only
    split
    · split
      · exact .inr (.inl rfl)
      · rename_i status audio hfetch
        split
        · cases hwritten : writeFile env made (recordingPath recordingId) audio with
          | none => exact .inr (.inl rfl)
          | some written => exact .inr (.inr ⟨recordingId, audio, hid, hwritten⟩)
        · exact .inr (.inl rfl)
    · exact .inr (.inl rfl)
  · exact .inl rfl

theorem isDirectory_recordings (hmade : makeRecordings env t = some made) :
    made.isDirectory (recordings env) = true := by
  unfold makeRecordings at hmade
  split at hmade
  · exact FileTree.isDirectory_makeDirectory hmade
  · cases hmade

theorem recordingPath_under (dirs : List Str) (stem : Str) :
    recordingPath (under dirs stem) = under (("recordings" : Str) :: dirs) (stem ++ ".mp3") := by
  have hslash : ("recordings/" : Str) = ("recordings" : Str) ++ ['/'] := by decide
  have hlead (lead : Str) : lead ++ ['/'] ++ under dirs stem ++ ".mp3" =
      under (lead :: dirs) (stem ++ ".mp3") := by
    rw [List.append_assoc, List.append_assoc, under_append, under_cons]
    rfl
  exact (congrArg (fun lead => lead ++ under dirs stem ++ ".mp3") hslash).trans (hlead _)

/-- Where a path with these names leads. -/
theorem target_recordingPath (dirs : List Str) {stem : Str} (hdirs : ∀ dir ∈ dirs, '/' ∉ dir)
    (hstem : '/' ∉ stem) :
    made.target env.cwd (recordingPath (under dirs stem)) =
      if '\x00' ∈ recordingPath (under dirs stem) then none
      else (made.walk env.cwd (("recordings" : Str) :: dirs)).bind fun dir =>
        if Proper (stem ++ ".mp3") ∧ made.isDirectory (dir ++ [stem ++ ".mp3"]) = false then
          some (dir, stem ++ ".mp3") else none := by
  have hhead : (recordingPath (under dirs stem)).head? ≠ some '/' := by
    show some 'r' ≠ some '/'
    decide
  have hnames : (recordingPath (under dirs stem)).splitOn '/' =
      ("recordings" : Str) :: dirs ++ [stem ++ ".mp3"] := by
    rw [recordingPath_under]
    apply splitOn_under
    · rw [List.forall_mem_cons]
      exact ⟨by decide, hdirs⟩
    · rw [List.mem_append]
      exact not_or_intro hstem (by decide)
  unfold FileTree.target
  split
  · rfl
  · dsimp only
    rw [hnames, List.dropLast_concat, List.getLastD_concat]
    rfl

theorem walk_recordings (hmade : makeRecordings env t = some made) (dirs : List Str) :
    made.walk env.cwd (("recordings" : Str) :: dirs) = made.walk (recordings env) dirs := by
  have hstep : made.step env.cwd ("recordings" : Str) = some (recordings env) := by
    unfold FileTree.step
    rw [if_neg (by decide), if_neg (by decide)]
    exact if_pos (isDirectory_recordings hmade)
  show (made.step env.cwd ("recordings" : Str)).bind _ = _
  rw [hstep]
  rfl

/-- What is written is an mp3 file in a directory. -/
theorem writeFile_cases (hmade : makeRecordings env t = some made) {recordingId : Str}
    {audio : List UInt8} {written : Files}
    (h : writeFile env made (recordingPath recordingId) audio = some written) :
    ∃ dirs stem dir, recordingId = under dirs stem ∧ (∀ d ∈ dirs, '/' ∉ d) ∧
      made.walk (recordings env) dirs = some dir ∧ env.permits (dir ++ [stem ++ ".mp3"]) = true ∧
      made.create dir (stem ++ ".mp3") audio = some written := by
  obtain ⟨dirs, stem, rfl, hdirs, hstem⟩ := exists_under recordingId
  obtain ⟨⟨dir, name⟩, htarget, hwrite⟩ := Option.bind_eq_some_iff.mp h
  rw [target_recordingPath dirs hdirs hstem, walk_recordings hmade] at htarget
  split at htarget
  · cases htarget
  · obtain ⟨place, hwalk, hplace⟩ := Option.bind_eq_some_iff.mp htarget
    split at hplace
    · cases hplace
      dsimp only at hwrite
      split at hwrite
      · rename_i hpermits
        exact ⟨dirs, stem, _, rfl, hdirs, hwalk, hpermits, hwrite⟩
      · cases hwrite
    · cases hplace

/-- An id that leads to a directory: up to the root, and down. -/
def climb (cwd dir : Location) (stem : Str) : Str :=
  under (List.replicate (cwd.length + 1) ['.', '.'] ++ dir) stem

theorem writeFile_climb (hmade : makeRecordings env t = some made) {dir : Location} {stem : Str}
    {audio : List UInt8} {written : Files}
    (hpermits : env.permits (dir ++ [stem ++ ".mp3"]) = true)
    (h : made.create dir (stem ++ ".mp3") audio = some written) :
    writeFile env made (recordingPath (climb env.cwd dir stem)) audio = some written := by
  have hwhen : made.isDirectory dir = true ∧ Proper (stem ++ ".mp3") ∧
      made.isDirectory (dir ++ [stem ++ ".mp3"]) = false := by
    by_contra hnot
    rw [FileTree.create, dif_neg hnot] at h
    cases h
  obtain ⟨hdir, hproper, hfree⟩ := hwhen
  have hnames := FileTree.proper_of_isDirectory hdir
  have hchars (c : Char) (hup : c ∉ ['.', '.']) (hdown : ∀ d ∈ dir, c ∉ d) :
      ∀ d ∈ List.replicate (env.cwd.length + 1) ['.', '.'] ++ dir, c ∉ d := by
    rw [List.forall_mem_append]
    refine ⟨?_, hdown⟩
    intro d hd
    rw [List.eq_of_mem_replicate hd]
    exact hup
  have hslash := hchars '/' (by decide) fun d hd => (hnames d hd).no_slash
  have hstem : '/' ∉ stem := fun hmem => hproper.no_slash (List.mem_append_left _ hmem)
  have hid : '\x00' ∉ climb env.cwd dir stem := by
    apply not_mem_under (by decide)
    · exact hchars '\x00' (by decide) fun d hd => (hnames d hd).no_nul
    · exact fun hmem => hproper.no_nul (List.mem_append_left _ hmem)
  have hnul : '\x00' ∉ recordingPath (climb env.cwd dir stem) := by
    have hlead : '\x00' ∉ ("recordings/" : Str) := by decide
    intro hmem
    cases List.mem_append.mp hmem with
    | inl h => exact (List.mem_append.mp h).elim hlead hid
    | inr h => exact hproper.no_nul (List.mem_append_right _ h)
  have hwalk : made.walk (recordings env)
      (List.replicate (env.cwd.length + 1) ['.', '.'] ++ dir) = some dir := by
    have hlength : (recordings env).length ≤ env.cwd.length + 1 := by
      rw [recordings, List.length_append]
      exact Nat.le_refl _
    rw [FileTree.walk_append, FileTree.walk_up (recordings env) hlength]
    exact FileTree.walk_down hdir
  have htarget : made.target env.cwd (recordingPath (climb env.cwd dir stem)) =
      some (dir, stem ++ ".mp3") := by
    rw [climb] at hnul ⊢
    rw [target_recordingPath _ hslash hstem, if_neg hnul, walk_recordings hmade, hwalk]
    exact if_pos ⟨hproper, hfree⟩
  rw [writeFile, htarget]
  show (if env.permits (dir ++ [stem ++ ".mp3"]) = true then _ else _) = _
  rw [if_pos hpermits, h]

/-- What requests can do to the files, `made` being the files with a directory
for the recordings. -/
structure Recorded (env : RecordingEnv) (t made : Files) (authId authToken : Str) : Prop where
  /-- One file, and it ends in `.mp3`. -/
  one : ∀ form, (recordingReady env t form).2 = t ∨ (recordingReady env t form).2 = made ∨
    ∃ dir stem audio, made.create dir (stem ++ ".mp3") audio = some (recordingReady env t form).2
  /-- Any such file, in any directory there is. -/
  any : ∀ url audio, url ≠ [] → env.fetch url authId authToken = .ok (200, audio) →
    ∀ dir stem written, made.create dir (stem ++ ".mp3") audio = some written →
      env.permits (dir ++ [stem ++ ".mp3"]) = true →
      ∃ recordingId, recordingReady env t ⟨some url, some recordingId⟩ =
        (some recordingReply, written)
  /-- In the recordings, if the id is a name. -/
  confined : ∀ url recordingId, '/' ∉ recordingId →
    (recordingReady env t ⟨url, some recordingId⟩).2 = t ∨
      (recordingReady env t ⟨url, some recordingId⟩).2 = made ∨
      ∃ audio, made.create (recordings env) (recordingId ++ ".mp3") audio =
        some (recordingReady env t ⟨url, some recordingId⟩).2

theorem given_of_ne_nil {s : Str} (h : s ≠ []) : given (some s) = some s := by
  cases s with
  | nil => exact absurd rfl h
  | cons c s => rfl

theorem climb_ne_nil (cwd dir : Location) (stem : Str) : climb cwd dir stem ≠ [] := by
  rw [climb, List.replicate_succ, List.cons_append, under_cons]
  simp

theorem given_eq_some {s : Option Str} {r : Str} (h : given s = some r) : s = some r := by
  obtain ⟨hs, _⟩ := Option.filter_eq_some_iff.mp h
  exact hs

/-- **Whose recording it is.** The endpoint asks nobody who they are, and an id
may have slashes in it: with the credentials configured, the files that requests
can write are exactly those whose name ends in `.mp3`, in any directory there
is, and only an id without a slash stays among the recordings. -/
theorem recorded_anywhere (env : RecordingEnv) {t made : Files}
    (hmade : makeRecordings env t = some made) {authId authToken : Str}
    (hid : given env.authId = some authId) (htoken : given env.authToken = some authToken) :
    Recorded env t made authId authToken where
  one := by
    intro form
    cases recordingReady_cases hmade form with
    | inl hsame => exact .inl hsame
    | inr hmore =>
      cases hmore with
      | inl hmade' => exact .inr (.inl hmade')
      | inr hwritten =>
        obtain ⟨recordingId, audio, _, hwritten⟩ := hwritten
        obtain ⟨_, stem, dir, _, _, _, _, hcreate⟩ := writeFile_cases hmade hwritten
        exact .inr (.inr ⟨dir, stem, audio, hcreate⟩)
  any := by
    intro url audio hurl hfetch dir stem written hcreate hpermits
    refine ⟨climb env.cwd dir stem, ?_⟩
    have hclimb := given_of_ne_nil (climb_ne_nil env.cwd dir stem)
    unfold recordingReady
    dsimp only
    rw [given_of_ne_nil hurl, hclimb]
    dsimp only
    rw [hmade, hid, htoken]
    dsimp only
    rw [hfetch]
    dsimp only
    rw [if_pos rfl, writeFile_climb hmade hpermits hcreate]
  confined := by
    intro url recordingId hslash
    cases recordingReady_cases hmade ⟨url, some recordingId⟩ with
    | inl hsame => exact .inl hsame
    | inr hmore =>
      cases hmore with
      | inl hmade' => exact .inr (.inl hmade')
      | inr hwritten =>
        obtain ⟨given, audio, hgiven, hwritten⟩ := hwritten
        cases given_eq_some hgiven
        obtain ⟨dirs, stem, dir, hunder, _, hwalk, _, hcreate⟩ := writeFile_cases hmade hwritten
        cases dirs with
        | nil =>
          cases hwalk
          rw [hunder]
          rw [hunder] at hcreate
          exact .inr (.inr ⟨audio, hcreate⟩)
        | cons d dirs =>
          rw [hunder, under_cons] at hslash
          simp at hslash

def demoRecordingEnv : RecordingEnv where
  cwd := []
  authId := some "id"
  authToken := some "token"
  permits _ := true
  fetch _ _ _ := .ok (200, [1, 2, 3])

theorem recorded_anywhere_demo :
    ∃ made, Recorded demoRecordingEnv FileTree.empty made "id" "token" :=
  ⟨_, recorded_anywhere demoRecordingEnv rfl rfl rfl⟩

end TechMart.Main
