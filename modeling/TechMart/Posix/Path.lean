import Mathlib.Data.List.Basic
import Mathlib.Data.List.Induction
import Mathlib.Logic.Function.Basic

/-!
# Paths

A file system without links, what a path leads to in it, and the two calls that
add to it. A tree cannot be built that has a file in no directory, or under a
name that no path can have.
-/

namespace TechMart.Posix

/-- Names from the root. -/
abbrev Location := List (List Char)

/-- A name a directory can have something under. -/
structure Proper (name : List Char) : Prop where
  ne_nil : name ≠ []
  ne_dot : name ≠ ['.']
  ne_dotdot : name ≠ ['.', '.']
  no_slash : '/' ∉ name
  no_nul : '\x00' ∉ name

instance (name : List Char) : Decidable (Proper name) :=
  decidable_of_iff (name ≠ [] ∧ name ≠ ['.'] ∧ name ≠ ['.', '.'] ∧ '/' ∉ name ∧ '\x00' ∉ name)
    ⟨fun h => ⟨h.1, h.2.1, h.2.2.1, h.2.2.2.1, h.2.2.2.2⟩, fun h => ⟨h.1, h.2, h.3, h.4, h.5⟩⟩

inductive Node (β : Type) where
  | directory
  | file (content : β)

structure FileTree (β : Type) where
  node : Location → Option (Node β)
  root : node [] = some .directory
  parent : ∀ l name, (node (l ++ [name])).isSome → node l = some .directory
  named : ∀ l name, (node (l ++ [name])).isSome → Proper name

variable {β : Type}

namespace FileTree

def isDirectory (t : FileTree β) (l : Location) : Bool :=
  match t.node l with
  | some .directory => true
  | _ => false

theorem isDirectory_iff {t : FileTree β} {l : Location} :
    t.isDirectory l = true ↔ t.node l = some .directory := by
  unfold isDirectory
  split
  · rename_i h
    simp [h]
  · rename_i h
    simpa using h

theorem isDirectory_parent {t : FileTree β} {l : Location} {name : List Char}
    (h : t.isDirectory (l ++ [name]) = true) : t.isDirectory l = true := by
  apply isDirectory_iff.mpr
  apply t.parent l name
  rw [isDirectory_iff.mp h]
  rfl

/-- A directory's names can be written in a path. -/
theorem proper_of_isDirectory {t : FileTree β} {l : Location} (h : t.isDirectory l = true) :
    ∀ name ∈ l, Proper name := by
  induction l using List.reverseRecOn with
  | nil =>
    intro name hname
    cases hname
  | append_singleton l last ih =>
    intro name hname
    cases List.mem_append.mp hname with
    | inl hl => exact ih (isDirectory_parent h) name hl
    | inr hlast =>
      rw [List.mem_singleton.mp hlast]
      apply t.named l last
      rw [isDirectory_iff.mp h]
      rfl

/-- Nothing but the root. -/
def empty : FileTree β where
  node l := if l = [] then some .directory else none
  root := rfl
  parent := by
    intro l name hsome
    simp at hsome
  named := by
    intro l name hsome
    simp at hsome

/-- Put something at a name in a directory where no directory is. -/
def put (t : FileTree β) (dir : Location) (name : List Char) (new : Node β)
    (hdir : t.isDirectory dir = true) (hname : Proper name)
    (hfree : t.isDirectory (dir ++ [name]) = false) : FileTree β where
  node := Function.update t.node (dir ++ [name]) (some new)
  root := by
    rw [Function.update_of_ne (by simp)]
    exact t.root
  parent := by
    intro l other hsome
    have hold : t.node l = some .directory := by
      by_cases hsame : l ++ [other] = dir ++ [name]
      · rw [(List.append_inj' hsame rfl).1]
        exact isDirectory_iff.mp hdir
      · rw [Function.update_of_ne hsame] at hsome
        exact t.parent l other hsome
    have hl : l ≠ dir ++ [name] := by
      rintro rfl
      rw [isDirectory_iff.mpr hold] at hfree
      cases hfree
    rw [Function.update_of_ne hl]
    exact hold
  named := by
    intro l other hsome
    by_cases hsame : l ++ [other] = dir ++ [name]
    · obtain ⟨_, hother⟩ := List.append_inj' hsame rfl
      cases hother
      exact hname
    · rw [Function.update_of_ne hsame] at hsome
      exact t.named l other hsome

/-- What `open` for writing and a `write` leave, at a name in a directory. -/
def create (t : FileTree β) (dir : Location) (name : List Char) (content : β) : Option (FileTree β) :=
  if h : t.isDirectory dir = true ∧ Proper name ∧ t.isDirectory (dir ++ [name]) = false then
    some (t.put dir name (.file content) h.1 h.2.1 h.2.2)
  else none

/-- `os.makedirs` of a name in a directory, with `exist_ok`. -/
def makeDirectory (t : FileTree β) (dir : Location) (name : List Char) : Option (FileTree β) :=
  match t.node (dir ++ [name]) with
  | some .directory => some t
  | some (.file _) => none
  | none =>
    if h : t.isDirectory dir = true ∧ Proper name ∧ t.isDirectory (dir ++ [name]) = false then
      some (t.put dir name .directory h.1 h.2.1 h.2.2)
    else none

theorem isDirectory_makeDirectory {t made : FileTree β} {dir : Location} {name : List Char}
    (h : t.makeDirectory dir name = some made) : made.isDirectory (dir ++ [name]) = true := by
  apply isDirectory_iff.mpr
  unfold makeDirectory at h
  split at h
  · rename_i hdir
    cases h
    exact hdir
  · cases h
  · split at h
    · cases h
      exact Function.update_self ..
    · cases h

/-! ## Following a path -/

/-- One name of a path. -/
def step (t : FileTree β) (here : Location) (name : List Char) : Option Location :=
  if name = [] ∨ name = ['.'] then some here
  else if name = ['.', '.'] then some here.dropLast
  else if t.isDirectory (here ++ [name]) then some (here ++ [name])
  else none

def walk (t : FileTree β) (here : Location) (names : List (List Char)) : Option Location :=
  names.foldlM t.step here

/-- Where `open` for writing puts a file: the directory and the name. -/
def target (t : FileTree β) (cwd : Location) (path : List Char) : Option (Location × List Char) :=
  if '\x00' ∈ path then none
  else do
    let names := path.splitOn '/'
    let dir ← t.walk (if path.head? = some '/' then [] else cwd) names.dropLast
    let name := names.getLastD []
    if Proper name ∧ t.isDirectory (dir ++ [name]) = false then some (dir, name) else none

variable {t : FileTree β}

theorem walk_append {here : Location} (names more : List (List Char)) :
    t.walk here (names ++ more) = (t.walk here names).bind fun dir => t.walk dir more :=
  List.foldlM_append

/-- Up, as often as there are directories, is the root. -/
theorem walk_up (here : Location) {n : ℕ} (h : here.length ≤ n) :
    t.walk here (List.replicate n ['.', '.']) = some [] := by
  induction n generalizing here with
  | zero =>
    rw [List.length_eq_zero_iff.mp (Nat.le_zero.mp h)]
    rfl
  | succ n ih =>
    rw [List.replicate_succ]
    show (t.step here ['.', '.']).bind (fun next => t.walk next (List.replicate n ['.', '.'])) = _
    have hstep : t.step here ['.', '.'] = some here.dropLast := by
      simp [step]
    rw [hstep]
    apply ih
    rw [List.length_dropLast]
    omega

/-- Down, name by name, is the directory. -/
theorem walk_down {dir : Location} (h : t.isDirectory dir = true) : t.walk [] dir = some dir := by
  induction dir using List.reverseRecOn with
  | nil => rfl
  | append_singleton dir name ih =>
    have hproper := proper_of_isDirectory h name (by simp)
    rw [walk_append, ih (isDirectory_parent h)]
    show (t.step dir name).bind some = _
    simp [step, hproper.ne_nil, hproper.ne_dot, hproper.ne_dotdot, h]

end FileTree

/-! ## The names of a path -/

/-- The path of a name under others. -/
def under (dirs : List (List Char)) (name : List Char) : List Char :=
  dirs.flatMap (fun dir => dir ++ ['/']) ++ name

theorem under_cons (dir : List Char) (dirs : List (List Char)) (name : List Char) :
    under (dir :: dirs) name = dir ++ '/' :: under dirs name := by
  simp [under]

theorem under_append (dirs : List (List Char)) (name suffix : List Char) :
    under dirs name ++ suffix = under dirs (name ++ suffix) := List.append_assoc ..

theorem not_mem_under {c : Char} (hc : c ≠ '/') {dirs : List (List Char)} {name : List Char}
    (hdirs : ∀ dir ∈ dirs, c ∉ dir) (hname : c ∉ name) : c ∉ under dirs name := by
  intro hmem
  cases List.mem_append.mp hmem with
  | inl hup =>
    obtain ⟨dir, hdir, hin⟩ := List.mem_flatMap.mp hup
    cases List.mem_append.mp hin with
    | inl h => exact hdirs dir hdir h
    | inr h => exact hc (List.mem_singleton.mp h)
  | inr h => exact hname h

theorem splitOn_under {dirs : List (List Char)} {name : List Char} (hdirs : ∀ dir ∈ dirs, '/' ∉ dir)
    (hname : '/' ∉ name) : (under dirs name).splitOn '/' = dirs ++ [name] := by
  induction dirs with
  | nil => exact List.splitOn_eq_singleton hname
  | cons dir dirs ih =>
    rw [List.forall_mem_cons] at hdirs
    rw [under_cons, List.splitOn_append_cons_self_of_not_mem hdirs.1, ih hdirs.2]
    rfl

/-- Every path is that of a name under others. -/
theorem exists_under (path : List Char) :
    ∃ dirs name, path = under dirs name ∧ (∀ dir ∈ dirs, '/' ∉ dir) ∧ '/' ∉ name := by
  induction path with
  | nil => exact ⟨[], [], rfl, by simp, by simp⟩
  | cons c path ih =>
    obtain ⟨dirs, name, rfl, hdirs, hname⟩ := ih
    by_cases hc : c = '/'
    · refine ⟨[] :: dirs, name, ?_, ?_, hname⟩
      · rw [under_cons, hc]
        rfl
      · rw [List.forall_mem_cons]
        exact ⟨by simp, hdirs⟩
    · cases dirs with
      | nil => exact ⟨[], c :: name, rfl, hdirs, by simp [hname, Ne.symm hc]⟩
      | cons dir dirs =>
        rw [List.forall_mem_cons] at hdirs
        refine ⟨(c :: dir) :: dirs, name, rfl, ?_, hname⟩
        rw [List.forall_mem_cons]
        exact ⟨by simp [hdirs.1, Ne.symm hc], hdirs.2⟩

end TechMart.Posix
