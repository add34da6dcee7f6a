import Mathlib.Data.List.Infix
import Mathlib.Data.List.Basic
import Mathlib.Data.List.TakeWhile
import Mathlib.Data.List.DropRight

/-!
# Python text

Strings are lists of code points, so that every string method the code uses
is a list function. The Unicode tables the interpreter ships are a parameter:
`Unicode` holds only what the language reference fixes about them on ASCII.
-/

namespace TechMart.Python

abbrev Str := List Char

instance : Coe String Str := ⟨String.toList⟩

instance : LawfulBEq Str := inferInstance

/-- `str.isspace` of one code point, the set `str.strip` removes. -/
def isspace (c : Char) : Bool :=
  let n := c.toNat
  (9 ≤ n && n ≤ 13) || (28 ≤ n && n ≤ 32) || n == 0x85 || n == 0xA0 || n == 0x1680 ||
  (0x2000 ≤ n && n ≤ 0x200A) || n == 0x2028 || n == 0x2029 || n == 0x202F || n == 0x205F ||
  n == 0x3000

def lstrip (s : Str) : Str := s.dropWhile isspace

def rstrip (s : Str) : Str := s.rdropWhile isspace

def strip (s : Str) : Str := rstrip (lstrip s)

/-- `str.split()`: the words between white space. -/
def splitWords (s : Str) : List Str := (s.splitOnP isspace).filter fun w => !w.isEmpty

def startswith (s p : Str) : Bool := p.isPrefixOf s

def endswith (s p : Str) : Bool := p.isSuffixOf s

/-- `sub in s`. -/
def contains (s sub : Str) : Bool := s.tails.any fun t => sub.isPrefixOf t

/-- `s[n:]` for a nonnegative `n`. -/
def sliceFrom (s : Str) (n : Nat) : Str := s.drop n

/-- `s[:-n]` for a positive `n`. -/
def sliceDropLast (s : Str) (n : Nat) : Str := s.take (s.length - n)

/-- `s[-n:]` for a positive `n`. -/
def sliceLast (s : Str) (n : Nat) : Str := s.drop (s.length - n)

def join (sep : Str) (parts : List Str) : Str := List.intercalate sep parts

theorem join_cons (sep part next : Str) (parts : List Str) :
    join sep (part :: next :: parts) = part ++ sep ++ join sep (next :: parts) := by
  simp only [join, List.intercalate_cons_cons, List.append_assoc]

theorem mem_join {sep : Str} {parts : List Str} {c : Char} (h : c ∈ join sep parts) :
    c ∈ sep ∨ ∃ part ∈ parts, c ∈ part := by
  induction parts with
  | nil => cases h
  | cons part parts ih =>
    cases parts with
    | nil => exact Or.inr ⟨part, List.mem_cons_self, by simpa [join] using h⟩
    | cons next parts =>
      rw [join_cons] at h
      rcases List.mem_append.mp h with h | h
      · rcases List.mem_append.mp h with h | h
        · exact Or.inr ⟨part, List.mem_cons_self, h⟩
        · exact Or.inl h
      · rcases ih h with h | ⟨text, htext, h⟩
        · exact Or.inl h
        · exact Or.inr ⟨text, List.mem_cons_of_mem _ htext, h⟩

theorem startswith_iff {s p : Str} : startswith s p = true ↔ p <+: s :=
  List.isPrefixOf_iff_prefix

theorem endswith_iff {s p : Str} : endswith s p = true ↔ p <:+ s :=
  List.isSuffixOf_iff_suffix

theorem contains_iff {s sub : Str} : contains s sub = true ↔ sub <:+: s := by
  simp only [contains, List.any_eq_true, List.mem_tails, List.isPrefixOf_iff_prefix]
  constructor
  · rintro ⟨t, ht, hp⟩
    exact hp.isInfix.trans ht.isInfix
  · rintro ⟨a, b, rfl⟩
    exact ⟨sub ++ b, ⟨a, by simp⟩, ⟨b, rfl⟩⟩

theorem contains_mem {s sub : Str} (h : contains s sub = true) {c : Char} (hc : c ∈ sub) :
    c ∈ s :=
  (contains_iff.mp h).subset hc

theorem sliceLast_suffix (s : Str) (n : Nat) : sliceLast s n <:+ s := List.drop_suffix _ _

theorem length_sliceLast {s : Str} {n : Nat} (h : n ≤ s.length) : (sliceLast s n).length = n := by
  simp only [sliceLast, List.length_drop]
  omega

theorem sliceDropLast_append (s t : Str) : sliceDropLast (s ++ t) t.length = s := by
  rw [sliceDropLast, List.length_append, Nat.add_sub_cancel, List.take_left]

/-- Two suffixes of one string of the same length are the same string. -/
theorem suffix_eq_sliceLast {s t : Str} (h : t <:+ s) : t = sliceLast s t.length := by
  obtain ⟨front, rfl⟩ := h
  simp [sliceLast]

theorem lstrip_of_head {c : Char} {s : Str} (h : isspace c = false) : lstrip (c :: s) = c :: s := by
  simp [lstrip, h]

theorem rstrip_append_of_last {c : Char} {s : Str} (h : isspace c = false) :
    rstrip (s ++ [c]) = s ++ [c] := by
  simp [rstrip, h]

/-- Stripping changes nothing when the outer characters are not white space. -/
theorem strip_of_ends {c d : Char} {s : Str} (hc : isspace c = false) (hd : isspace d = false) :
    strip (c :: s ++ [d]) = c :: s ++ [d] := by
  rw [strip, List.cons_append, lstrip_of_head hc, ← List.cons_append]
  exact rstrip_append_of_last hd

theorem strip_of_forall {s : Str} (h : ∀ c ∈ s, isspace c = false) : strip s = s := by
  have hl : lstrip s = s := by
    cases s with
    | nil => rfl
    | cons c s => exact lstrip_of_head (h c List.mem_cons_self)
  rw [strip, hl, rstrip, List.rdropWhile_eq_self_iff]
  intro hne
  simp [h _ (List.getLast_mem hne)]

theorem strip_within (s : Str) : strip s <:+: s := by
  have hl : lstrip s <:+ s := List.dropWhile_suffix isspace
  have hr : strip s <+: lstrip s := List.rdropWhile_prefix isspace (lstrip s)
  exact hr.isInfix.trans hl.isInfix

/-- A character that is no white space stays, with all before it. -/
theorem prefix_rstrip {c : Char} (h : isspace c = false) (s t : Str) :
    s ++ [c] <+: rstrip (s ++ c :: t) := by
  rw [rstrip, List.rdropWhile, ← List.reverse_suffix]
  simp only [List.reverse_append, List.reverse_cons, List.reverse_reverse, List.append_assoc,
    List.reverse_nil, List.nil_append, List.singleton_append]
  rw [List.dropWhile_append]
  split
  · rw [List.dropWhile_cons_of_neg (by simp [h])]
  · exact List.suffix_append _ _

theorem strip_of_head {c : Char} {s : Str} (h : isspace c = false) :
    strip (c :: s) = rstrip (c :: s) := by
  rw [strip, lstrip_of_head h]

/-- What stripping takes away is white space. -/
theorem mem_strip {s : Str} {c : Char} (h : c ∈ s) (hc : isspace c = false) : c ∈ strip s := by
  have keep : ∀ s : Str, c ∈ s → c ∈ s.dropWhile isspace := by
    intro s hs
    rw [← List.takeWhile_append_dropWhile (p := isspace) (l := s)] at hs
    rcases List.mem_append.mp hs with h | h
    · have := List.mem_takeWhile_imp h
      simp [hc] at this
    · exact h
  have := keep _ (List.mem_reverse.mpr (keep s h))
  simpa [strip, rstrip, lstrip, List.rdropWhile] using this

/-! ## White space around a text -/

/-- White space only. -/
def Blank (w : Str) : Prop := ∀ c ∈ w, isspace c = true

theorem blank_nil : Blank [] := List.forall_mem_nil _

theorem blank_cons {c : Char} {w : Str} (hc : isspace c = true) (hw : Blank w) : Blank (c :: w) :=
  List.forall_mem_cons.mpr ⟨hc, hw⟩

theorem lstrip_blank_append {w : Str} (h : Blank w) (t : Str) : lstrip (w ++ t) = lstrip t :=
  List.dropWhile_append_of_pos h

theorem rstrip_append_blank {w : Str} (h : Blank w) (t : Str) : rstrip (t ++ w) = rstrip t := by
  have hreverse : ∀ c ∈ w.reverse, isspace c = true := fun c hc => h c (List.mem_reverse.mp hc)
  simp only [rstrip, List.rdropWhile, List.reverse_append, List.dropWhile_append_of_pos hreverse]

theorem strip_blank_append {w : Str} (h : Blank w) (t : Str) : strip (w ++ t) = strip t := by
  rw [strip, lstrip_blank_append h, strip]

theorem strip_append_blank {w : Str} (h : Blank w) (t : Str) : strip (t ++ w) = strip t := by
  by_cases hblank : lstrip t = []
  · have hall : Blank (t ++ w) := by
      intro c hc
      apply (List.mem_append.mp hc).elim _ (h c)
      exact List.dropWhile_eq_nil_iff.mp hblank c
    have hnone : lstrip (t ++ w) = [] := List.dropWhile_eq_nil_iff.mpr hall
    rw [strip, strip, hnone, hblank]
  · have hkept : lstrip (t ++ w) = lstrip t ++ w := by
      simp only [lstrip] at hblank ⊢
      rw [List.dropWhile_append, if_neg (by simpa using hblank)]
    rw [strip, hkept, rstrip_append_blank h, strip]

/-- `strip` looks past white space on either side. -/
theorem strip_between {before after : Str} (hbefore : Blank before) (hafter : Blank after) (t : Str) :
    strip (before ++ t ++ after) = strip t := by
  rw [strip_append_blank hafter, strip_blank_append hbefore]

/-! ## Unicode tables -/

/-- The value of an ASCII decimal digit. -/
def asciiDigit (c : Char) : Option Nat :=
  if c.isDigit then some (c.toNat - '0'.toNat) else none

theorem isspace_of_isDigit {c : Char} (h : c.isDigit = true) : isspace c = false := by
  have := Char.isDigit_iff_toNat.mp h
  simp only [Char.reduceToNat] at this
  simp only [isspace, Bool.or_eq_false_iff, Bool.and_eq_false_iff, decide_eq_false_iff_not,
    beq_eq_false_iff_ne]
  omega

theorem toNat_of_isAlphanum {c : Char} (h : c.isAlphanum = true) : c.toNat < 128 := by
  have hle {d : Char} (hd : d.toNat < 128) (hc : c.val ≤ d.val) : c.toNat < 128 :=
    Nat.lt_of_le_of_lt (UInt32.le_iff_toNat_le.mp hc) hd
  have hcases : ((c.isUpper || c.isLower) || c.isDigit) = true := h
  rw [Bool.or_eq_true, Bool.or_eq_true] at hcases
  rcases hcases with (hupper | hlower) | hdigit
  · have hbounds : decide ('A'.val ≤ c.val ∧ c.val ≤ 'Z'.val) = true := hupper
    exact hle (d := 'Z') (by decide) (of_decide_eq_true hbounds).2
  · have hbounds : (decide ('a'.val ≤ c.val) && decide (c.val ≤ 'z'.val)) = true := hlower
    exact hle (d := 'z') (by decide) (of_decide_eq_true (Bool.and_eq_true_iff.mp hbounds).2)
  · have hbounds : (decide ('0'.val ≤ c.val) && decide (c.val ≤ '9'.val)) = true := hdigit
    exact hle (d := '9') (by decide) (of_decide_eq_true (Bool.and_eq_true_iff.mp hbounds).2)

/-- The tables behind `str.isdigit`, `str.upper` and `int(str)`. Outside ASCII
they depend on the interpreter's Unicode version; nothing is assumed there. -/
structure Unicode where
  isdigit : Char → Bool
  upper : Char → Str
  decimal : Char → Option Nat
  isdigit_ascii : ∀ c : Char, c.toNat < 128 → isdigit c = c.isDigit
  upper_ascii : ∀ c : Char, c.toNat < 128 → upper c = [c.toUpper]
  decimal_ascii : ∀ c : Char, c.toNat < 128 → decimal c = asciiDigit c

namespace Unicode

/-- The tables cut down to ASCII. -/
def ascii : Unicode where
  isdigit := Char.isDigit
  upper := fun c => [c.toUpper]
  decimal := asciiDigit
  isdigit_ascii := fun _ _ => rfl
  upper_ascii := fun _ _ => rfl
  decimal_ascii := fun _ _ => rfl

/-- `"".join(filter(str.isdigit, s))`. -/
def digits (u : Unicode) (s : Str) : Str := s.filter u.isdigit

/-- `s.upper()`. -/
def upperStr (u : Unicode) (s : Str) : Str := s.flatMap u.upper

theorem digits_of_all {u : Unicode} {s : Str} (h : ∀ c ∈ s, u.isdigit c = true) :
    u.digits s = s :=
  List.filter_eq_self.mpr h

theorem isdigit_of_mem_digits {u : Unicode} {s : Str} {c : Char} (h : c ∈ u.digits s) :
    u.isdigit c = true :=
  (List.mem_filter.mp h).2

theorem upperStr_append (u : Unicode) (s t : Str) :
    u.upperStr (s ++ t) = u.upperStr s ++ u.upperStr t :=
  List.flatMap_append

/-- On ASCII text `upper` is the letterwise one. -/
theorem upperStr_ascii (u : Unicode) {s : Str} (h : ∀ c ∈ s, c.toNat < 128) :
    u.upperStr s = s.map Char.toUpper := by
  induction s with
  | nil => rfl
  | cons c s ih =>
    have hc := u.upper_ascii c (h c List.mem_cons_self)
    have hs := ih fun d hd => h d (List.mem_cons_of_mem c hd)
    simp only [upperStr, List.flatMap_cons, List.map_cons] at hs ⊢
    rw [hc, hs]
    rfl

end Unicode

end TechMart.Python
