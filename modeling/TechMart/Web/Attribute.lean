import TechMart.Python.Text

/-!
# Attribute values

What a browser makes of the text between the quotes of an attribute: line
breaks are normalized, the value ends at the first apostrophe, and character
references are decoded. The names that have references are the browser's.
-/

namespace TechMart.Web.Attribute

open Python

/-- What stands after the name of a reference, as far as that matters. -/
inductive After where
  | semicolon
  | equals
  | other
  deriving DecidableEq

/-- How many characters of what follows a reference may take. -/
def After.room : After → Nat
  | semicolon => 1
  | equals | other => 0

/-- The character references: by the run of letters, digits and `#` after the
`&` and what follows that run, what is meant and how many characters are read.
A reference is longer than what it stands for. -/
structure References where
  refer : (name : Str) → After → Option (Str × Nat)
  refer_apos : refer "#39" .semicolon = some (['\''], 4)
  refer_quot : refer "quot" .semicolon = some (['"'], 5)
  refer_length : ∀ name after text n, refer name after = some (text, n) →
    text.length ≤ n ∧ n ≤ name.length + after.room

def isNameChar (c : Char) : Bool := c.isAlphanum || c == '#'

def afterOf : Option Char → After
  | some ';' => .semicolon
  | some '=' => .equals
  | _ => .other

section
variable (rs : References)

/-- The reference whose `&` stands right before this text. -/
def reference (s : Str) : Option (Str × Nat) :=
  rs.refer (s.takeWhile isNameChar) (afterOf (s.dropWhile isNameChar).head?)

/-- The text with its references decoded, from the `n`-th character on. -/
def decodeFrom : (n : Nat) → Str → Str
  | _, [] => []
  | n + 1, _ :: s => decodeFrom n s
  | 0, c :: s =>
    if c = '&' then match reference rs s with
      | some (text, n) => text ++ decodeFrom n s
      | none => '&' :: decodeFrom 0 s
    else c :: decodeFrom 0 s

def decode (s : Str) : Str := decodeFrom rs 0 s

def hasReference : Str → Bool
  | [] => false
  | c :: s => (c == '&' && (reference rs s).isSome) || hasReference s

/-- Line breaks become line feeds, and no NUL is left. -/
def normalize : Str → Str
  | '\r' :: '\n' :: s => '\n' :: normalize s
  | '\r' :: s => '\n' :: normalize s
  | '\x00' :: s => '\uFFFD' :: normalize s
  | c :: s => c :: normalize s
  | [] => []

/-- The value of an attribute in apostrophes. -/
def attributeValue (raw : Str) : Str := decode rs ((normalize raw).takeWhile (· != '\''))

/-- Nothing is to be normalized. -/
def Normal (s : Str) : Prop := ∀ c ∈ s, c ≠ '\r' ∧ c ≠ '\x00'

instance (s : Str) : Decidable (Normal s) := List.decidableBAll _ s

/-- A text that means itself. -/
structure Plain (s : Str) : Prop where
  noReference : hasReference rs s = false
  normal : Normal s

end

def replaceChar (c : Char) (text s : Str) : Str := s.flatMap fun d => if d = c then text else [d]

/-- Both quotes replaced by their references. -/
def escapeQuotes (s : Str) : Str := replaceChar '"' "&quot;" (replaceChar '\'' "&#39;" s)

theorem escapeQuotes_nil : escapeQuotes [] = [] := rfl

theorem escapeQuotes_apos (s : Str) : escapeQuotes ('\'' :: s) = "&#39;" ++ escapeQuotes s := rfl

theorem escapeQuotes_quot (s : Str) : escapeQuotes ('"' :: s) = "&quot;" ++ escapeQuotes s := rfl

theorem escapeQuotes_cons {c : Char} (ha : c ≠ '\'') (hq : c ≠ '"') (s : Str) :
    escapeQuotes (c :: s) = c :: escapeQuotes s := by
  simp [escapeQuotes, replaceChar, ha, hq]

theorem escapeQuotes_of_not_mem {s : Str} (ha : '\'' ∉ s) (hq : '"' ∉ s) : escapeQuotes s = s := by
  induction s with
  | nil => rfl
  | cons c s ih =>
    rw [List.mem_cons, not_or] at ha hq
    rw [escapeQuotes_cons (Ne.symm ha.1) (Ne.symm hq.1), ih ha.2 hq.2]

/-- No apostrophe is left to end the value. -/
theorem apos_not_mem_escapeQuotes (s : Str) : '\'' ∉ escapeQuotes s := by
  induction s with
  | nil => simp [escapeQuotes_nil]
  | cons c s ih =>
    by_cases ha : c = '\''
    · subst ha
      simp [escapeQuotes_apos, ih]
    · by_cases hq : c = '"'
      · subst hq
        simp [escapeQuotes_quot, ih]
      · simp [escapeQuotes_cons ha hq, ih, Ne.symm ha]

section
variable {rs : References}

theorem mem_take_room {rest : Str} {c : Char} (h : c ∈ rest.take (afterOf rest.head?).room) :
    c = ';' := by
  cases rest with
  | nil => cases h
  | cons d rest =>
    by_cases hd : d = ';'
    · subst hd
      exact List.mem_singleton.mp h
    · have hroom : (afterOf (some d)).room = 0 := by
        unfold afterOf
        split
        · rename_i heq
          exact absurd (Option.some.inj heq) hd
        · rfl
        · rfl
      rw [List.head?_cons, hroom] at h
      cases h

theorem room_le (rest : Str) : (afterOf rest.head?).room ≤ rest.length := by
  cases rest with
  | nil => exact Nat.le_refl 0
  | cons d rest =>
    have hroom (a : After) : a.room ≤ 1 := by cases a <;> decide
    exact (hroom _).trans (by simp)

/-- A reference is read within its run, and the semicolon after it. -/
theorem reference_bound {s text : Str} {n : Nat} (h : reference rs s = some (text, n)) :
    text.length ≤ n ∧ n ≤ s.length ∧ ∀ c ∈ s.take n, isNameChar c = true ∨ c = ';' := by
  obtain ⟨hlength, hn⟩ := rs.refer_length _ _ _ _ h
  have hsplit : s.takeWhile isNameChar ++ s.dropWhile isNameChar = s :=
    List.takeWhile_append_dropWhile
  have hname : ∀ c ∈ s.takeWhile isNameChar, isNameChar c = true :=
    fun c hc => List.mem_takeWhile_imp hc
  generalize s.takeWhile isNameChar = name at hn hsplit hname
  generalize s.dropWhile isNameChar = rest at hn hsplit
  subst hsplit
  have hroom := room_le rest
  refine ⟨hlength, ?_, ?_⟩
  · rw [List.length_append]
    omega
  · intro c hc
    have hrun := (List.take_prefix_take_left hn).subset hc
    rw [List.take_length_add_append] at hrun
    rcases List.mem_append.mp hrun with hc | hc
    · exact Or.inl (hname c hc)
    · exact Or.inr (mem_take_room hc)

/-! ## Quotes -/

theorem nameChar_ne {c : Char} (h : isNameChar c = true ∨ c = ';') :
    c ≠ '\'' ∧ c ≠ '"' ∧ c ≠ '&' := by
  refine ⟨?_, ?_, ?_⟩ <;>
  · rintro rfl
    revert h
    decide

/-- Escaping quotes changes no reference before them. -/
theorem reference_escapeQuotes (s : Str) : reference rs (escapeQuotes s) = reference rs s := by
  have hrun : (escapeQuotes s).takeWhile isNameChar = s.takeWhile isNameChar ∧
      afterOf ((escapeQuotes s).dropWhile isNameChar).head? =
        afterOf (s.dropWhile isNameChar).head? := by
    induction s with
    | nil => exact ⟨rfl, rfl⟩
    | cons c s ih =>
      by_cases ha : c = '\''
      · subst ha
        exact ⟨rfl, rfl⟩
      · by_cases hq : c = '"'
        · subst hq
          exact ⟨rfl, rfl⟩
        · rw [escapeQuotes_cons ha hq]
          by_cases hc : isNameChar c = true
          · simp only [List.takeWhile_cons_of_pos hc, List.dropWhile_cons_of_pos hc, ih, and_self]
          · simp only [List.takeWhile_cons_of_neg hc, List.dropWhile_cons_of_neg hc,
              List.head?_cons, and_self]
  rw [reference, hrun.1, hrun.2, reference]

theorem decode_apos (s : Str) : decode rs ("&#39;" ++ s) = '\'' :: decode rs s := by
  have hreference : reference rs ('#' :: '3' :: '9' :: ';' :: s) = some (['\''], 4) := rs.refer_apos
  show decodeFrom rs 0 ('&' :: '#' :: '3' :: '9' :: ';' :: s) = _
  rw [decodeFrom, if_pos rfl, hreference]
  rfl

theorem decode_quot (s : Str) : decode rs ("&quot;" ++ s) = '"' :: decode rs s := by
  have hreference : reference rs ('q' :: 'u' :: 'o' :: 't' :: ';' :: s) = some (['"'], 5) :=
    rs.refer_quot
  show decodeFrom rs 0 ('&' :: 'q' :: 'u' :: 'o' :: 't' :: ';' :: s) = _
  rw [decodeFrom, if_pos rfl, hreference]
  rfl

/-- An escaped text is decoded as the text itself is. -/
theorem decodeFrom_escapeQuotes (s : Str) (n : Nat)
    (h : ∀ c ∈ s.take n, isNameChar c = true ∨ c = ';') :
    decodeFrom rs n (escapeQuotes s) = decodeFrom rs n s := by
  induction s generalizing n with
  | nil => rfl
  | cons c s ih =>
    cases n with
    | succ n =>
      obtain ⟨ha, hq, -⟩ := nameChar_ne (h c List.mem_cons_self)
      rw [escapeQuotes_cons ha hq]
      exact ih n fun d hd => h d (List.mem_cons_of_mem c hd)
    | zero =>
      have hs := ih 0 (by simp)
      by_cases ha : c = '\''
      · subst ha
        rw [escapeQuotes_apos]
        exact (decode_apos _).trans (congrArg _ hs)
      · by_cases hq : c = '"'
        · subst hq
          rw [escapeQuotes_quot]
          exact (decode_quot _).trans (congrArg _ hs)
        · rw [escapeQuotes_cons ha hq]
          simp only [decodeFrom, reference_escapeQuotes, hs]
          by_cases hc : c = '&'
          · rw [if_pos hc, if_pos hc]
            cases hreference : reference rs s with
            | none => rfl
            | some found =>
              obtain ⟨text, n⟩ := found
              simp only [ih n (reference_bound hreference).2.2]
          · rw [if_neg hc, if_neg hc]

theorem decode_escapeQuotes (s : Str) : decode rs (escapeQuotes s) = decode rs s :=
  decodeFrom_escapeQuotes s 0 (by simp)

/-! ## Texts that mean themselves -/

theorem decode_of_not_hasReference {s : Str} (h : hasReference rs s = false) : decode rs s = s := by
  induction s with
  | nil => rfl
  | cons c s ih =>
    rw [hasReference, Bool.or_eq_false_iff] at h
    have hs : decodeFrom rs 0 s = s := ih h.2
    by_cases hc : c = '&'
    · have hnone : reference rs s = none := by
        simpa [hc] using h.1
      rw [decode, decodeFrom, if_pos hc, hnone, hs, hc]
    · rw [decode, decodeFrom, if_neg hc, hs]

/-- To count the characters that references are made of, possibly others, and
none that normalizing adds. -/
structure Counts (p : Char → Bool) : Prop where
  amp : p '&' = true
  name : ∀ c, isNameChar c = true ∨ c = ';' → p c = true
  lineBreak : p '\n' = true → p '\r' = true
  nul : p '\x00' = true

variable {p : Char → Bool}

theorem countP_reference_le (hp : Counts p) {s text : Str} {n : Nat}
    (h : reference rs s = some (text, n)) {rest : Str}
    (hrest : rest.countP p ≤ (s.drop n).countP p) : (text ++ rest).countP p ≤ s.countP p := by
  obtain ⟨hlength, hn, hrun⟩ := reference_bound h
  have htext : text.countP p ≤ text.length := List.countP_le_length
  have hsplit : s.countP p = (s.take n).countP p + (s.drop n).countP p := by
    rw [← List.countP_append, List.take_append_drop]
  have hread : (s.take n).countP p = n := by
    rw [List.countP_eq_length.mpr fun c hc => hp.name c (hrun c hc), List.length_take]
    omega
  rw [List.countP_append]
  omega

theorem countP_decodeFrom_le (hp : Counts p) (s : Str) (n : Nat) :
    (decodeFrom rs n s).countP p ≤ (s.drop n).countP p := by
  induction s generalizing n with
  | nil => simp [decodeFrom]
  | cons c s ih =>
    cases n with
    | succ n => exact ih n
    | zero =>
      have hs := ih 0
      rw [List.drop_zero] at hs ⊢
      by_cases hc : c = '&'
      · subst hc
        cases hreference : reference rs s with
        | none =>
          rw [decodeFrom, if_pos rfl, hreference]
          simp only [List.countP_cons]
          omega
        | some found =>
          obtain ⟨text, n⟩ := found
          have hdecoded := countP_reference_le hp hreference (ih n)
          rw [decodeFrom, if_pos rfl, hreference, List.countP_cons_of_pos hp.amp]
          exact hdecoded.trans (Nat.le_succ _)
      · rw [decodeFrom, if_neg hc]
        simp only [List.countP_cons]
        omega

/-- What a reference stands for is shorter than the reference. -/
theorem countP_decode_lt (hp : Counts p) {s : Str} (h : hasReference rs s = true) :
    (decode rs s).countP p < s.countP p := by
  induction s with
  | nil => cases h
  | cons c s ih =>
    by_cases hc : c = '&'
    · subst hc
      rw [List.countP_cons_of_pos hp.amp, decode, decodeFrom, if_pos rfl]
      cases hreference : reference rs s with
      | none =>
        have hs := ih (by simpa [hasReference, hreference] using h)
        simp only [List.countP_cons_of_pos hp.amp]
        exact Nat.succ_lt_succ hs
      | some found =>
        obtain ⟨text, n⟩ := found
        have hdecoded := countP_reference_le hp hreference (@countP_decodeFrom_le rs p hp s n)
        exact Nat.lt_succ_of_le hdecoded
    · have hs := ih (by simpa [hasReference, hc] using h)
      rw [decode] at hs ⊢
      rw [decodeFrom, if_neg hc]
      simp only [List.countP_cons]
      omega

theorem countP_normalize_le (hp : Counts p) (s : Str) : (normalize s).countP p ≤ s.countP p := by
  induction s using normalize.induct with
  | case1 s ih =>
    rw [normalize]
    simp only [List.countP_cons]
    omega
  | case2 s _ ih =>
    rw [normalize]
    · simp only [List.countP_cons]
      by_cases hbreak : p '\n' = true
      · simp only [hbreak, hp.lineBreak hbreak, if_true]
        omega
      · simp only [hbreak, Bool.false_eq_true, if_false]
        omega
    · assumption
  | case3 s ih =>
    rw [normalize, List.countP_cons_of_pos hp.nul, List.countP_cons]
    split <;> omega
  | case4 c s hbreak hreturn hnul ih =>
    rw [normalize]
    · simp only [List.countP_cons]
      omega
    all_goals assumption
  | case5 => exact Nat.le_refl 0

/-! ## Line breaks -/

theorem normal_normalize (s : Str) : Normal (normalize s) := by
  induction s using normalize.induct with
  | case1 s ih =>
    rw [normalize]
    exact List.forall_mem_cons.mpr ⟨by decide, ih⟩
  | case2 s _ ih =>
    rw [normalize]
    · exact List.forall_mem_cons.mpr ⟨by decide, ih⟩
    · assumption
  | case3 s ih =>
    rw [normalize]
    exact List.forall_mem_cons.mpr ⟨by decide, ih⟩
  | case4 c s _ hreturn hnul ih =>
    rw [normalize]
    · exact List.forall_mem_cons.mpr ⟨⟨hreturn, hnul⟩, ih⟩
    all_goals assumption
  | case5 => exact List.forall_mem_nil _

theorem normalize_cons {c : Char} (hc : c ≠ '\r' ∧ c ≠ '\x00') (s : Str) :
    normalize (c :: s) = c :: normalize s := by
  rw [normalize]
  · rintro t rfl
    exact absurd rfl hc.1
  · exact hc.1
  · exact hc.2

theorem normalize_of_normal {s : Str} (h : Normal s) : normalize s = s := by
  induction s with
  | nil => rfl
  | cons c s ih =>
    obtain ⟨hc, hs⟩ := List.forall_mem_cons.mp h
    rw [normalize_cons hc, ih hs]

theorem normalize_append {s : Str} (h : Normal s) (t : Str) :
    normalize (s ++ t) = s ++ normalize t := by
  induction s with
  | nil => rfl
  | cons c s ih =>
    obtain ⟨hc, hs⟩ := List.forall_mem_cons.mp h
    rw [List.cons_append, normalize_cons hc, ih hs, List.cons_append]

/-- Quotes are escaped and line breaks normalized in either order. -/
theorem normalize_escapeQuotes (s : Str) :
    normalize (escapeQuotes s) = escapeQuotes (normalize s) := by
  have hreturn (s : Str) : escapeQuotes ('\r' :: s) = '\r' :: escapeQuotes s := rfl
  have hbreak (s : Str) : escapeQuotes ('\n' :: s) = '\n' :: escapeQuotes s := rfl
  induction s using normalize.induct with
  | case1 s ih =>
    rw [hreturn, hbreak, normalize, normalize, ih, hbreak]
  | case2 s hnext ih =>
    have hescaped : ∀ t, escapeQuotes s = '\n' :: t → False := by
      intro t ht
      cases s with
      | nil => cases ht
      | cons c s =>
        by_cases ha : c = '\''
        · subst ha
          cases ht
        · by_cases hq : c = '"'
          · subst hq
            cases ht
          · rw [escapeQuotes_cons ha hq] at ht
            cases ht
            exact hnext s rfl
    rw [hreturn, normalize.eq_2 _ hescaped, normalize.eq_2 _ hnext, ih, hbreak]
  | case3 s ih =>
    have hnul : escapeQuotes ('\x00' :: s) = '\x00' :: escapeQuotes s := rfl
    have hreplaced (s : Str) : escapeQuotes ('\uFFFD' :: s) = '\uFFFD' :: escapeQuotes s := rfl
    rw [hnul, normalize, normalize, ih, hreplaced]
  | case4 c s _ hreturn hnul ih =>
    rw [normalize_cons ⟨hreturn, hnul⟩]
    by_cases ha : c = '\''
    · subst ha
      rw [escapeQuotes_apos, escapeQuotes_apos, normalize_append (by decide), ih]
    · by_cases hq : c = '"'
      · subst hq
        rw [escapeQuotes_quot, escapeQuotes_quot, normalize_append (by decide), ih]
      · rw [escapeQuotes_cons ha hq, escapeQuotes_cons ha hq, normalize_cons ⟨hreturn, hnul⟩, ih]
  | case5 => rfl

/-- The value of an attribute whose quotes were escaped. -/
theorem attributeValue_escapeQuotes (s : Str) :
    attributeValue rs (escapeQuotes s) = decode rs (normalize s) := by
  have hall : ∀ c ∈ escapeQuotes (normalize s), (c != '\'') = true := by
    intro c hc
    rw [bne_iff_ne]
    rintro rfl
    exact apos_not_mem_escapeQuotes _ hc
  rw [attributeValue, normalize_escapeQuotes, List.takeWhile_eq_self_iff.mpr hall,
    decode_escapeQuotes]

/-! ## What is kept -/

theorem decode_normalize_of_plain {s : Str} (h : Plain rs s) : decode rs (normalize s) = s := by
  rw [normalize_of_normal h.normal, decode_of_not_hasReference h.noReference]

/-- A text is shortened, or it means what its normalized form is. -/
theorem decode_normalize_cases (s : Str) :
    (decode rs (normalize s)).length < s.length ∨
      hasReference rs (normalize s) = false ∧ decode rs (normalize s) = normalize s := by
  have hall : Counts fun _ => true := ⟨rfl, fun _ _ => rfl, fun _ => rfl, rfl⟩
  have hnormalize := countP_normalize_le hall s
  cases href : hasReference rs (normalize s) with
  | true =>
    have hdecode := countP_decode_lt hall href
    simp only [List.countP_true] at hnormalize hdecode
    exact Or.inl (hdecode.trans_le hnormalize)
  | false => exact Or.inr ⟨rfl, decode_of_not_hasReference href⟩

theorem mem_normalize {c : Char} (hbreak : c ≠ '\n') (hnormal : c ≠ '\r' ∧ c ≠ '\x00') {s : Str}
    (h : c ∈ s) : c ∈ normalize s := by
  induction s using normalize.induct with
  | case1 s ih =>
    rw [normalize]
    simp only [List.mem_cons, hbreak, hnormal.1, false_or] at h
    exact List.mem_cons_of_mem _ (ih h)
  | case2 s _ ih =>
    rw [normalize]
    · exact List.mem_cons_of_mem _ (ih ((List.mem_cons.mp h).resolve_left hnormal.1))
    · assumption
  | case3 s ih =>
    rw [normalize]
    exact List.mem_cons_of_mem _ (ih ((List.mem_cons.mp h).resolve_left hnormal.2))
  | case4 d s _ hreturn hnul ih =>
    rw [normalize_cons ⟨hreturn, hnul⟩]
    rcases List.mem_cons.mp h with rfl | h
    · exact List.mem_cons_self
    · exact List.mem_cons_of_mem _ (ih h)
  | case5 => cases h

theorem length_normalize_le (s : Str) : (normalize s).length ≤ s.length := by
  have hall : Counts fun _ => true := ⟨rfl, fun _ _ => rfl, fun _ => rfl, rfl⟩
  simpa only [List.countP_true] using countP_normalize_le hall s

/-- A text keeps its value exactly if it means itself. -/
theorem decode_normalize_iff {s : Str} : decode rs (normalize s) = s ↔ Plain rs s := by
  constructor
  · intro hkept
    rcases @decode_normalize_cases rs s with hshorter | ⟨hnone, hdecode⟩
    · rw [hkept] at hshorter
      exact absurd hshorter (Nat.lt_irrefl _)
    · have hsame : normalize s = s := hdecode.symm.trans hkept
      exact ⟨hsame ▸ hnone, hsame ▸ normal_normalize s⟩
  · exact decode_normalize_of_plain

theorem hasReference_of_not_mem {s : Str} (h : '&' ∉ s) : hasReference rs s = false := by
  induction s with
  | nil => rfl
  | cons c s ih =>
    rw [List.mem_cons, not_or] at h
    rw [hasReference, ih h.2, beq_eq_false_iff_ne.mpr (Ne.symm h.1)]
    rfl

/-- Characters of which no references are made are kept. -/
theorem mem_decodeFrom {c : Char} (hname : isNameChar c = false) (hsemicolon : c ≠ ';')
    (hamp : c ≠ '&') {s : Str} {n : Nat} (h : c ∈ s.drop n) : c ∈ decodeFrom rs n s := by
  induction s generalizing n with
  | nil => simp at h
  | cons d s ih =>
    cases n with
    | succ n => exact ih h
    | zero =>
      by_cases hd : d = '&'
      · subst hd
        have hs : c ∈ s := (List.mem_cons.mp h).resolve_left hamp
        rw [decodeFrom, if_pos rfl]
        cases hreference : reference rs s with
        | none => exact List.mem_cons_of_mem _ (ih hs)
        | some found =>
          obtain ⟨text, n⟩ := found
          have hrun := (reference_bound hreference).2.2
          rw [← List.take_append_drop n s] at hs
          rcases List.mem_append.mp hs with hread | hrest
          · rcases hrun c hread with hc | hc
            · rw [hname] at hc
              cases hc
            · exact absurd hc hsemicolon
          · exact List.mem_append_right _ (ih hrest)
      · rw [decodeFrom, if_neg hd]
        rcases List.mem_cons.mp h with rfl | hs
        · exact List.mem_cons_self
        · exact List.mem_cons_of_mem _ (ih hs)

/-- No reference goes beyond a character of which none are made. -/
theorem reference_append {c : Char} (hname : isNameChar c = false) (hother : afterOf (some c) = .other)
    (s t : Str) : reference rs (s ++ c :: t) = reference rs s := by
  have hrun : (s ++ c :: t).takeWhile isNameChar = s.takeWhile isNameChar ∧
      afterOf ((s ++ c :: t).dropWhile isNameChar).head? =
        afterOf (s.dropWhile isNameChar).head? := by
    induction s with
    | nil =>
      refine ⟨by simp [hname], ?_⟩
      rw [List.nil_append, List.dropWhile_cons_of_neg (by simp [hname]), List.head?_cons, hother]
      rfl
    | cons d s ih =>
      rw [List.cons_append]
      by_cases hd : isNameChar d = true
      · simp only [List.takeWhile_cons_of_pos hd, List.dropWhile_cons_of_pos hd, ih, and_self]
      · simp only [List.takeWhile_cons_of_neg hd, List.dropWhile_cons_of_neg hd, List.head?_cons,
          and_self]
  rw [reference, hrun.1, hrun.2, reference]

theorem hasReference_append {c : Char} (hname : isNameChar c = false)
    (hother : afterOf (some c) = .other) (hamp : c ≠ '&') (s t : Str) :
    hasReference rs (s ++ c :: t) = (hasReference rs s || hasReference rs t) := by
  induction s with
  | nil => simp [hasReference, hamp]
  | cons d s ih =>
    rw [List.cons_append, hasReference, hasReference, reference_append hname hother, ih,
      Bool.or_assoc]

end

end TechMart.Web.Attribute
