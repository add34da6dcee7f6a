import TechMart.Admin.Page

/-!
# Columns

The columns of the three tables and what they hold. A cell is shown as a text
and read back from one: `tags_join`, `strptime_iso` and `int_intStr` are the
round trips, `countP_join_le` says that no shorter text has the same tags.
-/

namespace TechMart.Admin

open Python Web.Attribute Web.Stringify

/-! ## The schema -/

inductive ColumnType where
  | string
  | stringArray
  | date
  | float32
  | int32
  | uint8
  | stringMap
  | floatArray
  deriving DecidableEq

def AdminTable.schema : AdminTable → List (Str × ColumnType)
  | .companyFaqs =>
    [("faq_id", .string), ("category", .string), ("question", .string), ("answer", .string),
     ("tags", .stringArray), ("related_tos", .string), ("question_embedding", .floatArray)]
  | .companyTos =>
    [("doc_id", .string), ("title", .string), ("category", .string), ("tags", .stringArray),
     ("effective_date", .date), ("last_updated", .date), ("content", .string)]
  | .productCatalog =>
    [("product_id", .string), ("page_content", .string), ("name", .string), ("brand", .string),
     ("category", .string), ("price_inr", .float32), ("stock_qty", .int32),
     ("warranty_months", .int32), ("rating", .float32), ("in_stock", .uint8),
     ("price_tier", .string), ("specs", .stringMap), ("embedding", .floatArray)]

def AdminTable.columns (t : AdminTable) : List Str := t.schema.map Prod.fst

/-- What a cell holds. -/
inductive Cell where
  | string (s : Str)
  | strings (texts : List Str)
  | date (year month day : ℕ)
  | float (x : PyFloat)
  | int (n : ℤ)
  | map (entries : Dict Str)
  | vector (v : Value)

namespace Cell

def value : Cell → Value
  | string s => .str s
  | strings texts => .list (texts.map .str)
  | date y m d => .date y m d
  | float x => .float x
  | int n => .int n
  | map entries => .dict (entriesValue entries)
  | vector v => v

/-- The cells that a column of the type can hold. -/
def HasType (rt : Runtime) : Cell → ColumnType → Prop
  | string _, .string | strings _, .stringArray | vector _, .floatArray => True
  | date y m d, .date => 1 ≤ y ∧ y ≤ 9999 ∧ 1 ≤ m ∧ m ≤ 12 ∧ 1 ≤ d ∧ d ≤ daysInMonth y m
  | float x, .float32 => ∀ q, x = .finite q → IsDouble rt q
  | int n, .int32 => -2 ^ 31 ≤ n ∧ n < 2 ^ 31
  | int n, .uint8 => 0 ≤ n ∧ n < 256
  | map entries, .stringMap => (Dict.keys entries).Nodup
  | _, _ => False

theorem type_of_vector {rt : Runtime} {v : Value} {ty : ColumnType}
    (h : (vector v).HasType rt ty) : ty = .floatArray := by
  cases ty with
  | floatArray => rfl
  | _ => exact h.elim

end Cell

/-! ## Tags -/

def tags (text : Str) : List Str :=
  ((text.splitOn ',').map strip).filter fun tag => !tag.isEmpty

theorem tagsOf_eq (text : Str) : tagsOf text = .list ((tags text).map .str) := rfl

theorem tags_of_not_mem {text : Str} (h : ',' ∉ text) :
    tags text = if (strip text).isEmpty then [] else [strip text] := by
  rw [tags, List.splitOn_eq_singleton h]
  cases hempty : (strip text).isEmpty <;> simp [hempty]

theorem tags_append {text : Str} (h : ',' ∉ text) (rest : Str) :
    tags (text ++ ',' :: rest) = tags text ++ tags rest := by
  rw [tags, List.splitOn_append_cons_self_of_not_mem h, tags, List.splitOn_eq_singleton h, tags]
  simp only [List.map_cons, List.map_nil, ← List.filter_append, List.singleton_append]

/-- A text that is a tag by itself. -/
structure IsTag (text : Str) : Prop where
  nonempty : text ≠ []
  stripped : strip text = text
  noComma : ',' ∉ text

theorem tags_blank_append {w text : Str} (hw : Blank w) (h : IsTag text) :
    tags (w ++ text) = [text] := by
  have hcomma : ',' ∉ w ++ text := by
    intro hmem
    rcases List.mem_append.mp hmem with hmem | hmem
    · exact absurd (hw _ hmem) (by decide)
    · exact h.noComma hmem
  rw [tags_of_not_mem hcomma, strip_blank_append hw, h.stripped, if_neg]
  simpa using h.nonempty

/-- The tags of joined tags. -/
theorem tags_join {texts : List Str} (h : ∀ text ∈ texts, IsTag text) :
    tags (join ", " texts) = texts := by
  have hjoin (w text : Str) (rest : List Str) (hw : Blank w)
      (hall : ∀ t ∈ text :: rest, IsTag t) : tags (w ++ join ", " (text :: rest)) = text :: rest := by
    induction rest generalizing w text with
    | nil =>
      rw [join, List.intercalate_singleton]
      exact tags_blank_append hw (hall text List.mem_cons_self)
    | cons next rest ih =>
      have htext := hall text List.mem_cons_self
      have hcomma : ',' ∉ w ++ text := by
        intro hmem
        rcases List.mem_append.mp hmem with hmem | hmem
        · exact absurd (hw _ hmem) (by decide)
        · exact htext.noComma hmem
      have hspace : Blank [' '] := by
        intro c hc
        rw [List.mem_singleton.mp hc]
        decide
      have hsplit : w ++ join ", " (text :: next :: rest) =
          (w ++ text) ++ ',' :: ([' '] ++ join ", " (next :: rest)) := by
        simp [join_cons, List.append_assoc]
      rw [hsplit, tags_append hcomma, tags_blank_append hw htext,
        ih [' '] next hspace fun t ht => hall t (List.mem_cons_of_mem _ ht)]
      rfl
  cases texts with
  | nil => decide
  | cons text rest => exact hjoin [] text rest blank_nil h

theorem mem_splitOn {s piece : Str} {a : Char} (h : piece ∈ s.splitOn a) :
    a ∉ piece ∧ piece ⊆ s := by
  induction s generalizing piece with
  | nil =>
    rw [List.splitOn_nil, List.mem_singleton] at h
    subst h
    exact ⟨List.not_mem_nil, List.Subset.refl _⟩
  | cons c s ih =>
    rw [List.splitOn_cons_eq_if_modifyHead] at h
    split at h
    · rcases List.mem_cons.mp h with rfl | h
      · exact ⟨List.not_mem_nil, List.nil_subset _⟩
      · exact ⟨(ih h).1, List.subset_cons_of_subset c (ih h).2⟩
    · rename_i hc
      obtain ⟨front, rest, hsplit⟩ := List.exists_cons_of_ne_nil (List.splitOn_ne_nil a s)
      rw [hsplit] at ih h
      rcases List.mem_cons.mp h with rfl | h
      · obtain ⟨hfront, hsub⟩ := ih List.mem_cons_self
        refine ⟨?_, List.cons_subset_cons c hsub⟩
        rw [List.mem_cons, not_or]
        exact ⟨fun heq => hc (by simp [heq]), hfront⟩
      · obtain ⟨hpiece, hsub⟩ := ih (List.mem_cons_of_mem front h)
        exact ⟨hpiece, List.subset_cons_of_subset c hsub⟩

theorem strip_strip (s : Str) : strip (strip s) = strip s := by
  have hl : lstrip (strip s) = strip s := by
    cases hstrip : strip s with
    | nil => rfl
    | cons c t =>
      obtain ⟨rest, hrest⟩ : strip s <+: lstrip s := List.rdropWhile_prefix isspace (lstrip s)
      have hhead : lstrip s = c :: (t ++ rest) := by
        rw [← hrest, hstrip, List.cons_append]
      have hc : isspace c = false := by
        have hnot := List.dropWhile_get_zero_not isspace s (by
          show 0 < (lstrip s).length
          rw [hhead]
          exact Nat.zero_lt_succ _)
        have hget : (lstrip s).get ⟨0, by rw [hhead]; exact Nat.zero_lt_succ _⟩ = c := by
          simp [hhead]
        exact Bool.eq_false_iff.mpr (hget ▸ hnot)
      exact lstrip_of_head hc
  have hr : rstrip (strip s) = strip s := List.rdropWhile_idempotent isspace (lstrip s)
  rw [strip, hl, hr]

/-- What the tags of a text are. -/
theorem isTag_of_mem_tags {text tag : Str} (h : tag ∈ tags text) : IsTag tag ∧ tag ⊆ text := by
  obtain ⟨hmem, hnonempty⟩ := List.mem_filter.mp h
  obtain ⟨piece, hpiece, rfl⟩ := List.mem_map.mp hmem
  obtain ⟨hcomma, hsub⟩ := mem_splitOn hpiece
  have hwithin := (strip_within piece).subset
  exact ⟨⟨by simpa using hnonempty, strip_strip piece, fun hc => hcomma (hwithin hc)⟩,
    List.Subset.trans hwithin hsub⟩

/-- Not white space. -/
def isInk (c : Char) : Bool := !isspace c

/-- The ink of joined texts: their own, and one separator less than there are. -/
theorem countP_join {sep : Str} (hsep : sep.countP isInk = 1) (text : Str) (rest : List Str) :
    (join sep (text :: rest)).countP isInk + 1 =
      ((text :: rest).map fun t => t.countP isInk + 1).sum := by
  induction rest generalizing text with
  | nil => simp [join]
  | cons next rest ih =>
    have hrest := ih next
    rw [join_cons, List.countP_append, List.countP_append, hsep, List.map_cons, List.sum_cons]
    omega

theorem countP_tags_le (parts : List Str) :
    (((parts.map strip).filter fun tag => !tag.isEmpty).map fun t => t.countP isInk + 1).sum ≤
      (parts.map fun t => t.countP isInk + 1).sum := by
  induction parts with
  | nil => exact Nat.le_refl 0
  | cons part parts ih =>
    have hstrip : (strip part).countP isInk ≤ part.countP isInk :=
      (strip_within part).sublist.countP_le
    rw [List.map_cons, List.filter_cons, List.map_cons, List.sum_cons]
    split
    · rw [List.map_cons, List.sum_cons]
      omega
    · omega

/-- A text has at least the ink of its tags, joined. -/
theorem countP_join_le {text : Str} (h : tags text ≠ []) :
    (join ", " (tags text)).countP isInk ≤ text.countP isInk := by
  obtain ⟨tag, rest, htags⟩ := List.exists_cons_of_ne_nil h
  obtain ⟨part, parts, hparts⟩ := List.exists_cons_of_ne_nil (List.splitOn_ne_nil ',' text)
  have hjoined := countP_join (show (", ".toList).countP isInk = 1 by decide) tag rest
  have htext := countP_join (show [','].countP isInk = 1 by decide) part parts
  have hle := countP_tags_le (part :: parts)
  have hback : join [','] (part :: parts) = text := by
    rw [← hparts]
    exact List.intercalate_splitOn ','
  have hfilter : ((part :: parts).map strip).filter (fun tag => !tag.isEmpty) = tag :: rest := by
    rw [← hparts, ← htags, tags]
  rw [hback] at htext
  rw [hfilter] at hle
  rw [htags]
  omega

/-! ## Dates -/

theorem length_padded {w n : ℕ} (hw : 0 < w) (h : n < 10 ^ w) : (padded w n).length = w := by
  have hlength : (natStr n).length ≤ w := (Nat.length_toDigits_le_iff (by decide) hw).mpr h
  rw [padded, List.length_append, List.length_replicate]
  omega

theorem not_dash_mem_padded (w n : ℕ) : '-' ∉ padded w n := by
  intro h
  have := isDigit_of_mem_padded h
  cases this

theorem yearField_padded (rt : Runtime) {y : ℕ} (h : y ≤ 9999) :
    yearField rt (padded 4 y) = some y := by
  have hlength : (padded 4 y).length = 4 := length_padded (by decide) (by omega)
  have hdigits : ∀ c ∈ padded 4 y, c.isDigit = true := fun _ => isDigit_of_mem_padded
  have hvalue : natOfDigits (padded 4 y) = y := natOfDigits_padded 4 y
  generalize padded 4 y = s at hlength hdigits hvalue
  match s, hlength with
  | [a, b, c, d], _ =>
    have hdecimal : ∀ x ∈ [a, b, c, d], rt.decimal x = some (x.toNat - '0'.toNat) := by
      intro x hx
      have hdigit := hdigits x hx
      have hrange := Char.isDigit_iff_toNat.mp hdigit
      simp only [Char.reduceToNat] at hrange
      rw [rt.decimal_ascii x (by omega), asciiDigit, if_pos hdigit]
    rw [yearField, hdecimal a (by simp), hdecimal b (by simp), hdecimal c (by simp),
      hdecimal d (by simp), ← hvalue]
    simp only [natOfDigits, Nat.ofDigitChars_cons, Nat.ofDigitChars_nil, Option.bind_eq_bind,
      Option.bind_some, Option.some.injEq]
    omega

theorem dayField_ascii (rt : Runtime) {s : Str} (h : ∀ c ∈ s, c.toNat < 128) :
    dayField rt s = dayField Runtime.ascii s := by
  unfold dayField
  split
  any_goals rfl
  · rename_i c
    rw [rt.decimal_ascii c (h c (by simp))]
    rfl
  · rename_i c
    rw [rt.decimal_ascii c (h c (by simp))]
    rfl

theorem monthField_padded : ∀ m < 13, 1 ≤ m → monthField (padded 2 m) = some m := by
  decide

theorem dayField_padded : ∀ d < 32, 1 ≤ d → dayField Runtime.ascii (padded 2 d) = some d := by
  decide

theorem daysInMonth_le (y m : ℕ) : daysInMonth y m ≤ 31 := by
  unfold daysInMonth
  split
  · split <;> decide
  all_goals decide

theorem str_date (rt : Runtime) (y m d : ℕ) :
    rt.str (.date y m d) = padded 4 y ++ '-' :: (padded 2 m ++ '-' :: padded 2 d) := by
  simp [Runtime.str]

theorem splitOn_date (rt : Runtime) (y m d : ℕ) :
    (rt.str (.date y m d)).splitOn '-' = [padded 4 y, padded 2 m, padded 2 d] := by
  rw [str_date, List.splitOn_append_cons_self_of_not_mem (not_dash_mem_padded 4 y),
    List.splitOn_append_cons_self_of_not_mem (not_dash_mem_padded 2 m),
    List.splitOn_eq_singleton (not_dash_mem_padded 2 d)]

section
variable {rt : Runtime} {y m d : ℕ} (h : (Cell.date y m d).HasType rt .date)
include h

/-- A date is read back from its text. -/
theorem strptime_iso : strptime rt (rt.str (.date y m d)) = some (.date y m d) := by
  obtain ⟨hy, hy', hm, hm', hd, hd'⟩ := h
  have hdays := daysInMonth_le y m
  have hascii : ∀ c ∈ padded 2 d, c.toNat < 128 := by
    intro c hc
    have := Char.isDigit_iff_toNat.mp (isDigit_of_mem_padded hc)
    simp only [Char.reduceToNat] at this
    omega
  have hday : dayField rt (padded 2 d) = some d := by
    rw [dayField_ascii rt hascii]
    exact dayField_padded d (by omega) hd
  rw [strptime, splitOn_date]
  simp only [yearField_padded rt hy', monthField_padded m (by omega) hm, hday, Option.bind_eq_bind,
    Option.bind_some, hy, hd', and_self, if_true]

theorem isDate_iso : isDate (rt.str (.date y m d)) = true := by
  obtain ⟨hy, hy', hm, hm', hd, hd'⟩ := h
  have hdays := daysInMonth_le y m
  have hyear : (padded 4 y).length = 4 := length_padded (by decide) (by omega)
  have hmonth : (padded 2 m).length = 2 := length_padded (by decide) (by omega)
  have hday : (padded 2 d).length = 2 := length_padded (by decide) (by omega)
  have hdigits : (padded 4 y ++ padded 2 m ++ padded 2 d).all Char.isDigit = true := by
    simp only [List.all_append, Bool.and_eq_true, List.all_eq_true]
    exact ⟨⟨fun _ => isDigit_of_mem_padded, fun _ => isDigit_of_mem_padded⟩,
      fun _ => isDigit_of_mem_padded⟩
  rw [isDate, splitOn_date]
  simp only [hdigits, hyear, hmonth, hday, natOfDigits_padded, hy, hm, hm', hd, hd', decide_true,
    Bool.and_self, BEq.rfl, Nat.le_refl]

end

/-! ## Numbers -/

theorem natStr_eq (n : ℕ) : natStr n = padded 0 n := by
  simp [padded]

theorem intOfStr_intStr (rt : Runtime) (n : ℤ) : rt.intOfStr (intStr n) = some n := by
  cases n with
  | ofNat n =>
    rw [intStr, natStr_eq]
    exact rt.intOfStr_padded 0 n
  | negSucc n =>
    have hdigit : ∀ c ∈ natStr (n + 1), c.isDigit = true := fun _ => isDigit_of_mem_natStr
    have hspace : ∀ c ∈ '-' :: natStr (n + 1), isspace c = false :=
      List.forall_mem_cons.mpr ⟨by decide, fun c hc => isspace_of_isDigit (hdigit c hc)⟩
    have hne : natStr (n + 1) ≠ [] := Nat.toDigits_ne_nil
    have hread := rt.intDigits_digits hdigit 0 false (Or.inl hne)
    have hvalue : Nat.ofDigitChars 10 (natStr (n + 1)) 0 = n + 1 := by
      have := natOfDigits_padded 0 (n + 1)
      rwa [← natStr_eq] at this
    rw [hvalue] at hread
    rw [intStr, Runtime.intOfStr, strip_of_forall hspace]
    simp only [hread, Option.map_some]
    rfl

theorem int_intStr (rt : Runtime) (n : ℤ) : rt.int (.str (intStr n)) = .ok n := by
  rw [Runtime.int, intOfStr_intStr]

/-- The digits of a whole number are read to its end. -/
theorem foldlM_digits {s : Str} (h : ∀ c ∈ s, c.isDigit = true) (hs : s ≠ []) {part : NumberPart}
    (hpart : part = .start ∨ part = .sign ∨ part = .whole) :
    s.foldlM NumberPart.next part = some .whole := by
  induction s generalizing part with
  | nil => exact absurd rfl hs
  | cons c s ih =>
    have hnext : part.next c = some .whole := by
      have hc := h c List.mem_cons_self
      rcases hpart with rfl | rfl | rfl
      all_goals rw [NumberPart.next, if_pos hc]
    rw [List.foldlM_cons, hnext, Option.bind_eq_bind, Option.bind_some]
    by_cases hnil : s = []
    · rw [hnil]
      rfl
    · exact ih (fun d hd => h d (List.mem_cons_of_mem c hd)) hnil (Or.inr (Or.inr rfl))

theorem isNumber_intStr (n : ℤ) : isNumber (intStr n) = true := by
  have hdigits (n : ℕ) : ∀ c ∈ natStr n, c.isDigit = true := fun _ => isDigit_of_mem_natStr
  have hne (n : ℕ) : natStr n ≠ [] := Nat.toDigits_ne_nil
  cases n with
  | ofNat n =>
    rw [isNumber, intStr, foldlM_digits (hdigits n) (hne n) (Or.inl rfl)]
    rfl
  | negSucc n =>
    have hsign : NumberPart.next .start '-' = some .sign := rfl
    rw [isNumber, intStr, List.foldlM_cons, hsign, Option.bind_eq_bind, Option.bind_some,
      foldlM_digits (hdigits _) (hne _) (Or.inr (Or.inl rfl))]
    rfl

/-- The characters of numbers and dates. -/
def isNumberChar (c : Char) : Bool := c.isDigit || c ∈ ['-', '+', '.', 'e', 'E']

theorem isNumberChar_of_next {part part' : NumberPart} {c : Char} (h : part.next c = some part') :
    isNumberChar c = true := by
  by_cases hc : c.isDigit = true
  · simp [isNumberChar, hc]
  · have hsign : c = '-' ∨ c = '+' ∨ c = '.' ∨ c = 'e' ∨ c = 'E' := by
      by_contra hnone
      simp only [not_or] at hnone
      cases part <;> simp [NumberPart.next, hc, hnone] at h
    rcases hsign with rfl | rfl | rfl | rfl | rfl <;> rfl

theorem isNumberChar_of_foldlM {s : Str} {part part' : NumberPart}
    (h : s.foldlM NumberPart.next part = some part') : ∀ c ∈ s, isNumberChar c = true := by
  induction s generalizing part with
  | nil => exact List.forall_mem_nil _
  | cons c s ih =>
    rw [List.foldlM_cons] at h
    obtain ⟨next, hnext, hrest⟩ := Option.bind_eq_some_iff.mp h
    exact List.forall_mem_cons.mpr ⟨isNumberChar_of_next hnext, ih hrest⟩

theorem isNumberChar_of_isNumber {s : Str} (h : isNumber s = true) :
    s ≠ [] ∧ ∀ c ∈ s, isNumberChar c = true := by
  constructor
  · rintro rfl
    cases h
  · unfold isNumber at h
    split at h
    · rename_i hread
      exact isNumberChar_of_foldlM hread
    · cases h

end TechMart.Admin
