import TechMart.Admin.Columns

/-!
# Cells through the page

Which texts an input or a select gives back as they are. Each kind of cell has
its own lemma; `Survives` puts them together.
-/

namespace TechMart.Admin

open Python Web.Attribute Web.Stringify

/-- A text that an input gives back. -/
structure InputKeeps (rs : References) (text : Str) : Prop where
  plain : Plain rs text
  oneLine : '\n' ∉ text

/-- A text that a select gives back: one of the options, or no text. -/
def SelectKeeps (rs : References) (options : List Str) (text : Str) : Prop :=
  (escapeQuotes text ∈ options ∧ Plain rs text) ∨ (escapeQuotes text ∉ options ∧ text = [])

/-- Tags that an input gives back. -/
structure TagsKept (rs : References) (texts : List Str) : Prop where
  tag : ∀ text ∈ texts, IsTag text ∧ '\'' ∉ text ∧ InputKeeps rs text
  notBlank : isBlank (join ", " texts) = false

section
variable {rs : References}

/-! ## Inputs -/

theorem sanitize_text_of_keeps {text : Str} (hline : '\n' ∉ text) (hnormal : Normal text) :
    sanitize .text text = text := by
  rw [sanitize, List.filter_eq_self]
  intro c hc
  have hne : c ≠ '\n' := fun heq => hline (heq ▸ hc)
  simp [hne, (hnormal c hc).1]

/-- An input shows a text as it is exactly if nothing in it has a meaning. -/
theorem input_keeps_iff (text : Str) :
    sanitize .text (attributeValue rs (escapeQuotes text)) = text ↔ InputKeeps rs text := by
  rw [attributeValue_escapeQuotes]
  constructor
  · intro hkept
    have hlength : (sanitize .text (decode rs (normalize text))).length ≤
        (decode rs (normalize text)).length := List.length_filter_le _ _
    rw [hkept] at hlength
    rcases @decode_normalize_cases rs text with hshorter | ⟨hnone, hdecode⟩
    · omega
    · rw [hdecode] at hkept hlength
      have hall : ∀ c ∈ text, c ≠ '\n' ∧ c ≠ '\r' := by
        intro c hc
        rw [← hkept] at hc
        simpa using (List.mem_filter.mp hc).2
      have hsame : normalize text = text := by
        have hsub : (sanitize .text (normalize text)).Sublist (normalize text) :=
          List.filter_sublist
        rw [hkept] at hsub
        exact (hsub.eq_of_length_le (length_normalize_le text)).symm
      refine ⟨⟨hsame ▸ hnone, hsame ▸ normal_normalize text⟩, ?_⟩
      exact fun hc => (hall _ hc).1 rfl
  · rintro ⟨hplain, hline⟩
    rw [decode_normalize_of_plain hplain]
    exact sanitize_text_of_keeps hline hplain.normal

/-- A text of letters that no reference is made with is shown as it is. -/
theorem attributeValue_of_numberChars {text : Str} (h : ∀ c ∈ text, isNumberChar c = true) :
    attributeValue rs (escapeQuotes text) = text := by
  have hne {d : Char} (hd : isNumberChar d = false) : ∀ c ∈ text, c ≠ d := by
    rintro c hc rfl
    rw [h c hc] at hd
    cases hd
  have hplain : Plain rs text := by
    refine ⟨hasReference_of_not_mem fun hamp => hne (by decide) _ hamp rfl, ?_⟩
    exact fun c hc => ⟨hne (by decide) c hc, hne (by decide) c hc⟩
  rw [attributeValue_escapeQuotes, decode_normalize_of_plain hplain]

theorem number_kept {text : Str} (h : isNumber text = true) :
    sanitize .number (attributeValue rs (escapeQuotes text)) = text := by
  rw [attributeValue_of_numberChars (isNumberChar_of_isNumber h).2, sanitize, if_pos h]

theorem isNumberChar_date (rt : Runtime) (y m d : ℕ) :
    ∀ c ∈ rt.str (.date y m d), isNumberChar c = true := by
  have hdigit {w n : ℕ} : ∀ c ∈ padded w n, isNumberChar c = true := by
    intro c hc
    simp [isNumberChar, isDigit_of_mem_padded hc]
  rw [str_date]
  intro c hc
  rcases List.mem_append.mp hc with hc | hc
  · exact hdigit c hc
  · rcases List.mem_cons.mp hc with rfl | hc
    · rfl
    · rcases List.mem_append.mp hc with hc | hc
      · exact hdigit c hc
      · rcases List.mem_cons.mp hc with rfl | hc
        · rfl
        · exact hdigit c hc

theorem date_kept {rt : Runtime} {y m d : ℕ} (h : (Cell.date y m d).HasType rt .date) :
    sanitize .date (attributeValue rs (escapeQuotes (rt.str (.date y m d)))) =
      rt.str (.date y m d) := by
  rw [attributeValue_of_numberChars (isNumberChar_date rt y m d), sanitize, if_pos (isDate_iso h)]

theorem not_isTrimmed_of_isNumberChar {c : Char} (h : isNumberChar c = true) :
    isTrimmed c = false := by
  rw [isNumberChar, Bool.or_eq_true, decide_eq_true_eq] at h
  rcases h with h | h
  · have hrange := Char.isDigit_iff_toNat.mp h
    simp only [Char.reduceToNat] at hrange
    simp only [isTrimmed, Bool.or_eq_false_iff, Bool.and_eq_false_iff, decide_eq_false_iff_not,
      beq_eq_false_iff_ne]
    omega
  · simp only [List.mem_cons, List.not_mem_nil, or_false] at h
    rcases h with rfl | rfl | rfl | rfl | rfl <;> decide

theorem not_isBlank_of_numberChars {text : Str} (hne : text ≠ [])
    (h : ∀ c ∈ text, isNumberChar c = true) : isBlank text = false := by
  obtain ⟨c, rest, rfl⟩ := List.exists_cons_of_ne_nil hne
  rw [isBlank, List.all_cons, not_isTrimmed_of_isNumberChar (h c List.mem_cons_self),
    Bool.false_and]

/-! ## Selects -/

theorem select_value (col : Str) (options : List Str) (val : Str) :
    (getSelectHTML col options val).value rs =
      if val ∈ options then attributeValue rs val else [] := by
  have hmarked : (options.map fun opt => Choice.mk opt (opt == val) opt).filter Choice.sel =
      List.replicate (options.count val) ⟨val, true, val⟩ := by
    induction options with
    | nil => rfl
    | cons opt options ih =>
      rw [List.map_cons, List.filter_cons, ih, List.count_cons]
      by_cases hopt : opt = val
      · simp [hopt, List.replicate_succ]
      · simp [hopt]
  rw [getSelectHTML, Control.value, selectedValue, hmarked]
  by_cases hval : val ∈ options
  · obtain ⟨n, hn⟩ := Nat.exists_eq_succ_of_ne_zero (List.count_pos_iff.mpr hval).ne'
    rw [hn, if_pos hval, List.replicate_succ', List.getLast?_concat]
  · rw [List.count_eq_zero.mpr hval, if_neg hval]
    rfl

/-- A select has the text of its cell exactly if that is among its options. -/
theorem select_keeps_iff (col : Str) (options : List Str) (text : Str) :
    (getSelectHTML col options (escapeQuotes text)).value rs = text ↔ SelectKeeps rs options text := by
  rw [select_value, attributeValue_escapeQuotes, SelectKeeps]
  by_cases hoption : escapeQuotes text ∈ options
  · rw [if_pos hoption, decode_normalize_iff]
    simp only [hoption, true_and, not_true_eq_false, false_and, or_false]
  · rw [if_neg hoption]
    simp only [hoption, false_and, not_false_eq_true, true_and, false_or, eq_comm]

/-! ## Tags and specs -/

theorem hasReference_join {texts : List Str} :
    hasReference rs (join ", " texts) = false ↔ ∀ text ∈ texts, hasReference rs text = false := by
  induction texts with
  | nil => simp [join, hasReference]
  | cons text rest ih =>
    cases rest with
    | nil => simp [join]
    | cons next rest =>
      have hspace (t : Str) : hasReference rs (' ' :: t) = hasReference rs t := rfl
      have hsplit : join ", " (text :: next :: rest) =
          text ++ ',' :: ' ' :: join ", " (next :: rest) := by
        simp [join_cons, List.append_assoc]
      rw [hsplit, hasReference_append (by decide) (by decide) (by decide), hspace,
        Bool.or_eq_false_iff, ih, List.forall_mem_cons (a := text)]

theorem not_mem_joined {d : Char} {texts : List Str} (hsep : d ≠ ',' ∧ d ≠ ' ')
    (h : ∀ text ∈ texts, d ∉ text) : d ∉ join ", " texts := by
  intro hd
  rcases mem_join hd with hd | ⟨text, htext, hd⟩
  · have hmem : d ∈ [',', ' '] := hd
    simp only [List.mem_cons, List.not_mem_nil, or_false] at hmem
    exact hmem.elim hsep.1 hsep.2
  · exact h text htext hd

theorem normal_joined {texts : List Str} (h : ∀ text ∈ texts, Normal text) :
    Normal (join ", " texts) := by
  intro c hc
  have hne {d : Char} (hsep : d ≠ ',' ∧ d ≠ ' ') (hd : ∀ text ∈ texts, d ∉ text) : c ≠ d := by
    rintro rfl
    exact not_mem_joined hsep hd hc
  exact ⟨hne (by decide) fun text htext hd => (h text htext _ hd).1 rfl,
    hne (by decide) fun text htext hd => (h text htext _ hd).2 rfl⟩

/-- The text of tags, as it is written between the quotes, is shown as it is. -/
theorem tags_shown {texts : List Str} (h : ∀ text ∈ texts, '\'' ∉ text ∧ InputKeeps rs text) :
    sanitize .text (attributeValue rs (join ", " texts)) = join ", " texts := by
  have hnormal : Normal (join ", " texts) :=
    normal_joined fun text htext => (h text htext).2.plain.normal
  have hreference : hasReference rs (join ", " texts) = false :=
    hasReference_join.mpr fun text htext => (h text htext).2.plain.noReference
  have hapos : ∀ c ∈ join ", " texts, (c != '\'') = true := by
    intro c hc
    rw [bne_iff_ne]
    rintro rfl
    exact not_mem_joined (by decide) (fun text htext => (h text htext).1) hc
  rw [attributeValue, normalize_of_normal hnormal, List.takeWhile_eq_self_iff.mpr hapos,
    decode_of_not_hasReference hreference]
  exact sanitize_text_of_keeps
    (not_mem_joined (by decide) fun text htext => (h text htext).2.oneLine) hnormal

theorem isspace_nameChar_ascii : ∀ n < 128, isNameChar (Char.ofNat n) = true →
    isspace (Char.ofNat n) = false := by
  decide

theorem isspace_of_isNameChar {c : Char} (h : isNameChar c = true) : isspace c = false := by
  have hrange : c.toNat < 128 := by
    rcases Bool.or_eq_true_iff.mp h with halnum | hhash
    · exact toNat_of_isAlphanum halnum
    · rw [beq_iff_eq.mp hhash]
      decide
  have hascii := isspace_nameChar_ascii c.toNat hrange
  rw [Char.ofNat_toNat] at hascii
  exact hascii h

theorem counts_isInk : Counts isInk where
  amp := by decide
  name c hc := by
    have hrange : isspace c = false := by
      rcases hc with hc | rfl
      · exact isspace_of_isNameChar hc
      · decide
    rw [isInk, hrange, Bool.not_false]
  lineBreak := by decide
  nul := by decide

theorem countP_takeWhile_lt {p : Char → Bool} {c : Char} {text : Str} (hp : p c = true)
    (h : c ∈ text) : (text.takeWhile (· != c)).countP p < text.countP p := by
  induction text with
  | nil => cases h
  | cons d text ih =>
    by_cases hd : d = c
    · rw [List.takeWhile_cons_of_neg (by simp [hd]), hd, List.countP_cons_of_pos hp]
      exact Nat.succ_pos _
    · have htext := ih ((List.mem_cons.mp h).resolve_left (Ne.symm hd))
      rw [List.takeWhile_cons_of_pos (by simpa using hd), List.countP_cons, List.countP_cons]
      exact Nat.add_lt_add_right htext _

/-- If no ink of a text is lost in its input, all of it is read as it is:
whatever is cut off at an apostrophe or decoded takes some away. -/
theorem shown_of_ink {text : Str}
    (h : text.countP isInk ≤ (sanitize .text (attributeValue rs text)).countP isInk) :
    '\'' ∉ normalize text ∧ hasReference rs (normalize text) = false ∧
      sanitize .text (attributeValue rs text) = sanitize .text (normalize text) := by
  have hshown : text.countP isInk ≤ (attributeValue rs text).countP isInk :=
    h.trans List.filter_sublist.countP_le
  have hnormalize := countP_normalize_le counts_isInk text
  have hdecode := @countP_decodeFrom_le rs isInk counts_isInk
    ((normalize text).takeWhile (· != '\'')) 0
  rw [List.drop_zero] at hdecode
  rw [attributeValue, decode] at hshown
  have hapos : '\'' ∉ normalize text := by
    intro hmem
    have hcut := @countP_takeWhile_lt isInk _ _ (by decide) hmem
    omega
  have hwhole : (normalize text).takeWhile (· != '\'') = normalize text := by
    rw [List.takeWhile_eq_self_iff]
    intro c hc
    rw [bne_iff_ne]
    rintro rfl
    exact hapos hc
  have hreference : hasReference rs (normalize text) = false := by
    rw [← Bool.not_eq_true]
    intro htrue
    have hless := @countP_decode_lt rs isInk counts_isInk _ htrue
    rw [decode] at hless
    rw [hwhole] at hshown
    omega
  refine ⟨hapos, hreference, ?_⟩
  rw [attributeValue, hwhole, decode_of_not_hasReference hreference]

/-- An input gives tags back exactly if they are tags in which nothing has a
meaning, an apostrophe included: quotes in tags are not escaped. -/
theorem tags_kept_iff (texts : List Str) :
    (tags (sanitize .text (attributeValue rs (join ", " texts))) = texts ∧
      isBlank (sanitize .text (attributeValue rs (join ", " texts))) = false) ↔
    TagsKept rs texts := by
  constructor
  · rintro ⟨hkept, hblank⟩
    have hne : texts ≠ [] := by
      rintro rfl
      cases hblank
    have hink : (join ", " texts).countP isInk ≤
        (sanitize .text (attributeValue rs (join ", " texts))).countP isInk := by
      have := countP_join_le (hkept.symm ▸ hne)
      rwa [hkept] at this
    obtain ⟨hapos, hreference, hshown⟩ := shown_of_ink hink
    rw [hshown] at hkept hblank
    have htag : ∀ text ∈ texts, IsTag text ∧ text ⊆ sanitize .text (normalize (join ", " texts)) := by
      intro text htext
      rw [← hkept] at htext
      exact isTag_of_mem_tags htext
    have hchar : ∀ text ∈ texts, ∀ c ∈ text, c ≠ '\n' ∧ c ≠ '\'' ∧ c ≠ '\r' ∧ c ≠ '\x00' := by
      intro text htext c hc
      obtain ⟨hmem, hbreak⟩ := List.mem_filter.mp ((htag text htext).2 hc)
      have hline : c ≠ '\n' := by
        rintro rfl
        cases hbreak
      refine ⟨hline, ?_, normal_normalize _ c hmem⟩
      rintro rfl
      exact hapos hmem
    have hnormal : Normal (join ", " texts) :=
      normal_joined fun text htext c hc => (hchar text htext c hc).2.2
    have hline : '\n' ∉ join ", " texts :=
      not_mem_joined (by decide) fun text htext hc => (hchar text htext _ hc).1 rfl
    rw [normalize_of_normal hnormal] at hreference hblank
    rw [sanitize_text_of_keeps hline hnormal] at hblank
    refine ⟨fun text htext => ⟨(htag text htext).1, ?_, ⟨?_, ?_⟩, ?_⟩, hblank⟩
    · exact fun hc => (hchar text htext _ hc).2.1 rfl
    · exact hasReference_join.mp hreference text htext
    · exact fun c hc => (hchar text htext c hc).2.2
    · exact fun hc => (hchar text htext _ hc).1 rfl
  · rintro ⟨htags, hblank⟩
    have hshown := @tags_shown rs _ fun text htext => (htags text htext).2
    rw [hshown, tags_join fun text htext => (htags text htext).1]
    exact ⟨rfl, hblank⟩

def specsOf (rt : Runtime) (text : Str) : Value :=
  match Json.loads rt text with
  | .ok v => v
  | .error _ => .dict []

theorem not_mem_stringify {entries : Dict Str} {d : Char} (hd : d.toNat < 32) :
    d ∉ stringify entries :=
  fun h => absurd (stringify_ge h) (Nat.not_le.mpr hd)

theorem normal_stringify (entries : Dict Str) : Normal (stringify entries) := by
  intro c hc
  constructor
  · rintro rfl
    exact not_mem_stringify (by decide) hc
  · rintro rfl
    exact not_mem_stringify (by decide) hc

theorem specs_shown {entries : Dict Str} (h : hasReference rs (stringify entries) = false) :
    sanitize .text (attributeValue rs (escapeQuotes (stringify entries))) = stringify entries :=
  (input_keeps_iff _).mpr ⟨⟨h, normal_stringify entries⟩, not_mem_stringify (by decide)⟩

/-- An input gives an object back, in whatever order, exactly if there is no
reference in its text: a decoded text is too short for the object. -/
theorem specs_kept_iff (rt : Runtime) {entries : Dict Str} (h : (Dict.keys entries).Nodup) :
    (∃ kvs, specsOf rt (sanitize .text (attributeValue rs (escapeQuotes (stringify entries)))) =
      .dict kvs ∧ kvs.Perm (entriesValue entries)) ↔ hasReference rs (stringify entries) = false := by
  constructor
  · rintro ⟨kvs, hspecs, hsame⟩
    rw [attributeValue_escapeQuotes] at hspecs
    cases hloads : Json.loads rt (sanitize .text (decode rs (normalize (stringify entries)))) with
    | error e =>
      rw [specsOf, hloads] at hspecs
      cases hspecs
      have hnil : entries = [] := by simpa [entriesValue] using hsame.symm.eq_nil
      rw [hnil]
      rfl
    | ok v =>
      rw [specsOf, hloads] at hspecs
      subst hspecs
      have hle := length_stringify_le hloads hsame
      have hfilter : (sanitize .text (decode rs (normalize (stringify entries)))).length ≤
          (decode rs (normalize (stringify entries))).length := List.length_filter_le _ _
      rcases @decode_normalize_cases rs (stringify entries) with hshorter | ⟨hnone, -⟩
      · omega
      · rwa [normalize_of_normal (normal_stringify entries)] at hnone
  · intro hnone
    rw [specs_shown hnone, specsOf, loads_stringify rt h]
    exact ⟨_, rfl, List.Perm.refl _⟩

end

/-! ## Columns -/

/-- The same value: of maps, the same entries. ClickHouse stores a map in the
order of its entries and compares by it; that order is not looked at. -/
def SameValue (v w : Value) : Prop :=
  v = w ∨ ∃ kvs kvs', v = .dict kvs ∧ w = .dict kvs' ∧ kvs.Perm kvs'

/-- What a save makes of the text of a column. -/
def ColumnType.read (rt : Runtime) : ColumnType → Str → Except Exn Value
  | .string, text | .floatArray, text => .ok (.str text)
  | .stringArray, text => .ok (tagsOf text)
  | .date, text => .ok ((strptime rt text).getD (.str text))
  | .float32, text => (rt.float ((Value.str text).orElse (.float (.finite 0)))).map .float
  | .int32, text | .uint8, text => (rt.int ((Value.str text).orElse (.int 0))).map .int
  | .stringMap, text => .ok (specsOf rt text)

/-- The element of a column of the type. -/
def ColumnType.element (ty : ColumnType) (s : Session) (t : AdminTable) (col val : Str) : Control :=
  match ty with
  | .date => .input .date col val
  | .float32 | .int32 => .input .number col val
  | .uint8 => getSelectHTML col ["1", "0"] val
  | .string => match selectOptions s t col with
    | some options => getSelectHTML col options val
    | none => .input .text col val
  | .stringArray | .stringMap | .floatArray => .input .text col val

/-- The id as a save takes it for one. -/
def IsId (text : Str) : Prop := strip text ≠ [] ∧ strip text ≠ ("None" : Str)

/-- A cell that the page gives back. -/
def Survives (rs : References) (s : Session) (t : AdminTable) (col : Str) : Cell → Prop
  | .string text =>
    (match selectOptions s t col with
      | some options => SelectKeeps rs options text
      | none => InputKeeps rs text) ∧
    (mayBeEmpty col = false → isBlank text = false) ∧ (col = t.idCol → IsId text)
  | .strings texts => TagsKept rs texts
  | .float (.finite _) => True
  | .float _ => False
  | .int n => selectOptions s t col = none ∨ n = 0 ∨ n = 1
  | .map entries => hasReference rs (stringify (ownOrder entries)) = false
  | .date .. | .vector _ => True

section
variable {rt : Runtime} {js : JavaScript rt} {rs : References} {s : Session} {t : AdminTable}

theorem getInputElement_eq {col : Str} {ty : ColumnType} (h : (col, ty) ∈ t.schema)
    (val : Option JsValue) :
    getInputElement js s t col val = ty.element s t col (cellText js val) := by
  have hall : ∀ p ∈ t.schema,
      getInputElement js s t p.1 val = p.2.element s t p.1 (cellText js val) := by
    cases t
    all_goals
      repeat refine List.forall_mem_cons.mpr ⟨rfl, ?_⟩
      exact List.forall_mem_nil _
  exact hall _ h

/-- Only a text column has ids. -/
theorem type_of_idCol {ty : ColumnType} (h : (t.idCol, ty) ∈ t.schema) : ty = .string := by
  have hall : ∀ p ∈ t.schema, p.1 = t.idCol → p.2 = .string := by
    cases t <;> decide
  exact hall _ h rfl

theorem selectOptions_int32 {col : Str} (h : (col, .int32) ∈ t.schema) :
    selectOptions s t col = none := by
  have hall : ∀ p ∈ t.schema, p.2 = .int32 →
      t = .productCatalog ∧ (p.1 = "stock_qty" ∨ p.1 = "warranty_months") := by
    cases t <;> decide
  obtain ⟨rfl, hcol | hcol⟩ := hall _ h rfl
  · rw [show col = ("stock_qty" : Str) from hcol]
    rfl
  · rw [show col = ("warranty_months" : Str) from hcol]
    rfl

theorem selectOptions_uint8 {col : Str} (h : (col, .uint8) ∈ t.schema) :
    ∃ options, selectOptions s t col = some options := by
  have hall : ∀ p ∈ t.schema, p.2 = .uint8 → t = .productCatalog ∧ p.1 = "in_stock" := by
    cases t <;> decide
  obtain ⟨rfl, hcol⟩ := hall _ h rfl
  rw [show col = ("in_stock" : Str) from hcol]
  exact ⟨_, rfl⟩

/-! ## What is shown -/

theorem ofValue_strings (texts : List Str) :
    JsValue.ofValue rt (Cell.strings texts).value = some (.array texts) := by
  have htexts : (texts.map Value.str).mapM textOf? = some texts := by
    induction texts with
    | nil => rfl
    | cons text texts ih => simp [textOf?, ih]
  rw [Cell.value, JsValue.ofValue, htexts]
  rfl

theorem ofValue_map (entries : Dict Str) :
    JsValue.ofValue rt (Cell.map entries).value = some (.object (ownOrder entries)) := by
  have hentries : (entriesValue entries).mapM (fun kv =>
      (textOf? kv.2).map fun text => (kv.1, text)) = some entries := by
    induction entries with
    | nil => rfl
    | cons kv entries ih =>
      have hcons : entriesValue (kv :: entries) = (kv.1, .str kv.2) :: entriesValue entries := rfl
      rw [hcons, List.mapM_cons, ih]
      rfl
  rw [Cell.value, JsValue.ofValue, hentries]
  rfl

/-- The text that the page has of a cell. -/
def shownText (js : JavaScript rt) (rs : References) (s : Session) (t : AdminTable) (col : Str)
    (cell : Cell) : Str :=
  (getInputElement js s t col (JsValue.ofValue rt cell.value)).value rs

section
variable {col : Str}

theorem shownText_string (h : (col, .string) ∈ t.schema) (text : Str) :
    shownText js rs s t col (.string text) = text ↔
      match selectOptions s t col with
      | some options => SelectKeeps rs options text
      | none => InputKeeps rs text := by
  rw [shownText, getInputElement_eq h, ColumnType.element]
  simp only [Cell.value, JsValue.ofValue, cellText]
  split
  · exact select_keeps_iff col _ text
  · exact input_keeps_iff text

theorem shownText_strings (h : (col, .stringArray) ∈ t.schema) (texts : List Str) :
    shownText js rs s t col (.strings texts) =
      sanitize .text (attributeValue rs (join ", " texts)) := by
  rw [shownText, getInputElement_eq h, ColumnType.element, ofValue_strings]
  rfl

theorem shownText_map (h : (col, .stringMap) ∈ t.schema) (entries : Dict Str) :
    shownText js rs s t col (.map entries) =
      sanitize .text (attributeValue rs (escapeQuotes (stringify (ownOrder entries)))) := by
  rw [shownText, getInputElement_eq h, ColumnType.element, ofValue_map]
  rfl

theorem shownText_date (h : (col, .date) ∈ t.schema) {y m d : ℕ}
    (hdate : (Cell.date y m d).HasType rt .date) :
    shownText js rs s t col (.date y m d) = rt.str (.date y m d) := by
  rw [shownText, getInputElement_eq h]
  exact @date_kept rs rt y m d hdate

theorem shownText_float (h : (col, .float32) ∈ t.schema) {q : ℚ} (hq : IsDouble rt q) :
    shownText js rs s t col (.float (.finite q)) = js.numberText q := by
  rw [shownText, getInputElement_eq h, ColumnType.element]
  exact number_kept (js.isNumber_numberText q hq)

theorem shownText_int32 (h : (col, .int32) ∈ t.schema) {n : ℤ} (hn : n.natAbs ≤ 2 ^ 53) :
    shownText js rs s t col (.int n) = intStr n := by
  have htext : js.numberText n = intStr n := js.numberText_int n hn
  rw [shownText, getInputElement_eq h, ColumnType.element]
  simp only [Cell.value, JsValue.ofValue, cellText, htext]
  exact number_kept (isNumber_intStr n)

theorem orElse_str {text : Str} (h : text ≠ []) (v : Value) : (Value.str text).orElse v = .str text := by
  rw [Value.orElse, Value.truthy, if_pos (by simpa using h)]

theorem intStr_injective {m n : ℤ} (h : intStr m = intStr n) : m = n := by
  have hread := intOfStr_intStr Runtime.ascii m
  rw [h, intOfStr_intStr] at hread
  exact (Option.some.inj hread).symm

theorem shownText_uint8 (h : (col, .uint8) ∈ t.schema) {n : ℤ} (hn : n.natAbs ≤ 2 ^ 53) :
    shownText js rs s t col (.int n) = if n = 0 ∨ n = 1 then intStr n else [] := by
  have htext : js.numberText n = intStr n := js.numberText_int n hn
  have hchars := (isNumberChar_of_isNumber (isNumber_intStr n)).2
  have hnot {c : Char} (hc : isNumberChar c = false) : c ∉ intStr n := by
    intro hmem
    rw [hchars c hmem] at hc
    cases hc
  have hescape : escapeQuotes (intStr n) = intStr n :=
    escapeQuotes_of_not_mem (hnot (by decide)) (hnot (by decide))
  have hoption : intStr n ∈ ([['1'], ['0']] : List Str) ↔ n = 0 ∨ n = 1 := by
    constructor
    · intro hmem
      simp only [List.mem_cons, List.not_mem_nil, or_false] at hmem
      exact hmem.symm.imp intStr_injective intStr_injective
    · rintro (rfl | rfl) <;> decide
  rw [shownText, getInputElement_eq h, ColumnType.element]
  simp only [Cell.value, JsValue.ofValue, cellText, htext, select_value]
  rw [attributeValue_of_numberChars hchars, hescape]
  exact if_congr hoption rfl rfl

/-! ## What survives -/

/-- What the page has to say of a cell for a save to keep it: a text where one
is required, an id for one, and a text that is read as the cell. -/
structure Shows (rt : Runtime) (t : AdminTable) (col : Str) (ty : ColumnType) (cell : Cell)
    (text : Str) : Prop where
  filled : (mayBeEmpty col || !isBlank text) = true
  id : col = t.idCol → IsId text
  read : ∃ v, ty.read rt text = .ok v ∧ SameValue cell.value v

theorem filled_of_not_blank {text : Str} (h : isBlank text = false) :
    (mayBeEmpty col || !isBlank text) = true := by
  rw [h, Bool.not_false, Bool.or_true]

theorem isBlank_of_isNumber {text : Str} (h : isNumber text = true) : isBlank text = false := by
  obtain ⟨hne, hchars⟩ := isNumberChar_of_isNumber h
  exact not_isBlank_of_numberChars hne hchars

theorem isId_of_type {ty : ColumnType} (h : (col, ty) ∈ t.schema) (hty : ty ≠ .string)
    (text : Str) : col = t.idCol → IsId text := by
  rintro rfl
  exact absurd (type_of_idCol h) hty

theorem natAbs_le {n : ℤ} (h : -2 ^ 31 ≤ n ∧ n < 2 ^ 31) : n.natAbs ≤ 2 ^ 53 := by
  omega

theorem shows_string (h : (col, .string) ∈ t.schema) {text : Str}
    (hsurvives : Survives rs s t col (.string text)) :
    Shows rt t col .string (.string text) (shownText js rs s t col (.string text)) := by
  obtain ⟨hkept, hrequired, hid⟩ := hsurvives
  rw [(shownText_string h text).mpr hkept]
  refine ⟨?_, hid, .str text, rfl, Or.inl rfl⟩
  cases hempty : mayBeEmpty col with
  | true => rfl
  | false => rw [hrequired hempty, Bool.not_false, Bool.or_true]

theorem shows_strings (h : (col, .stringArray) ∈ t.schema) {texts : List Str}
    (hsurvives : Survives rs s t col (.strings texts)) :
    Shows rt t col .stringArray (.strings texts) (shownText js rs s t col (.strings texts)) := by
  obtain ⟨hkept, hblank⟩ := (tags_kept_iff texts).mpr hsurvives
  rw [shownText_strings h]
  refine ⟨filled_of_not_blank hblank, isId_of_type h nofun _, tagsOf _, rfl, Or.inl ?_⟩
  rw [tagsOf_eq, hkept, Cell.value]

theorem shows_date (h : (col, .date) ∈ t.schema) {y m d : ℕ}
    (hdate : (Cell.date y m d).HasType rt .date) :
    Shows rt t col .date (.date y m d) (shownText js rs s t col (.date y m d)) := by
  have hne : rt.str (.date y m d) ≠ [] := by
    rw [str_date]
    simp
  have hread : ColumnType.read rt .date (rt.str (.date y m d)) = .ok (.date y m d) := by
    rw [ColumnType.read, strptime_iso hdate, Option.getD_some]
  rw [shownText_date h hdate]
  exact ⟨filled_of_not_blank (not_isBlank_of_numberChars hne (isNumberChar_date rt y m d)),
    isId_of_type h nofun _, _, hread, Or.inl rfl⟩

theorem shows_float (h : (col, .float32) ∈ t.schema) {q : ℚ} (hq : IsDouble rt q) :
    Shows rt t col .float32 (.float (.finite q)) (shownText js rs s t col (.float (.finite q))) := by
  have htext := js.isNumber_numberText q hq
  have hread : ColumnType.read rt .float32 (js.numberText q) = .ok (.float (.finite q)) := by
    rw [ColumnType.read, orElse_str (isNumberChar_of_isNumber htext).1, Runtime.float,
      js.floatOfStr_numberText q hq]
    rfl
  rw [shownText_float h hq]
  exact ⟨filled_of_not_blank (isBlank_of_isNumber htext), isId_of_type h nofun _, _, hread,
    Or.inl rfl⟩

theorem shows_intStr {ty : ColumnType} (h : (col, ty) ∈ t.schema) (hty : ty = .int32 ∨ ty = .uint8)
    (n : ℤ) : Shows rt t col ty (.int n) (intStr n) := by
  have htext := isNumber_intStr n
  have horElse := orElse_str (isNumberChar_of_isNumber htext).1 (.int 0)
  have hstring : ty ≠ .string := by
    rintro rfl
    exact hty.elim nofun nofun
  have hread : ty.read rt (intStr n) = .ok (.int n) := by
    rcases hty with rfl | rfl
    all_goals
      rw [ColumnType.read, horElse, int_intStr]
      rfl
  exact ⟨filled_of_not_blank (isBlank_of_isNumber htext), isId_of_type h hstring _, _, hread,
    Or.inl rfl⟩

theorem shows_map (h : (col, .stringMap) ∈ t.schema) {entries : Dict Str}
    (hkeys : (Dict.keys entries).Nodup) (hsurvives : Survives rs s t col (.map entries)) :
    Shows rt t col .stringMap (.map entries) (shownText js rs s t col (.map entries)) := by
  have hperm := ownOrder_perm entries
  have hnodup : (Dict.keys (ownOrder entries)).Nodup := ((hperm.map Prod.fst).nodup_iff).mpr hkeys
  obtain ⟨kvs, hspecs, hsame⟩ := (specs_kept_iff rt hnodup).mpr hsurvives
  rw [shownText_map h]
  refine ⟨?_, isId_of_type h nofun _, _, rfl, Or.inr ⟨_, kvs, rfl, hspecs, ?_⟩⟩
  · rw [specs_shown hsurvives]
    exact filled_of_not_blank rfl
  · exact (hsame.trans (hperm.map _)).symm

theorem shows_of_survives {ty : ColumnType} {cell : Cell} (h : (col, ty) ∈ t.schema)
    (hty : ty ≠ .floatArray) (htype : cell.HasType rt ty) (hsurvives : Survives rs s t col cell) :
    Shows rt t col ty cell (shownText js rs s t col cell) := by
  cases ty with
  | floatArray => exact absurd rfl hty
  | string =>
    cases cell with
    | string text => exact shows_string h hsurvives
    | _ => exact htype.elim
  | stringArray =>
    cases cell with
    | strings texts => exact shows_strings h hsurvives
    | _ => exact htype.elim
  | date =>
    cases cell with
    | date y m d => exact shows_date h htype
    | _ => exact htype.elim
  | float32 =>
    cases cell with
    | float x =>
      cases x with
      | finite q => exact shows_float h (htype q rfl)
      | _ => exact hsurvives.elim
    | _ => exact htype.elim
  | int32 =>
    cases cell with
    | int n =>
      rw [shownText_int32 h (natAbs_le htype)]
      exact shows_intStr h (Or.inl rfl) n
    | _ => exact htype.elim
  | uint8 =>
    cases cell with
    | int n =>
      obtain ⟨options, hoptions⟩ := @selectOptions_uint8 s _ _ h
      have hflag : n = 0 ∨ n = 1 := hsurvives.resolve_left (by rw [hoptions]; nofun)
      have hn : n.natAbs ≤ 2 ^ 53 := by omega
      rw [shownText_uint8 h hn, if_pos hflag]
      exact shows_intStr h (Or.inr rfl) n
    | _ => exact htype.elim
  | stringMap =>
    cases cell with
    | map entries => exact shows_map h htype hsurvives
    | _ => exact htype.elim

/-- The types of the columns that store what they are given, or reject it. -/
def ColumnType.exact : ColumnType → Bool
  | .string | .stringArray | .stringMap => true
  | _ => false

/-- The columns that need not be filled are texts. -/
theorem type_of_mayBeEmpty {ty : ColumnType} (h : (col, ty) ∈ t.schema)
    (hempty : mayBeEmpty col = true) : ty = .string := by
  have hall : ∀ p ∈ t.schema, mayBeEmpty p.1 = true → p.2 = .string := by
    cases t <;> decide
  exact hall _ h hempty

theorem not_blank_of_filled {ty : ColumnType} (h : (col, ty) ∈ t.schema) (hty : ty ≠ .string)
    {text : Str} (hfilled : (mayBeEmpty col || !isBlank text) = true) : isBlank text = false := by
  cases hempty : mayBeEmpty col with
  | true => exact absurd (type_of_mayBeEmpty h hempty) hty
  | false => simpa [hempty] using hfilled

/-- A cell that the page loads, reports no text of as missing, and gives back
as it is where its column stores just that: it survives. -/
theorem survives_of_shown {ty : ColumnType} {cell : Cell} (h : (col, ty) ∈ t.schema)
    (htype : cell.HasType rt ty) (hloaded : (JsValue.ofValue rt cell.value).isSome = true ∨
      ty = .floatArray)
    (hfilled : (mayBeEmpty col || !isBlank (shownText js rs s t col cell)) = true)
    (hid : col = t.idCol → IsId (shownText js rs s t col cell))
    (hread : ty.exact = true → ∃ v, ty.read rt (shownText js rs s t col cell) = .ok v ∧
      SameValue cell.value v) : Survives rs s t col cell := by
  cases ty with
  | string =>
    cases cell with
    | string text =>
      obtain ⟨v, hv, hsame⟩ := hread rfl
      cases hv
      have htext : shownText js rs s t col (.string text) = text := by
        rcases hsame with hsame | ⟨kvs, kvs', hdict, -⟩
        · exact (Value.str.inj hsame).symm
        · cases hdict
      rw [htext] at hfilled hid
      refine ⟨(shownText_string h text).mp htext, fun hempty => ?_, hid⟩
      simpa [hempty] using hfilled
    | _ => exact htype.elim
  | stringArray =>
    cases cell with
    | strings texts =>
      obtain ⟨v, hv, hsame⟩ := hread rfl
      cases hv
      have hblank := not_blank_of_filled h nofun hfilled
      rw [shownText_strings h] at hsame hblank
      refine (tags_kept_iff texts).mp ⟨?_, hblank⟩
      rcases hsame with hsame | ⟨kvs, kvs', hdict, -⟩
      · rw [tagsOf_eq] at hsame
        exact (List.map_injective_iff.mpr (fun _ _ => Value.str.inj) (Value.list.inj hsame)).symm
      · cases hdict
    | _ => exact htype.elim
  | stringMap =>
    cases cell with
    | map entries =>
      obtain ⟨v, hv, hsame⟩ := hread rfl
      cases hv
      have hperm := ownOrder_perm entries
      have hnodup : (Dict.keys (ownOrder entries)).Nodup :=
        ((hperm.map Prod.fst).nodup_iff).mpr htype
      rw [shownText_map h] at hsame
      refine (specs_kept_iff rt hnodup).mp ?_
      rcases hsame with hsame | ⟨kvs, kvs', hdict, hspecs, hkvs⟩
      · exact ⟨_, hsame.symm, (hperm.map _).symm⟩
      · cases hdict
        exact ⟨kvs', hspecs, hkvs.symm.trans (hperm.map _).symm⟩
    | _ => exact htype.elim
  | float32 =>
    cases cell with
    | float x =>
      cases x with
      | finite q => trivial
      | _ => exact hloaded.elim nofun nofun
    | _ => exact htype.elim
  | int32 =>
    cases cell with
    | int n => exact Or.inl (selectOptions_int32 h)
    | _ => exact htype.elim
  | uint8 =>
    cases cell with
    | int n =>
      have hblank := not_blank_of_filled h nofun hfilled
      have hn : n.natAbs ≤ 2 ^ 53 := by
        have hrange : 0 ≤ n ∧ n < 256 := htype
        omega
      rw [shownText_uint8 h hn] at hblank
      by_cases hflag : n = 0 ∨ n = 1
      · exact Or.inr hflag
      · rw [if_neg hflag] at hblank
        cases hblank
    | _ => exact htype.elim
  | date =>
    cases cell with
    | date y m d => trivial
    | _ => exact htype.elim
  | floatArray =>
    cases cell with
    | vector v => trivial
    | _ => exact htype.elim

end

end

end TechMart.Admin
