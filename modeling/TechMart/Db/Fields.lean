import TechMart.Db.Ingest

/-!
# Fields that are lost

An admin save and the initial load insert their rows with the columns of the
first one. `fields_kept_iff` says when no row loses a field by that.
-/

namespace TechMart.Db

open Python Sql Admin

/-! ## The statement -/

/-- The stored rows are the inserted ones, and each holds what its row has in
every column of the table, as the column writes it. -/
structure FieldsKept (ch : ClickHouse) (columns : List Str) (rows : List (Dict Value))
    (stored : List Row) : Prop where
  length : stored.length = rows.length
  field : ∀ (i : ℕ) r row, rows[i]? = some r → stored[i]? = some row →
    ∀ c ∈ columns, ∀ v, r.get? c = some v →
      ∃ w, Dict.get? (columns.zip row) c = some w ∧ ch.write c v = some w

/-- Where a submitted row carries a column, the first one does too, or the
row's value there is what the column holds by default. -/
def FirstCovers (ch : ClickHouse) (columns : List Str) (Carries : Dict Value → Str → Prop)
    (value : Dict Value → Str → Option Value) (submitted : List (Dict Value)) : Prop :=
  ∀ r ∈ submitted, ∀ c ∈ columns, Carries r c →
    (∃ first, submitted.head? = some first ∧ Carries first c) ∨
      ∃ v, value r c = some v ∧ ch.write c v = some (ch.default c)

end TechMart.Db

namespace TechMart.Admin

open Python

/-- The columns a save gives to every row. -/
def AdminTable.given : AdminTable → List Str
  | .productCatalog =>
    ["product_id", "price_inr", "stock_qty", "warranty_months", "rating", "in_stock"]
  | .companyFaqs => ["faq_id", "tags"]
  | .companyTos => ["doc_id", "tags"]

/-- The column of the embeddings, and the one they are of. -/
def AdminTable.embedded : AdminTable → Option (Str × Str)
  | .productCatalog => some ("embedding", "name")
  | .companyFaqs => some ("question_embedding", "question")
  | .companyTos => none

/-- What a submitted row carries once it is saved: its own keys, those given
to every row, and an embedding of its text. -/
def AdminTable.Carries (t : AdminTable) (r : Dict Value) (c : Str) : Prop :=
  c ∈ r.keys ∨ c ∈ t.given ∨ ∃ text, t.embedded = some (c, text) ∧ text ∈ r.keys

theorem AdminTable.Carries.mono {t : AdminTable} {r first : Dict Value} {c : Str}
    (hc : t.Carries r c) (h : ∀ k ∈ r.keys, k ∈ first.keys) : t.Carries first c := by
  rcases hc with hkey | hgiven | ⟨text, htarget, htext⟩
  · exact Or.inl (h c hkey)
  · exact Or.inr (Or.inl hgiven)
  · exact Or.inr (Or.inr ⟨text, htarget, h text htext⟩)

/-- A column of a row whose text is to be embedded. -/
def embeddedCell (encode : Value → Except Exn Value) (column target : Str) (r : Dict Value)
    (c : Str) : Option Value :=
  match r.get? column with
  | some text => if c = target then (encode text).toOption else r.get? c
  | none => r.get? c

/-- What a submitted row has to store in a column that is not given to every row. -/
def AdminTable.value (t : AdminTable) (rt : Runtime) (encode : Value → Except Exn Value)
    (r : Dict Value) (c : Str) : Option Value :=
  match t with
  | .productCatalog => embeddedCell encode "name" "embedding" (coerceSpecs rt r) c
  | .companyFaqs => embeddedCell encode "question" "question_embedding" r c
  | .companyTos => (coerceDate rt "last_updated" (coerceDate rt "effective_date" r)).get? c

end TechMart.Admin

namespace TechMart.Db

open Python Sql Admin

/-- The columns every loaded record of a file has. -/
def Source.given : Source → List Str
  | .customers => ["is_active"]
  | .orderHistory => ["items"]
  | .companyFaqs => ["question_embedding"]
  | .companyTos => ["effective_date", "last_updated"]
  | .productCatalog => ["product_id", "page_content", "name", "brand", "category", "price_inr",
    "stock_qty", "warranty_months", "rating", "in_stock", "price_tier", "specs", "embedding"]

/-- What a record of a file carries once it is loaded. -/
def Source.Carries (s : Source) (r : Dict Value) (c : Str) : Prop :=
  match s with
  | .productCatalog => c ∈ Source.productCatalog.given
  | s => c ∈ r.keys ∨ c ∈ s.given

/-! ## One insert -/

section
variable {ch : ClickHouse} {columns : List Str}

theorem get?_zip_of_not_mem {α : Type} {cols : List Str} {c : Str} (h : c ∉ cols) (vals : List α) :
    Dict.get? (cols.zip vals) c = none := by
  rw [← Option.not_isSome_iff_eq_none, Dict.get?_isSome_iff, Dict.keys]
  intro hc
  obtain ⟨kv, hkv, rfl⟩ := List.mem_map.mp hc
  exact h (List.of_mem_zip hkv).1

/-- A stored row holds the inserted value, or the column's default. -/
theorem cell_of_storeRow {cols : List Str} {r : Dict Value} {row : Row}
    (h : storeRow ch columns cols (cols.map fun c => r.getD c .none) = some row) {c : Str}
    (hc : c ∈ columns) :
    Dict.get? (columns.zip row) c =
      if c ∈ cols then ch.write c (r.getD c .none) else some (ch.default c) := by
  obtain ⟨w, hw, hcell⟩ := Dict.get?_zip_mapM h hc
  rw [hcell]
  by_cases hcol : c ∈ cols
  · simp only [Dict.get?_zip_map _ hcol] at hw
    rw [if_pos hcol, hw]
  · simp only [get?_zip_of_not_mem hcol] at hw
    rw [if_neg hcol, hw]

theorem rows_of_storeRows {rows : List (Dict Value)} {stored : List Row}
    (h : storeRows ch columns (insertColumns rows) (insertData rows) = some stored) :
    stored.length = rows.length ∧ ∀ (i : ℕ) r row, rows[i]? = some r → stored[i]? = some row →
      storeRow ch columns (insertColumns rows)
        ((insertColumns rows).map fun c => r.getD c .none) = some row := by
  obtain ⟨hlength, hget⟩ := List.forall₂_iff_get.mp (forall₂_of_mapM h)
  rw [insertData, List.length_map] at hlength
  refine ⟨hlength.symm, ?_⟩
  intro i r row hr hrow
  obtain ⟨hi, rfl⟩ := List.getElem?_eq_some_iff.mp hr
  obtain ⟨hi', rfl⟩ := List.getElem?_eq_some_iff.mp hrow
  have hstored := hget i (by rwa [insertData, List.length_map]) hi'
  simpa [insertData] using hstored

/-- An insert keeps every field exactly if the first row has each of its
columns, or nothing is there to lose. -/
theorem fieldsKept_of_insert {rows : List (Dict Value)} {stored : List Row}
    (h : storeRows ch columns (insertColumns rows) (insertData rows) = some stored) :
    FieldsKept ch columns rows stored ↔
      ∀ r ∈ rows, ∀ c ∈ columns, ∀ v, r.get? c = some v →
        c ∈ insertColumns rows ∨ ch.write c v = some (ch.default c) := by
  obtain ⟨hlength, hrows⟩ := rows_of_storeRows h
  have hcell {i : ℕ} {r : Dict Value} {row : Row} (hr : rows[i]? = some r)
      (hrow : stored[i]? = some row) {c : Str} (hc : c ∈ columns) {v : Value}
      (hv : r.get? c = some v) : Dict.get? (columns.zip row) c =
        if c ∈ insertColumns rows then ch.write c v else some (ch.default c) := by
    rw [cell_of_storeRow (hrows i r row hr hrow) hc, Dict.getD, hv, Option.getD_some]
  constructor
  · intro hkept r hr c hc v hv
    obtain ⟨i, hi, rfl⟩ := List.getElem_of_mem hr
    have hi' : i < stored.length := hlength ▸ hi
    obtain ⟨w, hw, hwrite⟩ := hkept.field i _ _ (List.getElem?_eq_getElem hi)
      (List.getElem?_eq_getElem hi') c hc v hv
    rw [hcell (List.getElem?_eq_getElem hi) (List.getElem?_eq_getElem hi') hc hv] at hw
    by_cases hcol : c ∈ insertColumns rows
    · exact Or.inl hcol
    · rw [if_neg hcol] at hw
      exact Or.inr (hwrite.trans hw.symm)
  · intro hcovers
    refine ⟨hlength, ?_⟩
    intro i r row hr hrow c hc v hv
    have hstored := hcell hr hrow hc hv
    by_cases hcol : c ∈ insertColumns rows
    · have hrowStored := hrows i r row hr hrow
      obtain ⟨w, hw, hget⟩ := Dict.get?_zip_mapM hrowStored hc
      rw [if_pos hcol] at hstored
      exact ⟨w, hget, hstored.symm.trans hget⟩
    · rw [if_neg hcol] at hstored
      have hdefault := (hcovers r (List.mem_of_getElem? hr) c hc v hv).resolve_left hcol
      exact ⟨ch.default c, hstored, hdefault⟩

/-- A row before and after its preparation: what it carries, and its value in
each column that is not given to every row. -/
structure Prepares (Carries : Dict Value → Str → Prop) (value : Dict Value → Str → Option Value)
    (given : List Str) (r r' : Dict Value) : Prop where
  keys : ∀ c, c ∈ r'.keys ↔ Carries r c
  get? : ∀ c, Carries r c → c ∉ given → r'.get? c = value r c

/-- The same in terms of the rows the inserted ones were made of. -/
theorem fieldsKept_iff {Carries : Dict Value → Str → Prop}
    {value : Dict Value → Str → Option Value} {given : List Str}
    (hgiven : ∀ r, ∀ c ∈ given, Carries r c) {submitted rows : List (Dict Value)}
    {stored : List Row} (hrows : List.Forall₂ (Prepares Carries value given) submitted rows)
    (h : storeRows ch columns (insertColumns rows) (insertData rows) = some stored) :
    FieldsKept ch columns rows stored ↔ FirstCovers ch columns Carries value submitted := by
  have hfirst (c : Str) :
      c ∈ insertColumns rows ↔ ∃ first, submitted.head? = some first ∧ Carries first c := by
    cases hrows with
    | nil => simp [insertColumns]
    | cons hr _ => simp [insertColumns, hr.keys]
  rw [fieldsKept_of_insert h]
  simp only [hfirst]
  -- a column given to every row is among those of the first one
  have hnot {r : Dict Value} (hr : r ∈ submitted) {c : Str}
      (hc : ¬ ∃ first, submitted.head? = some first ∧ Carries first c) : c ∉ given := by
    intro hmem
    obtain ⟨first, rest, rfl⟩ := List.exists_cons_of_ne_nil (List.ne_nil_of_mem hr)
    exact hc ⟨first, rfl, hgiven first c hmem⟩
  constructor
  · intro hkept r hr c hc hcarried
    have hback : List.Forall₂ (fun r' r => Prepares Carries value given r r') rows submitted :=
      hrows.flip
    by_cases hcovered : ∃ first, submitted.head? = some first ∧ Carries first c
    · exact Or.inl hcovered
    · obtain ⟨r', hr', hprepares⟩ := mem_of_forall₂ hback hr
      obtain ⟨v, hv⟩ := Option.isSome_iff_exists.mp
        ((Dict.get?_isSome_iff r' c).mpr ((hprepares.keys c).mpr hcarried))
      have hdefault := (hkept r' hr' c hc v hv).resolve_left hcovered
      rw [hprepares.get? c hcarried (hnot hr hcovered)] at hv
      exact Or.inr ⟨v, hv, hdefault⟩
  · intro hcovers r' hr' c hc v hv
    by_cases hcovered : ∃ first, submitted.head? = some first ∧ Carries first c
    · exact Or.inl hcovered
    · obtain ⟨r, hr, hprepares⟩ := mem_of_forall₂ hrows hr'
      have hcarried := (hprepares.keys c).mp
        ((Dict.get?_isSome_iff r' c).mp (Option.isSome_iff_exists.mpr ⟨v, hv⟩))
      obtain ⟨w, hw, hdefault⟩ := (hcovers r hr c hc hcarried).resolve_left hcovered
      rw [hprepares.get? c hcarried (hnot hr hcovered), hw] at hv
      cases hv
      exact Or.inr hdefault

end

/-! ## The keys of a saved row -/

section
variable {rt : Runtime} {encode : Value → Except Exn Value} {r r' : Dict Value} {column c : Str}

theorem coerceFloat_keys (h : coerceFloat rt column r = .ok r') :
    c ∈ r'.keys ↔ c = column ∨ c ∈ r.keys := by
  obtain ⟨x, -, rfl⟩ := map_ok h
  exact Dict.mem_keys_set r column c _

theorem coerceInt_keys (h : coerceInt rt column r = .ok r') :
    c ∈ r'.keys ↔ c = column ∨ c ∈ r.keys := by
  obtain ⟨x, -, rfl⟩ := map_ok h
  exact Dict.mem_keys_set r column c _

theorem coerceEmbedding_keys {target : Str} (h : coerceEmbedding encode column target r = .ok r') :
    c ∈ r'.keys ↔ c ∈ r.keys ∨ c = target ∧ column ∈ r.keys := by
  unfold coerceEmbedding at h
  split at h
  · rename_i text htext
    have hcolumn : column ∈ r.keys := by
      rw [← Dict.get?_isSome_iff, htext]
      rfl
    obtain ⟨x, -, rfl⟩ := map_ok h
    rw [Dict.mem_keys_set, or_comm]
    simp only [hcolumn, and_true]
  · rename_i hnone
    have hcolumn : column ∉ r.keys := by
      rw [← Dict.get?_isSome_iff, hnone]
      simp
    cases h
    simp only [hcolumn, and_false, or_false]

theorem coerceDate_keys : c ∈ (coerceDate rt column r).keys ↔ c ∈ r.keys := by
  by_cases hc : column = c
  · subst hc
    unfold coerceDate
    split
    · rename_i text htext
      have hcolumn : column ∈ r.keys := by
        rw [← Dict.get?_isSome_iff, htext]
        rfl
      split
      · rw [Dict.mem_keys_set]
        simp only [hcolumn, or_true]
      · exact Iff.rfl
    · exact Iff.rfl
  · rw [← Dict.get?_isSome_iff, coerceDate_get? hc, Dict.get?_isSome_iff]

theorem coerceSpecs_keys : c ∈ (coerceSpecs rt r).keys ↔ c ∈ r.keys := by
  by_cases hc : ("specs" : Str) = c
  · subst hc
    unfold coerceSpecs
    split
    · rename_i text htext
      have hspecs : ("specs" : Str) ∈ r.keys := by
        rw [← Dict.get?_isSome_iff, htext]
        rfl
      split
      · rw [Dict.mem_keys_set]
        simp only [hspecs, or_true]
      · rw [Dict.mem_keys_set]
        simp only [hspecs, or_true]
    · exact Iff.rfl
  · rw [← Dict.get?_isSome_iff, coerceSpecs_get? hc, Dict.get?_isSome_iff]

theorem coerceTags_keys : c ∈ (coerceTags r).keys ↔ c = ("tags" : Str) ∨ c ∈ r.keys := by
  unfold coerceTags
  split
  · exact Dict.mem_keys_set r _ c _
  · rename_i hvalue
    have htags : ("tags" : Str) ∈ r.keys := by
      rw [← Dict.get?_isSome_iff]
      cases htags : Dict.get? r "tags" with
      | none =>
        have hdefault : r.getD "tags" (.str []) = .str [] := by
          rw [Dict.getD, htags]
          rfl
        exact absurd hdefault (hvalue [])
      | some v => rfl
    constructor
    · exact Or.inr
    · rintro (rfl | h)
      · exact htags
      · exact h

theorem assignId_keys (t : AdminTable) (m : ℕ) :
    c ∈ (assignId rt t m r).2.keys ↔ c = t.idCol ∨ c ∈ r.keys := by
  have hid := @assignId_has rt t m r
  unfold assignId at hid ⊢
  split
  · exact Dict.mem_keys_set r _ c _
  · rename_i hneeds
    rw [if_neg hneeds] at hid
    constructor
    · exact Or.inr
    · rintro (rfl | h)
      · exact hid
      · exact h

theorem exists_embedded {target text : Str} {keys : List Str} :
    (∃ text', some (target, text) = some (c, text') ∧ text' ∈ keys) ↔ c = target ∧ text ∈ keys := by
  constructor
  · rintro ⟨_, heq, h⟩
    cases heq
    exact ⟨rfl, h⟩
  · rintro ⟨rfl, h⟩
    exact ⟨text, rfl, h⟩

/-- The columns a row is given, one after the other, in the order `given` has
them. -/
theorem or_given (a b d e f g : Str) :
    (c = g ∨ c = f ∨ c = e ∨ c = d ∨ c = b ∨ c = a ∨ c ∈ r.keys) ↔
      (c ∈ r.keys ∨ c ∈ [a, b, d, e, f, g]) := by
  simp only [List.mem_cons, List.not_mem_nil, or_false]
  tauto

theorem or_given_pair (a b : Str) : (c = b ∨ c = a ∨ c ∈ r.keys) ↔ (c ∈ r.keys ∨ c ∈ [a, b]) := by
  simp only [List.mem_cons, List.not_mem_nil, or_false]
  tauto

/-- The text of an embedding is none of the columns given to every row. -/
theorem embedded_not_given {t : AdminTable} {target text : Str}
    (h : t.embedded = some (target, text)) : text ∉ t.given := by
  cases t <;> cases h <;> decide

theorem carries_iff {t : AdminTable} {target text : Str} (h : t.embedded = some (target, text)) :
    t.Carries r c ↔ (c ∈ r.keys ∨ c ∈ t.given) ∨
      c = target ∧ (text ∈ r.keys ∨ text ∈ t.given) := by
  rw [AdminTable.Carries, h, exists_embedded, or_assoc]
  simp only [embedded_not_given h, or_false]

/-- The keys of a row once it is coerced. -/
theorem coerceRow_keys {t : AdminTable} {m : ℕ}
    (h : coerceRow rt encode t (assignId rt t m r).2 = .ok r') : c ∈ r'.keys ↔ t.Carries r c := by
  cases t with
  | productCatalog =>
    obtain ⟨r₁, h₁, h⟩ := bind_ok h
    obtain ⟨r₂, h₂, h⟩ := bind_ok h
    obtain ⟨r₃, h₃, h⟩ := bind_ok h
    obtain ⟨r₄, h₄, h⟩ := bind_ok h
    obtain ⟨r₅, h₅, h⟩ := bind_ok h
    have hkeys (k : Str) : k ∈ (coerceSpecs rt r₅).keys ↔
        k ∈ r.keys ∨ k ∈ AdminTable.productCatalog.given := by
      rw [coerceSpecs_keys, coerceInt_keys h₅, coerceFloat_keys h₄, coerceInt_keys h₃,
        coerceInt_keys h₂, coerceFloat_keys h₁, assignId_keys]
      exact or_given _ _ _ _ _ _
    rw [coerceEmbedding_keys h, hkeys, hkeys, carries_iff rfl]
  | companyFaqs =>
    have hkeys (k : Str) : k ∈ (coerceTags (assignId rt .companyFaqs m r).2).keys ↔
        k ∈ r.keys ∨ k ∈ AdminTable.companyFaqs.given := by
      rw [coerceTags_keys, assignId_keys]
      exact or_given_pair _ _
    rw [coerceEmbedding_keys h, hkeys, hkeys, carries_iff rfl]
  | companyTos =>
    have hnone : ¬ ∃ text, AdminTable.companyTos.embedded = some (c, text) ∧ text ∈ r.keys := by
      rintro ⟨_, heq, -⟩
      cases heq
    cases h
    rw [coerceDate_keys, coerceDate_keys, coerceTags_keys, assignId_keys, AdminTable.Carries,
      or_iff_left hnone, or_given_pair]
    exact Iff.rfl

theorem coerceEmbedding_get?_eq {target : Str}
    (h : coerceEmbedding encode column target r = .ok r') :
    r'.get? c = embeddedCell encode column target r c := by
  unfold coerceEmbedding at h
  split at h
  · rename_i text htext
    obtain ⟨x, hx, rfl⟩ := map_ok h
    simp only [embeddedCell, htext, hx]
    by_cases hc : c = target
    · subst hc
      simp [Except.toOption]
    · rw [if_neg hc]
      exact Dict.get?_set_ne r (Ne.symm hc) x
  · rename_i hnone
    cases h
    simp only [embeddedCell, hnone]

theorem embeddedCell_congr {target : Str} {r₁ r₂ : Dict Value}
    (hcolumn : r₁.get? column = r₂.get? column) (hc : r₁.get? c = r₂.get? c) :
    embeddedCell encode column target r₁ c = embeddedCell encode column target r₂ c := by
  unfold embeddedCell
  rw [hcolumn, hc]

theorem coerceDate_congr {r₁ r₂ : Dict Value} (hcolumn : r₁.get? column = r₂.get? column)
    (hc : r₁.get? c = r₂.get? c) :
    (coerceDate rt column r₁).get? c = (coerceDate rt column r₂).get? c := by
  by_cases heq : column = c
  · subst heq
    unfold coerceDate
    rw [hcolumn]
    split
    · split
      · simp
      · exact hc
    · exact hc
  · rw [coerceDate_get? heq, coerceDate_get? heq, hc]

theorem coerceSpecs_congr {r₁ r₂ : Dict Value} (hspecs : r₁.get? "specs" = r₂.get? "specs")
    (hc : r₁.get? c = r₂.get? c) : (coerceSpecs rt r₁).get? c = (coerceSpecs rt r₂).get? c := by
  by_cases heq : ("specs" : Str) = c
  · subst heq
    unfold coerceSpecs
    rw [hspecs]
    split
    · split
      · simp
      · simp
    · exact hc
  · rw [coerceSpecs_get? heq, coerceSpecs_get? heq, hc]

theorem assignId_get? {t : AdminTable} (m : ℕ) (hc : t.idCol ≠ c) :
    (assignId rt t m r).2.get? c = r.get? c := by
  unfold assignId
  split
  · exact Dict.get?_set_ne r hc _
  · rfl

theorem ne_of_not_given {t : AdminTable} (hc : c ∉ t.given) {given : Str} (h : given ∈ t.given) :
    given ≠ c := by
  rintro rfl
  exact hc h

/-- The other columns of a row once it is coerced. -/
theorem coerceRow_value {t : AdminTable} {m : ℕ}
    (h : coerceRow rt encode t (assignId rt t m r).2 = .ok r') (hc : c ∉ t.given) :
    r'.get? c = t.value rt encode r c := by
  cases t with
  | productCatalog =>
    obtain ⟨r₁, h₁, h⟩ := bind_ok h
    obtain ⟨r₂, h₂, h⟩ := bind_ok h
    obtain ⟨r₃, h₃, h⟩ := bind_ok h
    obtain ⟨r₄, h₄, h⟩ := bind_ok h
    obtain ⟨r₅, h₅, h⟩ := bind_ok h
    have hother {k : Str} (hk : k ∉ AdminTable.productCatalog.given) :
        r₅.get? k = r.get? k := by
      rw [coerceInt_get? (ne_of_not_given hk (by decide)) h₅,
        coerceFloat_get? (ne_of_not_given hk (by decide)) h₄,
        coerceInt_get? (ne_of_not_given hk (by decide)) h₃,
        coerceInt_get? (ne_of_not_given hk (by decide)) h₂,
        coerceFloat_get? (ne_of_not_given hk (by decide)) h₁,
        assignId_get? m (ne_of_not_given hk (by decide))]
    have hspecs := hother (by decide : ("specs" : Str) ∉ AdminTable.productCatalog.given)
    have hname := hother (@embedded_not_given .productCatalog _ _ rfl)
    rw [coerceEmbedding_get?_eq h]
    exact embeddedCell_congr (coerceSpecs_congr hspecs hname) (coerceSpecs_congr hspecs (hother hc))
  | companyFaqs =>
    have hother {k : Str} (hk : k ∉ AdminTable.companyFaqs.given) :
        (coerceTags (assignId rt .companyFaqs m r).2).get? k = r.get? k := by
      rw [coerceTags_get? (ne_of_not_given hk (by decide)),
        assignId_get? m (ne_of_not_given hk (by decide))]
    rw [coerceEmbedding_get?_eq h]
    exact embeddedCell_congr (hother (@embedded_not_given .companyFaqs _ _ rfl)) (hother hc)
  | companyTos =>
    have hother {k : Str} (hk : k ∉ AdminTable.companyTos.given) :
        (coerceTags (assignId rt .companyTos m r).2).get? k = r.get? k := by
      rw [coerceTags_get? (ne_of_not_given hk (by decide)),
        assignId_get? m (ne_of_not_given hk (by decide))]
    have heffective := hother (by decide : ("effective_date" : Str) ∉ AdminTable.companyTos.given)
    have hupdated := hother (by decide : ("last_updated" : Str) ∉ AdminTable.companyTos.given)
    cases h
    exact coerceDate_congr (coerceDate_congr heffective hupdated)
      (coerceDate_congr heffective (hother hc))

/-- The loop prepares each row of a save. -/
theorem prepareRows_prepares {t : AdminTable} {m : ℕ} {rows rows' : List (Dict Value)}
    (h : prepareRows rt encode t m rows = .ok rows') :
    List.Forall₂ (Prepares t.Carries (t.value rt encode) t.given) rows rows' := by
  induction rows generalizing m rows' with
  | nil =>
    cases h
    exact .nil
  | cons r rows ih =>
    obtain ⟨r', hr, h⟩ := bind_ok h
    obtain ⟨rest, hrest, h⟩ := bind_ok h
    cases h
    exact .cons ⟨fun c => coerceRow_keys hr, fun c _ hc => coerceRow_value hr hc⟩ (ih hrest)

/-! ## The fields of a loaded record -/

theorem parseDate_ok (h : parseDate rt column r = .ok r') : ∃ date, r' = r.set column date := by
  obtain ⟨v, -, h⟩ := bind_ok h
  split at h
  · split at h
    · cases h
      exact ⟨_, rfl⟩
    · cases h
  · cases h

/-- A record set in one column has that column and its own. -/
theorem prepares_set {s : Source} {v : Value}
    (hcarries : ∀ c, s.Carries r c ↔ c ∈ r.keys ∨ c ∈ s.given) (hgiven : s.given = [column]) :
    Prepares s.Carries Dict.get? s.given r (r.set column v) := by
  constructor
  · intro c
    rw [hcarries, hgiven, List.mem_singleton, Dict.mem_keys_set, or_comm]
  · intro c _ hc
    rw [hgiven, List.mem_singleton] at hc
    exact Dict.get?_set_ne r (Ne.symm hc) v

/-- Each record of a file is prepared by itself. -/
theorem record_prepares {s : Source} (h : s.record rt encode r = .ok r') :
    Prepares s.Carries Dict.get? s.given r r' := by
  cases s with
  | customers =>
    cases h
    exact prepares_set (fun _ => Iff.rfl) rfl
  | orderHistory =>
    obtain ⟨items, -, h⟩ := bind_ok h
    cases h
    exact prepares_set (fun _ => Iff.rfl) rfl
  | companyFaqs =>
    obtain ⟨question, -, h⟩ := bind_ok h
    obtain ⟨vector, -, h⟩ := bind_ok h
    cases h
    exact prepares_set (fun _ => Iff.rfl) rfl
  | companyTos =>
    obtain ⟨r₁, h₁, h⟩ := bind_ok h
    obtain ⟨effective, rfl⟩ := parseDate_ok h₁
    obtain ⟨updated, rfl⟩ := parseDate_ok h
    constructor
    · intro c
      rw [Dict.mem_keys_set, Dict.mem_keys_set]
      exact or_given_pair _ _
    · intro c _ hc
      have hne {k : Str} (hk : k ∈ Source.companyTos.given) : k ≠ c := by
        rintro rfl
        exact hc hk
      rw [Dict.get?_set_ne _ (hne (by decide)), Dict.get?_set_ne _ (hne (by decide))]
  | productCatalog =>
    obtain ⟨fields, -, h⟩ := bind_ok h
    obtain ⟨price, -, h⟩ := bind_ok h
    obtain ⟨stock, -, h⟩ := bind_ok h
    obtain ⟨warranty, -, h⟩ := bind_ok h
    obtain ⟨rating, -, h⟩ := bind_ok h
    obtain ⟨vector, -, h⟩ := bind_ok h
    cases h
    constructor
    · exact fun c => Iff.rfl
    · exact fun c hcarried hc => absurd hcarried hc

end

/-! ## When no field is lost -/

/-- What the load inserts, if it takes effect on a database with that table. -/
theorem stores_of_load {ch : ClickHouse} {rt : Runtime} {encode : Value → Except Exn Value}
    {s : Source} {loaded rows : List (Dict Value)} {db db' : Database} {a before : Table}
    (hrows : loaded.mapM (s.record rt encode) = .ok rows)
    (hexec : exec ch db (.insert s.table (insertData rows) (insertColumns rows)) = .ok (a, db'))
    (hbefore : db s.table = some before) :
    ∃ stored, db' s.table = some ⟨before.columns, before.rows ++ stored⟩ ∧
      (FieldsKept ch before.columns rows stored ↔
        FirstCovers ch before.columns s.Carries Dict.get? loaded) := by
  obtain ⟨table, stored, htable, -, hstored, rfl⟩ := exec_insert hexec
  rw [hbefore] at htable
  cases htable
  have hgiven (r : Dict Value) : ∀ c ∈ s.given, s.Carries r c := by
    intro c hc
    cases s with
    | productCatalog => exact hc
    | customers | orderHistory | companyFaqs | companyTos => exact Or.inr hc
  have hprepares := (mapM_ok hrows).imp fun r r' hr => record_prepares hr
  exact ⟨stored, setTable_self .., fieldsKept_iff hgiven hprepares hstored⟩

/-- **When no field is lost.** A save that succeeds stores every field of
every row exactly if each column a row carries is carried by the first row
too, or the row's value there is the column's default; and what the load
sends, besides connecting, are the records of its files, of each of which the
same holds. -/
theorem fields_kept_iff (rt : Runtime) (ch : ClickHouse) :
    (∀ (t : AdminTable) (call : SaveCall) (faults : ℕ → Fault) (db : Database) (before : Table),
      AdminTable.ofName? call.data.table = some t → db t.name = some before →
      (runRequest rt ch db ⟨call, faults⟩).outcome = .ok () →
      ∃ rows stored,
        prepareRows rt call.encode t (tableMax rt t before) call.data.rows = .ok rows ∧
        (runRequest rt ch db ⟨call, faults⟩).db t.name = some ⟨before.columns, stored⟩ ∧
        (FieldsKept ch before.columns rows stored ↔
          FirstCovers ch before.columns t.Carries (t.value rt call.encode) call.data.rows)) ∧
    ∀ (encode : Value → Except Exn Value) (files : DataFiles) (faults : ℕ → Fault) (db : Database),
      ∀ q ∈ (runHandler ch faults db (ingestData rt encode files)).effects, q = .connect ∨
        ∃ (s : Source) (loaded rows : List (Dict Value)), files s.filename = .ok loaded ∧
          loaded.mapM (s.record rt encode) = .ok rows ∧
          q = .insert s.table (insertData rows) (insertColumns rows) ∧
          ∀ db a db' before, exec ch db q = .ok (a, db') → db s.table = some before →
            ∃ stored, db' s.table = some ⟨before.columns, before.rows ++ stored⟩ ∧
              (FieldsKept ch before.columns rows stored ↔
                FirstCovers ch before.columns s.Carries Dict.get? loaded) := by
  constructor
  · intro t call faults db before hname hbefore hsuccess
    obtain ⟨rows, stored, hrows, -, hstored, hafter⟩ := stores_of_success hname hbefore hsuccess
    have hkept := fieldsKept_iff (fun r c hc => Or.inr (Or.inl hc)) (prepareRows_prepares hrows)
      hstored
    exact ⟨rows, stored, hrows, hafter, hkept⟩
  · intro encode files faults db q hq
    have hasked := runHandler_effects asks_ingestData faults db q hq
    rcases hasked with hconnect | ⟨s, loaded, rows, hloaded, hrows, rfl⟩
    · exact Or.inl hconnect
    · refine Or.inr ⟨s, loaded, rows, hloaded, hrows, rfl, ?_⟩
      intro db a db' before hexec hbefore
      exact stores_of_load hrows hexec hbefore

/-! ## A catalog whose first row has no name -/

def catalogTable (rows : List Row) : Table := ⟨Source.productCatalog.given, rows⟩

def catalogOf (rows : List Row) : Database :=
  setTable (fun _ => none) "product_catalog" (some (catalogTable rows))

def textVector (s : Str) : Value := .list [.float (.finite s.length)]

def textEncode : Value → Except Exn Value
  | .str s => .ok (textVector s)
  | _ => .error ⟨"Text must be a string"⟩

def catalogSave (rows : List (Dict Value)) : SaveCall := ⟨⟨"product_catalog", rows⟩, textEncode⟩

def product (id : Str) (fields : Dict Value) : Dict Value := ("product_id", .str id) :: fields

def namelessFirst : SaveCall :=
  catalogSave [product "TK-PHN-001" [], product "TK-PHN-002" [("name", .str "Phone")]]

/-- A product as the code leaves it before the insert. -/
def prepared (id : Str) (fields : Dict Value) : Dict Value :=
  ("product_id", .str id) :: fields.append
    [("price_inr", .float (.finite 0)), ("stock_qty", .int 0), ("warranty_months", .int 0),
      ("rating", .float (.finite 0)), ("in_stock", .int 0)]

def namelessRows : List (Dict Value) :=
  [prepared "TK-PHN-001" [],
    (prepared "TK-PHN-002" [("name", .str "Phone")]).set "embedding" (textVector "Phone")]

/-- A product of which nothing is stored but its id. -/
def bareProduct (id : Str) : Row :=
  [.str id, .str [], .str [], .str [], .str [], .float (.finite 0), .int 0, .int 0,
    .float (.finite 0), .int 0, .str [], .dict [], .list []]

/-- The second product has lost its name and its embedding. -/
def namelessStored : List Row := [bareProduct "TK-PHN-001", bareProduct "TK-PHN-002"]

theorem namelessFirst_valid :
    Valid Runtime.ascii typedClickHouse (catalogOf []) .productCatalog namelessFirst (catalogTable [])
      namelessRows namelessStored where
  named := rfl
  present := rfl
  prepared := rfl
  columns := by decide
  accepted := rfl

theorem nameless_first_loses_fields :
    Admin.Succeeds Runtime.ascii typedClickHouse (catalogOf []) .productCatalog namelessFirst
      (catalogTable []) namelessStored ∧
    prepareRows Runtime.ascii namelessFirst.encode .productCatalog
      (tableMax Runtime.ascii .productCatalog (catalogTable [])) namelessFirst.data.rows =
      .ok namelessRows ∧
    ¬ FieldsKept typedClickHouse (catalogTable []).columns namelessRows namelessStored := by
  refine ⟨succeeds_of_absent namelessFirst_valid rfl, rfl, ?_⟩
  intro hkept
  obtain ⟨w, hstored, hwrite⟩ := hkept.field 1 _ _ rfl rfl "name" (by decide) (.str "Phone") rfl
  have hempty : Dict.get? ((catalogTable []).columns.zip (bareProduct "TK-PHN-002")) "name" =
      some (.str []) := rfl
  rw [hempty] at hstored
  cases hstored
  cases hwrite

/-- The first product has a price, which the other one is given. -/
def namedFirst : SaveCall :=
  catalogSave [product "TK-PHN-002" [("name", .str "Phone"), ("price_inr", .str "9999")],
    product "TK-PHN-001" [("name", .str "Tablet")]]

/-- With the product first that has every field both are stored whole. -/
theorem fields_kept_iff_named_first :
    ∃ rows stored,
      (runRequest Runtime.ascii typedClickHouse (catalogOf []) ⟨namedFirst, fun _ => .none⟩).db
        "product_catalog" = some ⟨(catalogTable []).columns, stored⟩ ∧
      FieldsKept typedClickHouse (catalogTable []).columns rows stored := by
  have hkept := (fields_kept_iff Runtime.ascii typedClickHouse).1 .productCatalog namedFirst
    (fun _ => .none) (catalogOf []) (catalogTable []) rfl rfl rfl
  obtain ⟨rows, stored, -, hafter, hiff⟩ := hkept
  refine ⟨rows, stored, hafter, hiff.mpr ?_⟩
  intro r hr c hc hcarried
  refine Or.inl ⟨_, rfl, hcarried.mono fun k hk => ?_⟩
  rcases List.mem_cons.mp hr with rfl | hr
  · exact hk
  · have hkeys : ∀ k ∈ Dict.keys (product "TK-PHN-001" [("name", .str "Tablet")]),
        k ∈ Dict.keys (product "TK-PHN-002" [("name", .str "Phone"), ("price_inr", .str "9999")]) := by
      decide
    rw [List.mem_singleton.mp hr] at hk
    exact hkeys k hk

end TechMart.Db
