import TechMart.Admin.Cells
import TechMart.Db.Fields

/-!
# The coercions, column by column

A save coerces each row in a fixed order of columns. Here that order is a list,
and a row is coerced by going through it: `coerceRow_read` says what a column
that was sent as a text has afterwards, `exists_coerceRow` when nothing raises.
-/

namespace TechMart.Admin

open Python Db

/-- The columns in which a row is coerced, in this order. -/
def AdminTable.coerced : AdminTable → List (Str × ColumnType)
  | .productCatalog =>
    [("price_inr", .float32), ("stock_qty", .int32), ("warranty_months", .int32),
     ("rating", .float32), ("in_stock", .uint8), ("specs", .stringMap), ("embedding", .floatArray)]
  | .companyFaqs => [("tags", .stringArray), ("question_embedding", .floatArray)]
  | .companyTos => [("tags", .stringArray), ("effective_date", .date), ("last_updated", .date)]

section
variable (rt : Runtime) (encode : Value → Except Exn Value) (t : AdminTable)

/-- The coercion of one column. -/
def coerceColumn (r : Dict Value) (p : Str × ColumnType) : Except Exn (Dict Value) :=
  match p.2 with
  | .float32 => coerceFloat rt p.1 r
  | .int32 | .uint8 => coerceInt rt p.1 r
  | .stringMap => .ok (coerceSpecs rt r)
  | .stringArray => .ok (coerceTags r)
  | .date => .ok (coerceDate rt p.1 r)
  | .floatArray => match t.embedded with
    | some (target, column) => coerceEmbedding encode column target r
    | none => .ok r
  | .string => .ok r

/-- A row is coerced column by column. -/
theorem coerceRow_eq (r : Dict Value) :
    coerceRow rt encode t r = t.coerced.foldlM (coerceColumn rt encode t) r := by
  cases t with
  | productCatalog =>
    simp only [coerceRow, AdminTable.coerced, List.foldlM_cons, List.foldlM_nil, coerceColumn,
      AdminTable.embedded, bind_pure]
    rfl
  | companyFaqs =>
    simp only [coerceRow, AdminTable.coerced, List.foldlM_cons, List.foldlM_nil, coerceColumn,
      AdminTable.embedded, bind_pure]
    rfl
  | companyTos => rfl

end

section
variable {rt : Runtime} {encode : Value → Except Exn Value} {t : AdminTable}

/-- Which column a type stands for where the coercion is of one column only. -/
theorem coerced_column {p : Str × ColumnType} (hp : p ∈ t.coerced) :
    (p.2 = .stringMap → p.1 = "specs") ∧ (p.2 = .stringArray → p.1 = "tags") ∧
      (p.2 = .floatArray → t.embedded.map Prod.fst = some p.1) := by
  have hall : ∀ p ∈ t.coerced, (p.2 = .stringMap → p.1 = ("specs" : Str)) ∧
      (p.2 = .stringArray → p.1 = ("tags" : Str)) ∧
      (p.2 = .floatArray → t.embedded.map Prod.fst = some p.1) := by
    cases t <;> decide
  exact hall p hp

/-- A coercion leaves the other columns, and reads the text of its own. -/
theorem coerceColumn_ok {p : Str × ColumnType} (hp : p ∈ t.coerced) {r r' : Dict Value}
    (h : coerceColumn rt encode t r p = .ok r') :
    (∀ c, p.1 ≠ c → r'.get? c = r.get? c) ∧
      (p.2 ≠ .floatArray → ∀ text, r.get? p.1 = some (.str text) →
        ∃ v, p.2.read rt text = .ok v ∧ r'.get? p.1 = some v) := by
  obtain ⟨column, ty⟩ := p
  obtain ⟨hspecs, htags, hembedded⟩ := coerced_column hp
  cases ty with
  | string =>
    cases h
    exact ⟨fun _ _ => rfl, fun _ text htext => ⟨_, rfl, htext⟩⟩
  | stringArray =>
    cases h
    obtain rfl : column = "tags" := htags rfl
    refine ⟨fun c hc => coerceTags_get? hc r, fun _ text htext => ⟨_, rfl, ?_⟩⟩
    have hvalue : r.getD "tags" (.str []) = .str text := by
      rw [Dict.getD, htext, Option.getD_some]
    rw [coerceTags, hvalue]
    exact Dict.get?_set_self r _ _
  | date =>
    cases h
    refine ⟨fun c hc => coerceDate_get? hc r, fun _ text htext => ⟨_, rfl, ?_⟩⟩
    simp only [coerceDate, htext]
    cases strptime rt text with
    | some date => exact Dict.get?_set_self r _ _
    | none => exact htext
  | float32 =>
    refine ⟨fun c hc => coerceFloat_get? hc h, fun _ text htext => ?_⟩
    obtain ⟨x, hx, rfl⟩ := map_ok h
    rw [Dict.getD, htext, Option.getD_some] at hx
    exact ⟨.float x, by rw [ColumnType.read, hx]; rfl, Dict.get?_set_self r _ _⟩
  | int32 | uint8 =>
    refine ⟨fun c hc => coerceInt_get? hc h, fun _ text htext => ?_⟩
    obtain ⟨n, hn, rfl⟩ := map_ok h
    rw [Dict.getD, htext, Option.getD_some] at hn
    exact ⟨.int n, by rw [ColumnType.read, hn]; rfl, Dict.get?_set_self r _ _⟩
  | stringMap =>
    cases h
    obtain rfl : column = "specs" := hspecs rfl
    refine ⟨fun c hc => coerceSpecs_get? hc r, fun _ text htext => ⟨_, rfl, ?_⟩⟩
    simp only [coerceSpecs, htext, specsOf]
    cases Json.loads rt text with
    | ok v => exact Dict.get?_set_self r _ _
    | error e => exact Dict.get?_set_self r _ _
  | floatArray =>
    obtain ⟨⟨target, text⟩, hembed, rfl⟩ := Option.map_eq_some_iff.mp (hembedded rfl)
    simp only [coerceColumn, hembed] at h
    exact ⟨fun c hc => coerceEmbedding_get? hc h, fun hne => absurd rfl hne⟩

theorem foldlM_ok {steps : List (Str × ColumnType)} (hsub : ∀ p ∈ steps, p ∈ t.coerced)
    (hnodup : (steps.map Prod.fst).Nodup) {r r' : Dict Value}
    (h : steps.foldlM (coerceColumn rt encode t) r = .ok r') :
    (∀ c ∉ steps.map Prod.fst, r'.get? c = r.get? c) ∧
      ∀ p ∈ steps, p.2 ≠ .floatArray → ∀ text, r.get? p.1 = some (.str text) →
        ∃ v, p.2.read rt text = .ok v ∧ r'.get? p.1 = some v := by
  induction steps generalizing r with
  | nil =>
    cases h
    exact ⟨fun _ _ => rfl, List.forall_mem_nil _⟩
  | cons q steps ih =>
    obtain ⟨r₁, hq, h⟩ := bind_ok h
    obtain ⟨hother, hread⟩ := coerceColumn_ok (hsub q List.mem_cons_self) hq
    rw [List.map_cons, List.nodup_cons] at hnodup
    obtain ⟨hrest, hreadRest⟩ := ih (fun p hp => hsub p (List.mem_cons_of_mem q hp)) hnodup.2 h
    refine ⟨fun c hc => ?_, List.forall_mem_cons.mpr ⟨fun hty text htext => ?_, ?_⟩⟩
    · rw [List.map_cons, List.mem_cons, not_or] at hc
      rw [hrest c hc.2, hother c (Ne.symm hc.1)]
    · rw [hrest q.1 hnodup.1]
      exact hread hty text htext
    · intro p hp hty text htext
      have hne : q.1 ≠ p.1 := by
        intro heq
        exact hnodup.1 (heq ▸ List.mem_map_of_mem hp)
      exact hreadRest p hp hty text (by rw [hother p.1 hne, htext])

theorem coerced_nodup : (t.coerced.map Prod.fst).Nodup := by
  cases t <;> decide

/-- What a coerced row has in a column that was sent as a text. -/
theorem coerceRow_read {r r' : Dict Value} (h : coerceRow rt encode t r = .ok r') {col : Str}
    {ty : ColumnType} (hcol : (col, ty) ∈ t.schema) (hty : ty ≠ .floatArray) {text : Str}
    (htext : r.get? col = some (.str text)) :
    ∃ v, ty.read rt text = .ok v ∧ r'.get? col = some v := by
  have hall : ∀ p ∈ t.schema, p.2 ≠ .floatArray →
      p ∈ t.coerced ∨ (p.1 ∉ t.coerced.map Prod.fst ∧ p.2 = .string) := by
    cases t <;> decide
  rw [coerceRow_eq] at h
  obtain ⟨hother, hread⟩ := foldlM_ok (fun _ hp => hp) coerced_nodup h
  rcases hall _ hcol hty with hcoerced | ⟨hnot, hstring⟩
  · exact hread _ hcoerced hty text htext
  · obtain rfl : ty = .string := hstring
    exact ⟨.str text, rfl, (hother col hnot).trans htext⟩

theorem exists_coerceColumn {p : Str × ColumnType} {r : Dict Value}
    (hread : p.2 ≠ .floatArray → ∃ text v, r.get? p.1 = some (.str text) ∧ p.2.read rt text = .ok v)
    (hembed : ∀ target column, t.embedded = some (target, column) →
      ∃ text vector, r.get? column = some (.str text) ∧ encode (.str text) = .ok vector) :
    ∃ r', coerceColumn rt encode t r p = .ok r' := by
  obtain ⟨column, ty⟩ := p
  cases ty with
  | string | stringArray | date | stringMap => exact ⟨_, rfl⟩
  | float32 =>
    obtain ⟨text, v, htext, hv⟩ := hread (by simp)
    obtain ⟨x, hx, -⟩ := map_ok hv
    refine ⟨r.set column (.float x), ?_⟩
    simp only [coerceColumn, coerceFloat, Dict.getD, htext, Option.getD_some, hx]
    rfl
  | int32 | uint8 =>
    obtain ⟨text, v, htext, hv⟩ := hread (by simp)
    obtain ⟨n, hn, -⟩ := map_ok hv
    refine ⟨r.set column (.int n), ?_⟩
    simp only [coerceColumn, coerceInt, Dict.getD, htext, Option.getD_some, hn]
    rfl
  | floatArray =>
    cases hembedded : t.embedded with
    | none => exact ⟨r, by simp only [coerceColumn, hembedded]⟩
    | some e =>
      obtain ⟨text, vector, htext, hvector⟩ := hembed e.1 e.2 hembedded
      refine ⟨r.set e.1 vector, ?_⟩
      simp only [coerceColumn, hembedded, coerceEmbedding, htext, hvector]
      rfl

/-- A row is coerced where each of its texts can be read. -/
theorem exists_coerceRow {r : Dict Value}
    (hread : ∀ p ∈ t.coerced, p.2 ≠ .floatArray →
      ∃ text v, r.get? p.1 = some (.str text) ∧ p.2.read rt text = .ok v)
    (hembed : ∀ target column, t.embedded = some (target, column) →
      ∃ text vector, r.get? column = some (.str text) ∧ encode (.str text) = .ok vector) :
    ∃ r', coerceRow rt encode t r = .ok r' := by
  have hcolumn : ∀ target column, t.embedded = some (target, column) →
      column ∉ t.coerced.map Prod.fst := by
    cases t <;> rintro _ _ ⟨⟩ <;> decide
  have hsteps : ∀ steps : List (Str × ColumnType), (∀ p ∈ steps, p ∈ t.coerced) →
      (steps.map Prod.fst).Nodup → ∀ r : Dict Value,
      (∀ p ∈ steps, p.2 ≠ .floatArray →
        ∃ text v, r.get? p.1 = some (.str text) ∧ p.2.read rt text = .ok v) →
      (∀ target column, t.embedded = some (target, column) →
        ∃ text vector, r.get? column = some (.str text) ∧ encode (.str text) = .ok vector) →
      ∃ r', steps.foldlM (coerceColumn rt encode t) r = .ok r' := by
    intro steps
    induction steps with
    | nil => exact fun _ _ r _ _ => ⟨r, rfl⟩
    | cons q steps ih =>
      intro hsub hnodup r hread hembed
      obtain ⟨r₁, hq⟩ := exists_coerceColumn (hread q List.mem_cons_self) hembed
      obtain ⟨hother, -⟩ := coerceColumn_ok (hsub q List.mem_cons_self) hq
      rw [List.map_cons, List.nodup_cons] at hnodup
      have hrest : ∃ r', steps.foldlM (coerceColumn rt encode t) r₁ = .ok r' := by
        refine ih (fun p hp => hsub p (List.mem_cons_of_mem q hp)) hnodup.2 r₁ ?_ ?_
        · intro p hp hty
          obtain ⟨text, v, htext, hv⟩ := hread p (List.mem_cons_of_mem q hp) hty
          have hne : q.1 ≠ p.1 := by
            intro heq
            exact hnodup.1 (heq ▸ List.mem_map_of_mem hp)
          exact ⟨text, v, by rw [hother p.1 hne, htext], hv⟩
        · intro target column hembedded
          obtain ⟨text, vector, htext, hvector⟩ := hembed target column hembedded
          have hne : q.1 ≠ column := by
            rintro rfl
            exact hcolumn target _ hembedded (List.mem_map_of_mem (hsub q List.mem_cons_self))
          exact ⟨text, vector, by rw [hother column hne, htext], hvector⟩
      obtain ⟨r', hrest⟩ := hrest
      refine ⟨r', ?_⟩
      rw [List.foldlM_cons, hq]
      exact hrest
  rw [coerceRow_eq]
  exact hsteps t.coerced (fun _ hp => hp) coerced_nodup r hread hembed

/-- The vector of a coerced row is that of the text it was sent with. -/
theorem coerceRow_vector {m : ℕ} {r r' : Dict Value}
    (h : coerceRow rt encode t (assignId rt t m r).2 = .ok r') {target column : Str}
    (hembedded : t.embedded = some (target, column)) {text : Str} {vector : Value}
    (htext : r.get? column = some (.str text)) (hvector : encode (.str text) = .ok vector) :
    r'.get? target = some vector := by
  have hgiven : target ∉ t.given := by
    cases t <;> cases hembedded <;> decide
  rw [coerceRow_value h hgiven]
  cases t with
  | productCatalog =>
    cases hembedded
    have hname : (coerceSpecs rt r).get? "name" = some (.str text) :=
      (coerceSpecs_get? (by decide) r).trans htext
    simp only [AdminTable.value, embeddedCell, hname, if_true, hvector]
    rfl
  | companyFaqs =>
    cases hembedded
    simp only [AdminTable.value, embeddedCell, htext, if_true, hvector]
    rfl
  | companyTos => cases hembedded

end

end TechMart.Admin
