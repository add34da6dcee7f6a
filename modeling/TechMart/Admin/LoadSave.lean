import TechMart.Admin.Coercions
import TechMart.Admin.Loaded

/-!
# Loading and saving

A table that is loaded into the page and saved as it is. `load_save_iff` says
for which content the save is accepted and leaves every value as it was.
-/

namespace TechMart.Admin

open Python Sql Web.Attribute Db

/-! ## The statement -/

/-- What is relied on of the columns of a table: a text, a list of texts or a
map is stored as it is or rejected, and a map in any order of its entries. -/
structure ColumnLaws (ch : ClickHouse) (t : AdminTable) : Prop where
  string : ∀ c, (c, ColumnType.string) ∈ t.schema → ∀ text w,
    ch.write c (.str text) = some w → w = .str text
  strings : ∀ c, (c, ColumnType.stringArray) ∈ t.schema → ∀ (texts : List Str) w,
    ch.write c (.list (texts.map .str)) = some w → w = .list (texts.map .str)
  map : ∀ c, (c, ColumnType.stringMap) ∈ t.schema → ∀ kvs w,
    ch.write c (.dict kvs) = some w → ∃ kvs', w = .dict kvs' ∧ kvs.Perm kvs'
  order : ∀ c, (c, ColumnType.stringMap) ∈ t.schema → ∀ kvs kvs', kvs.Perm kvs' →
    (ch.write c (.dict kvs)).isSome = true → (ch.write c (.dict kvs')).isSome = true

/-- Every text has a vector, and the column of the vectors takes it. -/
def Embeds (ch : ClickHouse) (encode : Value → Except Exn Value) (t : AdminTable) : Prop :=
  ∀ target column, t.embedded = some (target, column) → ∀ text, ∃ vector,
    encode (.str text) = .ok vector ∧ (ch.write target vector).isSome = true

/-- A stored value that is the cell's, or a vector of the text it is of. -/
def CellKept (ch : ClickHouse) (encode : Value → Except Exn Value) (t : AdminTable)
    (cells : List Cell) (c : Str) (w : Value) : Cell → Prop
  | .vector _ => ∃ column text vector, t.embedded = some (c, column) ∧
    Dict.get? (t.columns.zip cells) column = some (.string text) ∧
    encode (.str text) = .ok vector ∧ ch.write c vector = some w
  | cell => SameValue cell.value w

/-- A stored row with the same value in every column. -/
def RowKept (ch : ClickHouse) (encode : Value → Except Exn Value) (t : AdminTable)
    (cells : List Cell) (row : Row) : Prop :=
  ∀ p ∈ t.columns.zip cells, ∃ w, Dict.get? (t.columns.zip row) p.1 = some w ∧
    CellKept ch encode t cells p.1 w p.2

/-- Loading the table and saving it as it is: the save is sent and answered
with success, and every row is stored with the values it had. -/
def Unchanged (rt : Runtime) (ch : ClickHouse) (db : Database) (s : Session) (t : AdminTable)
    (js : JavaScript rt) (b : Browser) (encode : Value → Except Exn Value)
    (contents : List (List Cell)) : Prop :=
  ∃ page data stored, loadedPage rt ch db s t js = some page ∧ page.saveData b = some data ∧
    Succeeds rt ch db t ⟨data, encode⟩ (t.holding contents) stored ∧
    List.Forall₂ (RowKept ch encode t) contents stored

/-! ## One row -/

section
variable {rt : Runtime} {ch : ClickHouse} {js : JavaScript rt} {rs : References}
  {encode : Value → Except Exn Value} {s : Session} {t : AdminTable} {cells : List Cell}

theorem shown_of_column (h : RowHolds rt ch t cells) {col : Str} (hcol : col ∈ t.pageColumns) :
    ∃ cell, (col, cell) ∈ t.shown cells := by
  rw [← shown_keys h] at hcol
  obtain ⟨p, hp, rfl⟩ := List.mem_map.mp hcol
  exact ⟨p.2, hp⟩

/-- The text of a column of texts. -/
theorem text_of_column (h : RowHolds rt ch t cells) {col : Str} (hcol : col ∈ t.pageColumns)
    (htype : ∀ ty, (col, ty) ∈ t.schema → ty = .string) :
    ∃ text, (col, Cell.string text) ∈ t.shown cells := by
  obtain ⟨cell, hcell⟩ := shown_of_column h hcol
  obtain ⟨ty, hty, -, htyped, -⟩ := type_of_shown h hcell
  obtain rfl : ty = .string := htype ty hty
  cases cell with
  | string text => exact ⟨text, hcell⟩
  | _ => exact htyped.elim

theorem idCol_mem : t.idCol ∈ t.pageColumns := by
  cases t <;> decide

theorem needsId_iff {r : Dict Value} {text : Str} (h : r.get? t.idCol = some (.str text)) :
    needsId rt t r = false ↔ IsId text := by
  have hvalue : rt.str (r.getD t.idCol (.str [])) = text := by
    rw [Dict.getD, h, Option.getD_some, Runtime.str_str]
  simp only [needsId, hvalue, IsId, Bool.or_eq_false_iff, List.isEmpty_eq_false_iff,
    beq_eq_false_iff_ne]

theorem assignId_of_hasId {r : Dict Value} (h : needsId rt t r = false) (m : ℕ) :
    (assignId rt t m r).2 = r := by
  rw [assignId, h, if_neg Bool.false_ne_true]

/-- An id with a dash in it is shown as an id. -/
theorem isId_of_dash {text : Str} (h : '-' ∈ text) :
    IsId (shownText js rs s t t.idCol (.string text)) := by
  have hshown : shownText js rs s t t.idCol (.string text) =
      sanitize .text (attributeValue rs (escapeQuotes text)) := by
    cases t <;> rfl
  have hdash : '-' ∈ decode rs (normalize text) := by
    have hnormal := mem_normalize (by decide) (by decide) h
    exact @mem_decodeFrom rs '-' (by decide) (by decide) (by decide) (normalize text) 0 hnormal
  rw [hshown, attributeValue_escapeQuotes]
  have hstripped := @mem_strip (sanitize .text (decode rs (normalize text))) '-'
    (List.mem_filter.mpr ⟨hdash, by decide⟩) (by decide)
  constructor
  · exact List.ne_nil_of_mem hstripped
  · intro hnone
    rw [hnone] at hstripped
    revert hstripped
    decide

/-- What a save stores of a row, column by column. -/
def Stores (ch : ClickHouse) (t : AdminTable) (r : Dict Value) (row : Row) : Prop :=
  ∀ c ∈ t.columns, ∃ w, Dict.get? (t.columns.zip row) c = some w ∧
    ch.write c (r.getD c .none) = some w

theorem idCol_column : t.idCol ∈ t.columns := by
  cases t <;> decide

/-- A row that is stored under its id was sent with it. -/
theorem isId_of_kept (hlaws : ColumnLaws ch t) (hcells : RowHolds rt ch t cells) {m : ℕ}
    {r' : Dict Value} {row : Row}
    (hcoerce : coerceRow rt encode t (assignId rt t m (submitted js rs s t cells)).2 = .ok r')
    (hstored : Stores ch t r' row) (hkept : RowKept ch encode t cells row) :
    needsId rt t (submitted js rs s t cells) = false := by
  obtain ⟨text, hshown⟩ := @text_of_column rt ch t cells hcells t.idCol idCol_mem
    fun ty hty => type_of_idCol hty
  have hget : (submitted js rs s t cells).get? t.idCol =
      some (.str (shownText js rs s t t.idCol (.string text))) := submitted_get? hcells hshown
  obtain ⟨ty, hty, -, -, -⟩ := type_of_shown hcells hshown
  obtain rfl : ty = .string := type_of_idCol hty
  rw [needsId_iff hget]
  by_contra hid
  -- the row gets a new id, which is the one it had: there is a dash in it
  have hneeds : needsId rt t (submitted js rs s t cells) = true := by
    rw [← Bool.not_eq_false]
    exact mt (needsId_iff hget).mp hid
  have hnew : r'.get? t.idCol = some (.str (newId rt t (submitted js rs s t cells) (m + 1))) := by
    rw [coerceRow_id hcoerce, assignId, if_pos hneeds]
    exact Dict.get?_set_self _ _ _
  obtain ⟨w, hw, hwrite⟩ := hstored t.idCol idCol_column
  rw [Dict.getD, hnew, Option.getD_some] at hwrite
  obtain ⟨w', hw', hsame⟩ := hkept _ (mem_zip_of_shown hshown)
  rw [hw] at hw'
  cases hw'
  rw [hlaws.string _ hty _ _ hwrite] at hsame
  have htext : text = newId rt t (submitted js rs s t cells) (m + 1) := by
    rcases hsame with hsame | ⟨kvs, kvs', hdict, -⟩
    · exact Value.str.inj hsame
    · cases hdict
  have hdash : '-' ∈ text := by
    rw [htext]
    exact List.mem_append_right _ List.mem_cons_self
  exact hid (isId_of_dash hdash)

theorem SameValue.trans {u v w : Value} (h : SameValue u v) (h' : SameValue v w) :
    SameValue u w := by
  rcases h with rfl | ⟨kvs, kvs', rfl, rfl, hperm⟩
  · exact h'
  · rcases h' with rfl | ⟨kvs₁, kvs₂, hdict, rfl, hperm'⟩
    · exact Or.inr ⟨kvs, kvs', rfl, rfl, hperm⟩
    · cases hdict
      exact Or.inr ⟨kvs, kvs₂, rfl, rfl, hperm.trans hperm'⟩

theorem SameValue.symm {v w : Value} (h : SameValue v w) : SameValue w v := by
  rcases h with rfl | ⟨kvs, kvs', rfl, rfl, hperm⟩
  · exact Or.inl rfl
  · exact Or.inr ⟨kvs', kvs, rfl, rfl, hperm.symm⟩

/-- The text of an object is read as an object, or as an empty one. -/
theorem specsOf_shown (rt : Runtime) (entries : Dict Str) : ∃ kvs, specsOf rt
    (sanitize .text (attributeValue rs (escapeQuotes (Web.Stringify.stringify entries)))) =
      .dict kvs := by
  obtain ⟨rest, hopen⟩ : ∃ rest, sanitize .text
      (attributeValue rs (escapeQuotes (Web.Stringify.stringify entries))) = '\x7b' :: rest := by
    rw [attributeValue_escapeQuotes, normalize_of_normal (normal_stringify entries)]
    exact ⟨_, rfl⟩
  rw [hopen, specsOf]
  cases hloads : Json.loads rt ('\x7b' :: rest) with
  | error e => exact ⟨[], rfl⟩
  | ok v =>
    unfold Json.loads at hloads
    split at hloads
    · rename_i v' r hvalue
      split_ifs at hloads
      cases hloads
      have hskip : Json.skipWs ('\x7b' :: rest) = '\x7b' :: rest := rfl
      rw [hskip, Json.value.eq_def] at hvalue
      simp only at hvalue
      split at hvalue
      · cases hvalue
        exact ⟨[], rfl⟩
      · obtain ⟨r, -, heq⟩ := Option.map_eq_some_iff.mp hvalue
        cases heq
        exact ⟨_, rfl⟩
    · cases hloads

/-- What is stored of a value that was read is that value. -/
theorem sameValue_of_stored (hlaws : ColumnLaws ch t) {p : Str × Cell} {ty : ColumnType}
    (hty : (p.1, ty) ∈ t.schema) (hexact : ty.exact = true) (htyped : p.2.HasType rt ty)
    {v w : Value} (hread : ty.read rt (shownText js rs s t p.1 p.2) = .ok v)
    (hwrite : ch.write p.1 v = some w) : SameValue v w := by
  obtain ⟨col, cell⟩ := p
  cases ty with
  | string =>
    cases hread
    exact Or.inl (hlaws.string _ hty _ _ hwrite).symm
  | stringArray =>
    cases hread
    exact Or.inl (hlaws.strings _ hty _ _ hwrite).symm
  | stringMap =>
    cases cell with
    | map entries =>
      cases hread
      obtain ⟨kvs, hkvs⟩ := @specsOf_shown rs rt (Web.Stringify.ownOrder entries)
      rw [shownText_map hty, hkvs] at hwrite ⊢
      obtain ⟨kvs', rfl, hperm⟩ := hlaws.map _ hty _ _ hwrite
      exact Or.inr ⟨kvs, kvs', rfl, rfl, hperm⟩
    | _ => exact htyped.elim
  | _ => cases hexact

theorem cellKept_iff {p : Str × Cell} (h : RowHolds rt ch t cells) (hp : p ∈ t.shown cells)
    (w : Value) : CellKept ch encode t cells p.1 w p.2 ↔ SameValue p.2.value w := by
  obtain ⟨ty, -, hty, htyped, -⟩ := type_of_shown h hp
  obtain ⟨col, cell⟩ := p
  cases cell with
  | vector v => exact absurd (Cell.type_of_vector htyped) hty
  | _ => exact Iff.rfl

/-- The cells of a row that is kept survive the page. -/
theorem survives_of_kept (hlaws : ColumnLaws ch t) (hcells : RowHolds rt ch t cells)
    (hparsed : Parsed rt t cells) (hfilled : Filled js rs s t cells) {m : ℕ} {r' : Dict Value}
    {row : Row}
    (hcoerce : coerceRow rt encode t (assignId rt t m (submitted js rs s t cells)).2 = .ok r')
    (hstored : Stores ch t r' row) (hkept : RowKept ch encode t cells row) :
    ∀ p ∈ t.shown cells, Survives rs s t p.1 p.2 := by
  have hid := isId_of_kept hlaws hcells hcoerce hstored hkept
  rw [assignId_of_hasId hid] at hcoerce
  intro p hp
  obtain ⟨ty, hty, hvector, htyped, -⟩ := type_of_shown hcells hp
  have hget := @submitted_get? rt ch t s js rs cells hcells p hp
  refine survives_of_shown hty htyped (Or.inl (hparsed p hp)) (hfilled p hp) ?_ ?_
  · intro hcol
    rw [hcol] at hget
    rw [hcol]
    exact (needsId_iff hget).mp hid
  · intro hexact
    obtain ⟨v, hread, hv⟩ := coerceRow_read hcoerce hty hvector hget
    have hcolumn : p.1 ∈ t.columns := List.mem_map_of_mem hty
    obtain ⟨w, hw, hwrite⟩ := hstored p.1 hcolumn
    rw [Dict.getD, hv, Option.getD_some] at hwrite
    obtain ⟨w', hw', hsame⟩ := hkept p (mem_zip_of_shown hp)
    rw [hw] at hw'
    cases hw'
    rw [cellKept_iff hcells hp] at hsame
    exact ⟨v, hread, hsame.trans (sameValue_of_stored hlaws hty hexact htyped hread hwrite).symm⟩

theorem parsed_of_survives (hcells : RowHolds rt ch t cells)
    (h : ∀ p ∈ t.shown cells, Survives rs s t p.1 p.2) : Parsed rt t cells := by
  intro p hp
  obtain ⟨ty, -, hvector, htyped, -⟩ := type_of_shown hcells hp
  have hsurvives := h p hp
  obtain ⟨col, cell⟩ := p
  cases cell with
  | string text => rfl
  | strings texts => rw [ofValue_strings]; rfl
  | date y m d => rfl
  | float x =>
    cases x with
    | finite q => rfl
    | _ => exact hsurvives.elim
  | int n => rfl
  | map entries => rw [ofValue_map]; rfl
  | vector v => exact absurd (Cell.type_of_vector htyped) hvector

/-- A value that is the cell's own is stored, and stored as the same. -/
theorem stored_of_sameValue (hlaws : ColumnLaws ch t) {p : Str × Cell} {ty : ColumnType}
    (hty : (p.1, ty) ∈ t.schema) (hvector : ty ≠ .floatArray) (htyped : p.2.HasType rt ty)
    (hwrite : ch.write p.1 p.2.value = some p.2.value) {v : Value} (h : SameValue p.2.value v) :
    ∃ w, ch.write p.1 v = some w ∧ SameValue p.2.value w := by
  rcases h with rfl | ⟨kvs, kvs', hkvs, rfl, hperm⟩
  · exact ⟨_, hwrite, Or.inl rfl⟩
  · obtain ⟨col, cell⟩ := p
    have hmap : ty = .stringMap := by
      cases cell with
      | map entries =>
        cases ty with
        | stringMap => rfl
        | _ => exact htyped.elim
      | vector v => exact absurd (Cell.type_of_vector htyped) hvector
      | _ => cases hkvs
    subst hmap
    simp only at hkvs hty
    simp only [hkvs] at hwrite
    have hsome := hlaws.order col hty kvs kvs' hperm (by rw [hwrite]; rfl)
    obtain ⟨w, hw⟩ := Option.isSome_iff_exists.mp hsome
    obtain ⟨kvs₂, rfl, hperm'⟩ := hlaws.map col hty _ _ hw
    exact ⟨_, hw, Or.inr ⟨kvs, kvs₂, hkvs, rfl, hperm.trans hperm'⟩⟩

theorem embedded_columns {target column : Str} (h : t.embedded = some (target, column)) :
    column ∈ t.pageColumns ∧
      ∀ p ∈ t.schema, (p.1 = column → p.2 = .string) ∧ (p.2 = .floatArray → p.1 = target) := by
  cases t <;> cases h <;> decide

theorem exists_embedded_of_vector {col : Str} (h : (col, .floatArray) ∈ t.schema) :
    ∃ column, t.embedded = some (col, column) := by
  have hall : ∀ p ∈ t.schema, p.2 = .floatArray → t.embedded.map Prod.fst = some p.1 := by
    cases t <;> decide
  obtain ⟨⟨target, column⟩, hembedded, rfl⟩ := Option.map_eq_some_iff.mp (hall _ h rfl)
  exact ⟨column, hembedded⟩

theorem not_mem_pageColumns {col : Str} {ty : ColumnType} (h : (col, ty) ∈ t.schema)
    (hcol : col ∉ t.pageColumns) : ty = .floatArray := by
  have hall : ∀ p ∈ t.schema, p.1 ∉ t.pageColumns → p.2 = .floatArray := by
    cases t <;> decide
  exact hall _ h hcol

theorem type_unique {col : Str} {ty ty' : ColumnType} (h : (col, ty) ∈ t.schema)
    (h' : (col, ty') ∈ t.schema) : ty = ty' := by
  have hget := @Dict.get?_of_mem _ t.schema columns_nodup _ h
  rw [@Dict.get?_of_mem _ t.schema columns_nodup _ h'] at hget
  exact (Option.some.inj hget).symm

section
variable (js) (hcells : RowHolds rt ch t cells)
  (hsurvive : ∀ p ∈ t.shown cells, Survives rs s t p.1 p.2)
include hcells hsurvive

theorem shows_of_shown {p : Str × Cell} (hp : p ∈ t.shown cells) {ty : ColumnType}
    (hty : (p.1, ty) ∈ t.schema) :
    Shows rt t p.1 ty p.2 (shownText js rs s t p.1 p.2) := by
  obtain ⟨ty', hty', hvector, htyped, -⟩ := type_of_shown hcells hp
  obtain rfl := type_unique hty hty'
  exact shows_of_survives hty hvector htyped (hsurvive p hp)

theorem filled_of_survives : Filled js rs s t cells := by
  intro p hp
  obtain ⟨ty, hty, -⟩ := type_of_shown hcells hp
  exact (shows_of_shown js hcells hsurvive hp hty).filled

theorem hasId_of_survives : needsId rt t (submitted js rs s t cells) = false := by
  obtain ⟨cell, hshown⟩ := shown_of_column hcells idCol_mem
  obtain ⟨ty, hty, -⟩ := type_of_shown hcells hshown
  rw [needsId_iff (submitted_get? hcells hshown)]
  exact (shows_of_shown js hcells hsurvive hshown hty).id rfl

/-- A row of cells that survive is coerced. -/
theorem exists_coerced (hembeds : Embeds ch encode t) :
    ∃ r', coerceRow rt encode t (submitted js rs s t cells) = .ok r' := by
  have hall : ∀ p ∈ t.coerced, p ∈ t.schema ∧ (p.2 ≠ .floatArray → p.1 ∈ t.pageColumns) := by
    cases t <;> decide
  refine exists_coerceRow ?_ ?_
  · intro p hp hvector
    obtain ⟨hty, hcolumn⟩ := hall p hp
    obtain ⟨cell, hshown⟩ := shown_of_column hcells (hcolumn hvector)
    obtain ⟨v, hread, -⟩ := (shows_of_shown js hcells hsurvive hshown hty).read
    exact ⟨_, v, submitted_get? hcells hshown, hread⟩
  · intro target column hembedded
    obtain ⟨hcolumn, htypes⟩ := embedded_columns hembedded
    obtain ⟨text, hshown⟩ := text_of_column hcells hcolumn fun ty hty => (htypes _ hty).1 rfl
    obtain ⟨vector, hvector, -⟩ := hembeds target column hembedded _
    exact ⟨_, vector, submitted_get? hcells hshown, hvector⟩

/-- Each column of the coerced row is stored with the value of its cell. -/
theorem cell_of_survives (hlaws : ColumnLaws ch t) (hembeds : Embeds ch encode t)
    {r' : Dict Value} (hcoerce : coerceRow rt encode t (submitted js rs s t cells) = .ok r')
    {p : Str × Cell} (hp : p ∈ t.columns.zip cells) :
    ∃ w, ch.write p.1 (r'.getD p.1 .none) = some w ∧ CellKept ch encode t cells p.1 w p.2 := by
  obtain ⟨ty, hty, htyped, hwrite⟩ := type_of_cell hcells hp
  by_cases hcolumn : p.1 ∈ t.pageColumns
  · have hshown := mem_shown hp hcolumn
    obtain ⟨ty', hty', hvector, -⟩ := type_of_shown hcells hshown
    obtain rfl := type_unique hty hty'
    obtain ⟨v, hread, hsame⟩ := (shows_of_shown js hcells hsurvive hshown hty).read
    obtain ⟨v', hread', hv'⟩ := coerceRow_read hcoerce hty hvector (submitted_get? hcells hshown)
    rw [hread] at hread'
    cases hread'
    obtain ⟨w, hw, hkept⟩ := stored_of_sameValue hlaws hty hvector htyped hwrite hsame
    rw [Dict.getD, hv', Option.getD_some]
    exact ⟨w, hw, (cellKept_iff hcells hshown w).mpr hkept⟩
  · obtain rfl := not_mem_pageColumns hty hcolumn
    obtain ⟨column, hembedded⟩ := exists_embedded_of_vector hty
    obtain ⟨htext, htypes⟩ := embedded_columns hembedded
    obtain ⟨text, hshown⟩ := text_of_column hcells htext fun ty hty => (htypes _ hty).1 rfl
    obtain ⟨vector, hvector, haccepted⟩ := hembeds p.1 column hembedded text
    obtain ⟨w, hw⟩ := Option.isSome_iff_exists.mp haccepted
    have hkept : shownText js rs s t column (.string text) = text := by
      obtain ⟨ty, hty, -⟩ := type_of_shown hcells hshown
      obtain rfl : ty = .string := (htypes _ hty).1 rfl
      exact (shownText_string hty text).mpr (hsurvive _ hshown).1
    have hsent : (submitted js rs s t cells).get? column = some (.str text) := by
      rw [submitted_get? hcells hshown, hkept]
    rw [← assignId_of_hasId (hasId_of_survives js hcells hsurvive) 0] at hcoerce
    rw [Dict.getD, coerceRow_vector hcoerce hembedded hsent hvector, Option.getD_some]
    refine ⟨w, hw, ?_⟩
    obtain ⟨col, cell⟩ := p
    cases cell with
    | vector v =>
      refine ⟨column, text, vector, hembedded, ?_, hvector, hw⟩
      refine Dict.get?_of_mem ?_ (mem_zip_of_shown hshown)
      rw [Dict.keys_zip hcells.length]
      exact columns_nodup
    | _ => exact htyped.elim

end

end

/-! ## The whole table -/

section
variable {rt : Runtime} {ch : ClickHouse} {encode : Value → Except Exn Value} {t : AdminTable}

theorem prepareRows_coerced {m : ℕ} {rows rows' : List (Dict Value)}
    (h : prepareRows rt encode t m rows = .ok rows') :
    List.Forall₂ (fun r r' => ∃ m, coerceRow rt encode t (assignId rt t m r).2 = .ok r')
      rows rows' := by
  induction rows generalizing m rows' with
  | nil =>
    cases h
    exact .nil
  | cons r rows ih =>
    obtain ⟨r', hr, h⟩ := bind_ok h
    obtain ⟨rest, hrest, h⟩ := bind_ok h
    cases h
    exact .cons ⟨m, hr⟩ (ih hrest)

theorem exists_prepareRows {rows : List (Dict Value)}
    (h : ∀ r ∈ rows, needsId rt t r = false ∧ ∃ r', coerceRow rt encode t r = .ok r') (m : ℕ) :
    ∃ rows', prepareRows rt encode t m rows = .ok rows' := by
  induction rows generalizing m with
  | nil => exact ⟨[], rfl⟩
  | cons r rows ih =>
    obtain ⟨hid, r', hr⟩ := h r List.mem_cons_self
    obtain ⟨rest, hrest⟩ := ih (fun x hx => h x (List.mem_cons_of_mem r hx)) (assignId rt t m r).1
    rw [← assignId_of_hasId hid m] at hr
    refine ⟨r' :: rest, ?_⟩
    rw [prepareRows, hr]
    simp only [bind, Except.bind, hrest]

theorem carries_submitted {js : JavaScript rt} {rs : References} {s : Session} {cells : List Cell}
    (h : RowHolds rt ch t cells) {c : Str} (hc : c ∈ t.columns) :
    t.Carries (submitted js rs s t cells) c := by
  rw [AdminTable.Carries, submitted_keys h]
  by_cases hcolumn : c ∈ t.pageColumns
  · exact Or.inl hcolumn
  · obtain ⟨⟨c, ty⟩, hty, rfl⟩ := List.mem_map.mp hc
    obtain rfl := not_mem_pageColumns hty hcolumn
    obtain ⟨column, hembedded⟩ := exists_embedded_of_vector hty
    exact Or.inr (Or.inr ⟨column, hembedded, (embedded_columns hembedded).1⟩)

/-- An insert of what the page sends is in columns of the table, and in all. -/
theorem insertColumns_submitted {js : JavaScript rt} {rs : References} {s : Session}
    {contents : List (List Cell)} (hrows : ∀ cells ∈ contents, RowHolds rt ch t cells) {m : ℕ}
    {rows : List (Dict Value)}
    (h : prepareRows rt encode t m (contents.map (submitted js rs s t)) = .ok rows) :
    (∀ c ∈ insertColumns rows, c ∈ t.columns) ∧
      ∀ r ∈ rows, ∀ c ∈ t.columns, c ∈ insertColumns rows := by
  have hprepares := prepareRows_prepares h
  rw [List.forall₂_map_left_iff] at hprepares
  cases hprepares with
  | nil => exact ⟨nofun, nofun⟩
  | @cons cells r' contents rows hr _ =>
    have hcells := hrows cells List.mem_cons_self
    constructor
    · intro c hc
      have hcarried := (hr.keys c).mp hc
      rw [AdminTable.Carries, submitted_keys hcells] at hcarried
      rcases hcarried with hcolumn | hgiven | ⟨column, hembedded, -⟩
      · exact (List.mem_filter.mp (List.mem_filter.mp hcolumn).1).1
      · have hall : ∀ c ∈ t.given, c ∈ t.columns := by
          cases t <;> decide
        exact hall c hgiven
      · cases t <;> cases hembedded <;> decide
    · exact fun r _ c hc => (hr.keys c).mpr (carries_submitted hcells hc)

/-- The stored rows, column by column. -/
theorem stores_of_storeRows {rows : List (Dict Value)} {stored : List Row}
    (hcols : ∀ r ∈ rows, ∀ c ∈ t.columns, c ∈ insertColumns rows)
    (h : storeRows ch t.columns (insertColumns rows) (insertData rows) = some stored) :
    List.Forall₂ (Stores ch t) rows stored := by
  obtain ⟨hlength, hrows⟩ := rows_of_storeRows h
  rw [List.forall₂_iff_get]
  refine ⟨hlength.symm, fun i hi hi' c hc => ?_⟩
  have hrow := hrows i _ _ (List.getElem?_eq_getElem hi) (List.getElem?_eq_getElem hi')
  obtain ⟨w, -, hcell⟩ := Dict.get?_zip_mapM hrow hc
  have hwritten := cell_of_storeRow hrow hc
  rw [if_pos (hcols _ (List.getElem_mem hi) c hc), hcell] at hwritten
  exact ⟨w, hcell, hwritten.symm⟩

theorem exists_storeRows {rows : List (Dict Value)}
    (hcols : ∀ r ∈ rows, ∀ c ∈ t.columns, c ∈ insertColumns rows)
    (h : ∀ r ∈ rows, ∀ c ∈ t.columns, (ch.write c (r.getD c .none)).isSome = true) :
    ∃ stored, storeRows ch t.columns (insertColumns rows) (insertData rows) = some stored := by
  refine exists_mapM_some fun vals hvals => ?_
  obtain ⟨r, hr, rfl⟩ := List.mem_map.mp hvals
  refine Option.isSome_iff_exists.mpr (exists_mapM_some fun c hc => ?_)
  rw [Dict.get?_zip_map _ (hcols r hr c hc)]
  exact h r hr c hc

/-- A vector is not shown, and is none the worse for it. -/
theorem survives_iff_shown {rs : References} {s : Session} {cells : List Cell}
    (h : RowHolds rt ch t cells) :
    (∀ p ∈ t.columns.zip cells, Survives rs s t p.1 p.2) ↔
      ∀ p ∈ t.shown cells, Survives rs s t p.1 p.2 := by
  refine ⟨fun hall p hp => hall p (mem_zip_of_shown hp), fun hall p hp => ?_⟩
  by_cases hcolumn : p.1 ∈ t.pageColumns
  · exact hall p (mem_shown hp hcolumn)
  · obtain ⟨ty, hty, htyped, -⟩ := type_of_cell h hp
    obtain rfl := not_mem_pageColumns hty hcolumn
    obtain ⟨col, cell⟩ := p
    cases cell with
    | vector v => trivial
    | _ => exact htyped.elim

variable {js : JavaScript rt} {b : Browser} {db : Database} {s : Session}
  {contents : List (List Cell)}
  (hlaws : ColumnLaws ch t) (hrows : ∀ cells ∈ contents, RowHolds rt ch t cells)
  (hdb : db t.name = some (t.holding contents))
include hlaws hrows hdb

/-- A save of cells that survive is accepted, and stores them as they were. -/
theorem unchanged_of_survives (hoptions : PlainOptions (loadedSession rt ch db s t) t)
    (hembeds : Embeds ch encode t)
    (hshadow : contents = [] ∨ db t.tempName = none)
    (hsurvive : ∀ cells ∈ contents, ∀ p ∈ t.shown cells,
      Survives b.toReferences (loadedSession rt ch db s t) t p.1 p.2) :
    Unchanged rt ch db s t js b encode contents := by
  obtain ⟨page, hpage⟩ := @exists_loadedPage rt ch t db s contents hrows js hdb fun cells hcells =>
    parsed_of_survives (hrows cells hcells) (hsurvive cells hcells)
  obtain ⟨htable, helements, -⟩ := loadedPage_rows hrows hdb hpage
  have hfilled : ∀ cells ∈ contents, Filled js b.toReferences (loadedSession rt ch db s t) t cells :=
    fun cells hcells => filled_of_survives js (hrows cells hcells) (hsurvive cells hcells)
  have hsent := (saveData_iff hrows hoptions htable helements).mpr ⟨hfilled, rfl⟩
  generalize loadedSession rt ch db s t = session at *
  have hid : ∀ cells ∈ contents, needsId rt t (submitted js b.toReferences session t cells) = false :=
    fun cells hcells => hasId_of_survives js (hrows cells hcells) (hsurvive cells hcells)
  obtain ⟨rows, hprepared⟩ : ∃ rows, prepareRows rt encode t (tableMax rt t (t.holding contents))
      (contents.map (submitted js b.toReferences session t)) = .ok rows := by
    refine exists_prepareRows (List.forall_mem_map.mpr fun cells hcells => ⟨hid cells hcells, ?_⟩) _
    exact exists_coerced js (hrows cells hcells) (hsurvive cells hcells) hembeds
  obtain ⟨hsub, hcols⟩ := insertColumns_submitted hrows hprepared
  -- each cell of a coerced row can be written, and is then what it was
  have hcoerced : List.Forall₂ (fun cells r => ∀ p ∈ t.columns.zip cells, ∃ w,
      ch.write p.1 (r.getD p.1 .none) = some w ∧ CellKept ch encode t cells p.1 w p.2)
      contents rows := by
    have hprepares := prepareRows_coerced hprepared
    rw [List.forall₂_map_left_iff] at hprepares
    have hmem := (List.forall₂_and_left contents rows).mpr ⟨fun _ hcells => hcells, hprepares⟩
    refine List.Forall₂.imp ?_ hmem
    rintro cells r ⟨hcells, m, hr⟩ p hp
    rw [assignId_of_hasId (hid cells hcells)] at hr
    exact cell_of_survives js (hrows cells hcells) (hsurvive cells hcells) hlaws hembeds hr hp
  obtain ⟨stored, hstored⟩ := @exists_storeRows ch t rows hcols fun r hr c hc => by
    obtain ⟨cells, hcells, hcell⟩ := mem_of_forall₂ hcoerced hr
    rw [← Dict.keys_zip (hrows cells hcells).length] at hc
    obtain ⟨p, hp, rfl⟩ := List.mem_map.mp hc
    obtain ⟨w, hw, -⟩ := hcell p hp
    rw [hw]
    rfl
  have hvalid : Valid rt ch db t ⟨⟨t.name, contents.map (submitted js b.toReferences session t)⟩, encode⟩
      (t.holding contents) rows stored :=
    ⟨AdminTable.ofName?_name t, hdb, hprepared, hsub, hstored⟩
  refine ⟨page, _, stored, hpage, hsent, ?_, ?_⟩
  · rcases hshadow with rfl | habsent
    · cases hprepared
      exact succeeds_of_nil hvalid
    · exact succeeds_of_absent hvalid habsent
  · refine List.Forall₂.imp ?_ (forall₂_comp hcoerced (stores_of_storeRows hcols hstored))
    rintro cells row ⟨r, hcell, hstores⟩ p hp
    obtain ⟨w, hw, hkept⟩ := hcell p hp
    obtain ⟨w', hw', hwritten⟩ := hstores p.1 (List.of_mem_zip hp).1
    rw [hw] at hwritten
    cases hwritten
    exact ⟨w, hw', hkept⟩

/-- Where a save was accepted and stored the rows as they were, the shadow
table was not in its way and every cell survives. -/
theorem survives_of_unchanged (hoptions : PlainOptions (loadedSession rt ch db s t) t)
    (h : Unchanged rt ch db s t js b encode contents) :
    (contents = [] ∨ db t.tempName = none) ∧ ∀ cells ∈ contents, ∀ p ∈ t.shown cells,
      Survives b.toReferences (loadedSession rt ch db s t) t p.1 p.2 := by
  obtain ⟨page, data, stored, hpage, hsent, hsuccess, hkept⟩ := h
  obtain ⟨htable, helements, hparsed⟩ := loadedPage_rows hrows hdb hpage
  obtain ⟨hfilled, rfl⟩ := (saveData_iff hrows hoptions htable helements).mp hsent
  generalize loadedSession rt ch db s t = session at *
  obtain ⟨rows, stored', hprepared, hsub, hstored, hafter⟩ :=
    stores_of_success (AdminTable.ofName?_name t) hdb hsuccess.1
  obtain rfl : stored = stored' := by
    have hboth := hsuccess.2.symm.trans hafter
    cases hboth
    rfl
  obtain ⟨-, hcols⟩ := insertColumns_submitted hrows hprepared
  have hprepares := prepareRows_coerced hprepared
  rw [List.forall₂_map_left_iff] at hprepares
  constructor
  · by_contra hshadow
    rw [not_or] at hshadow
    have hvalid : Valid rt ch db t ⟨⟨t.name, contents.map (submitted js b.toReferences session t)⟩, encode⟩
        (t.holding contents) rows stored :=
      ⟨AdminTable.ofName?_name t, hdb, hprepared, hsub, hstored⟩
    refine not_succeeds_of_present hvalid ?_ hshadow.2 hsuccess
    rintro rfl
    exact hshadow.1 (List.forall₂_nil_right_iff.mp hprepares)
  · intro cells hcells
    have hstores := forall₂_comp hprepares (stores_of_storeRows hcols hstored)
    have hrow : List.Forall₂ (fun row cells => RowKept ch encode t cells row ∧ ∃ r,
        (∃ m, coerceRow rt encode t
          (assignId rt t m (submitted js b.toReferences session t cells)).2 = .ok r) ∧
          Stores ch t r row) stored contents :=
      (List.Forall₂.mp (fun _ _ => And.intro) hkept hstores).flip
    obtain ⟨row, -, hkeptRow, r, ⟨m, hr⟩, hstoresRow⟩ := mem_of_forall₂ hrow hcells
    exact survives_of_kept hlaws (hrows cells hcells) (hparsed cells hcells)
      (hfilled cells hcells) hr hstoresRow hkeptRow

end

/-- **When loading and saving changes nothing.** A stored table that is loaded
into the page and saved as it is, with no markup in the options offered, comes
back with every value as it was exactly if every cell survives the page, and no
shadow table is in the way of a save with rows. -/
theorem load_save_iff (rt : Runtime) (ch : ClickHouse) (db : Database) (s : Session)
    (t : AdminTable) (js : JavaScript rt) (b : Browser) (encode : Value → Except Exn Value)
    (contents : List (List Cell)) (hlaws : ColumnLaws ch t) (hembeds : Embeds ch encode t)
    (hrows : ∀ cells ∈ contents, RowHolds rt ch t cells)
    (hdb : db t.name = some (t.holding contents))
    (hoptions : PlainOptions (loadedSession rt ch db s t) t) :
    Unchanged rt ch db s t js b encode contents ↔
      (contents = [] ∨ db t.tempName = none) ∧ ∀ cells ∈ contents, ∀ p ∈ t.columns.zip cells,
        Survives b.toReferences (loadedSession rt ch db s t) t p.1 p.2 := by
  have hshown : (∀ cells ∈ contents, ∀ p ∈ t.columns.zip cells,
      Survives b.toReferences (loadedSession rt ch db s t) t p.1 p.2) ↔ ∀ cells ∈ contents,
        ∀ p ∈ t.shown cells, Survives b.toReferences (loadedSession rt ch db s t) t p.1 p.2 :=
    forall₂_congr fun cells hcells => survives_iff_shown (hrows cells hcells)
  rw [hshown]
  constructor
  · exact survives_of_unchanged hlaws hrows hdb hoptions
  · rintro ⟨hshadow, hsurvive⟩
    exact unchanged_of_survives hlaws hrows hdb hoptions hembeds hshadow hsurvive

/-! ## A policy with an apostrophe in a tag -/

def basicReferences : References where
  refer name after :=
    if after ≠ .semicolon then none
    else if name = "#39" then some (['\''], 4)
    else if name = "quot" then some (['"'], 5)
    else if name = "amp" then some (['&'], 4)
    else none
  refer_apos := rfl
  refer_quot := rfl
  refer_length := by
    intro name after text n h
    split_ifs at h with hafter hapos hquot hamp
    all_goals
      cases h
      rw [not_not] at hafter
      subst name after
      decide

def basicBrowser : Browser where
  toReferences := basicReferences
  found col options := [(col, selectedValue basicReferences options)]
  found_plain _ _ _ := rfl

theorem natural_of_isDouble {q : ℚ} (h : IsDouble Runtime.ascii q) : ∃ n : ℕ, q = n := by
  obtain ⟨s, hs⟩ := h
  simp only [Runtime.ascii] at hs
  split at hs
  · cases hs
  · cases hs
    exact ⟨_, rfl⟩

def wholeNumbers : JavaScript Runtime.ascii where
  numberText q := intStr q.num
  numberText_int n _ := by rw [Rat.num_intCast]
  isNumber_numberText _ _ := isNumber_intStr _
  floatOfStr_numberText q h := by
    obtain ⟨n, rfl⟩ := natural_of_isDouble h
    have hdigits : (natStr n).all Char.isDigit = true :=
      List.all_eq_true.mpr fun _ => isDigit_of_mem_natStr
    have hne : (natStr n).isEmpty = false := by
      rw [List.isEmpty_eq_false_iff]
      exact Nat.toDigits_ne_nil
    have hvalue : natOfDigits (natStr n) = n := by
      rw [natStr_eq]
      exact natOfDigits_padded 0 n
    have htext : intStr (n : ℚ).num = natStr n := by
      rw [Rat.num_natCast]
      rfl
    simp only [Runtime.ascii, htext, hdigits, hne, hvalue]
    rfl

def taggedPolicy (tags : List Str) : List Cell :=
  [.string "TOS-001", .string "Return & Replacement Policy", .string "returns", .strings tags,
    .date 2024 1 1, .date 2025 3 1, .string "A 7-day return window from the date of delivery."]

def taggedDatabase (tags : List Str) : Database :=
  setTable (fun _ => none) "company_tos" (some (AdminTable.companyTos.holding [taggedPolicy tags]))

def taggedEncode (_ : Value) : Except Exn Value := .error ⟨"no text to encode"⟩

theorem typedClickHouse_laws (t : AdminTable) : ColumnLaws typedClickHouse t where
  string _ _ _ _ h := typedClickHouse_write h
  strings _ _ _ _ h := typedClickHouse_write h
  map _ _ kvs _ h := ⟨kvs, typedClickHouse_write h, List.Perm.refl kvs⟩
  order c _ kvs kvs' hperm h := by
    have htakes : (CellType.ofColumn c).takes (.dict kvs') = (CellType.ofColumn c).takes (.dict kvs) := by
      cases CellType.ofColumn c with
      | map => exact hperm.symm.all_eq
      | _ => rfl
    simp only [typedClickHouse, htakes, Option.isSome_ite] at h ⊢
    exact h

theorem taggedPolicy_holds (tags : List Str) :
    ∀ cells ∈ [taggedPolicy tags], RowHolds Runtime.ascii typedClickHouse .companyTos cells := by
  intro cells hcells
  rw [List.mem_singleton.mp hcells]
  have heffective : (Cell.date 2024 1 1).HasType Runtime.ascii .date := by
    rw [Cell.HasType]
    decide
  have hupdated : (Cell.date 2025 3 1).HasType Runtime.ascii .date := by
    rw [Cell.HasType]
    decide
  have htags : typedClickHouse.write "tags" (Cell.strings tags).value =
      some (Cell.strings tags).value := by
    have htexts : (CellType.ofColumn "tags").takes (.list (tags.map .str)) = true := by
      show (tags.map Value.str).all _ = true
      rw [List.all_map, List.all_eq_true]
      exact fun _ _ => rfl
    exact if_pos htexts
  exact .cons ⟨trivial, rfl⟩ (.cons ⟨trivial, rfl⟩ (.cons ⟨trivial, rfl⟩ (.cons ⟨trivial, htags⟩
    (.cons ⟨heffective, rfl⟩ (.cons ⟨hupdated, rfl⟩ (.cons ⟨trivial, rfl⟩ .nil))))))

theorem taggedPolicy_survives {tags : List Str} (h : TagsKept basicReferences tags) (s : Session) :
    ∀ p ∈ AdminTable.companyTos.columns.zip (taggedPolicy tags),
      Survives basicReferences s .companyTos p.1 p.2 := by
  have hid : InputKeeps basicReferences "TOS-001" := ⟨⟨rfl, by decide⟩, by decide⟩
  have htitle : InputKeeps basicReferences "Return & Replacement Policy" :=
    ⟨⟨rfl, by decide⟩, by decide⟩
  have hcategory : SelectKeeps basicReferences
      ["returns", "refunds", "shipping", "warranty", "privacy", "account", "loyalty", "support"]
      "returns" := Or.inl ⟨by decide, rfl, by decide⟩
  have hcontent : InputKeeps basicReferences "A 7-day return window from the date of delivery." :=
    ⟨⟨rfl, by decide⟩, by decide⟩
  simp only [AdminTable.columns, AdminTable.schema, taggedPolicy, List.map_cons, List.map_nil,
    List.zip_cons_cons, List.zip_nil_right, List.forall_mem_cons]
  refine ⟨⟨hid, by decide, fun _ => ⟨by decide, by decide⟩⟩, ⟨htitle, by decide, ?_⟩,
    ⟨hcategory, by decide, ?_⟩, h, trivial, trivial, ⟨hcontent, by decide, ?_⟩,
    List.forall_mem_nil _⟩
  all_goals exact fun hcol => absurd hcol (by decide)

/-- The categories of policies are the page's own. -/
theorem plainOptions_companyTos (s : Session) : PlainOptions s .companyTos := by
  intro col _ options hselect
  simp only [selectOptions, reduceCtorEq, false_and, true_and, if_false] at hselect
  split at hselect
  · obtain rfl := Option.some.inj hselect
    decide
  · cases hselect

/-- A policy whose tags have no apostrophe comes back as it was. -/
theorem load_save_iff_tagged :
    Unchanged Runtime.ascii typedClickHouse (taggedDatabase ["return", "7-day"]) Session.initial
      .companyTos wholeNumbers basicBrowser taggedEncode [taggedPolicy ["return", "7-day"]] := by
  have hiff := load_save_iff Runtime.ascii typedClickHouse (taggedDatabase ["return", "7-day"])
    Session.initial .companyTos wholeNumbers basicBrowser taggedEncode
    [taggedPolicy ["return", "7-day"]] (typedClickHouse_laws _) nofun (taggedPolicy_holds _) rfl
    (plainOptions_companyTos _)
  have htags : TagsKept basicReferences ["return", "7-day"] := by
    refine ⟨List.forall_mem_cons.mpr ⟨?_, List.forall_mem_singleton.mpr ?_⟩, rfl⟩
    · exact ⟨⟨by decide, by decide, by decide⟩, by decide, ⟨rfl, by decide⟩, by decide⟩
    · exact ⟨⟨by decide, by decide, by decide⟩, by decide, ⟨rfl, by decide⟩, by decide⟩
  exact hiff.mpr ⟨Or.inr rfl, List.forall_mem_singleton.mpr (taggedPolicy_survives htags _)⟩

/-- The quotes of a tag are not escaped: the apostrophe ends the value. -/
theorem apostrophe_cuts_tags :
    (∀ cells ∈ [taggedPolicy ["buyer's remorse"]],
      RowHolds Runtime.ascii typedClickHouse .companyTos cells) ∧
    ColumnLaws typedClickHouse .companyTos ∧ Embeds typedClickHouse taggedEncode .companyTos ∧
    taggedDatabase ["buyer's remorse"] AdminTable.companyTos.name =
      some (AdminTable.companyTos.holding [taggedPolicy ["buyer's remorse"]]) ∧
    PlainOptions (loadedSession Runtime.ascii typedClickHouse (taggedDatabase ["buyer's remorse"])
      Session.initial .companyTos) .companyTos ∧
    ¬ Unchanged Runtime.ascii typedClickHouse (taggedDatabase ["buyer's remorse"]) Session.initial
      .companyTos wholeNumbers basicBrowser taggedEncode [taggedPolicy ["buyer's remorse"]] := by
  refine ⟨taggedPolicy_holds _, typedClickHouse_laws _, nofun, rfl, plainOptions_companyTos _,
    fun h => ?_⟩
  have hshown : (("tags" : Str), Cell.strings ["buyer's remorse"]) ∈
      AdminTable.companyTos.shown (taggedPolicy ["buyer's remorse"]) :=
    .tail _ (.tail _ (.tail _ (.head _)))
  have htags : TagsKept basicReferences ["buyer's remorse"] :=
    (survives_of_unchanged (typedClickHouse_laws _) (taggedPolicy_holds _) rfl
      (plainOptions_companyTos _) h).2 _ List.mem_cons_self
      _ hshown
  exact absurd (htags.tag _ List.mem_cons_self).2.1 (by decide)

end TechMart.Admin
