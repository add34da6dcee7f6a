import TechMart.Admin.Cells
import TechMart.Admin.Live

/-!
# A table in the page

What the page shows of a stored table and sends of it. `loadedPage_rows` gives
the elements, row by row, and `saveData_iff` the request made of them.
-/

namespace TechMart.Admin

open Python Sql Web.Attribute

/-- A row: a cell for each column, as the column stores it. -/
def RowHolds (rt : Runtime) (ch : ClickHouse) (t : AdminTable) (cells : List Cell) : Prop :=
  List.Forall₂ (fun p cell => cell.HasType rt p.2 ∧ ch.write p.1 cell.value = some cell.value)
    t.schema cells

/-- The table with this content. -/
def AdminTable.holding (t : AdminTable) (contents : List (List Cell)) : Table :=
  ⟨t.columns, contents.map fun cells => cells.map Cell.value⟩

section
variable (rt : Runtime) (ch : ClickHouse) (db : Database)

/-- What the page gets for a table. -/
def fetched (table : Str) : Option Loaded :=
  Loaded.ofAnswer rt (runHandler ch (fun _ => .none) db (getData table)).outcome

variable (s : Session) (t : AdminTable)

/-- What the page keeps once the table is loaded into it. -/
def loadedSession : Session :=
  match fetched rt ch db t.name with
  | some result => s.load t (fetched rt ch db AdminTable.companyTos.name) result
  | none => s

/-- The page once the table is loaded into it. -/
def loadedPage (js : JavaScript rt) : Option Page :=
  (fetched rt ch db t.name).map
    (loadData js s t (fetched rt ch db AdminTable.companyTos.name))

end

/-! ## The page -/

/-- The cells of a row that the page shows. -/
def AdminTable.shown (t : AdminTable) (cells : List Cell) : Dict Cell :=
  Dict.pop (Dict.pop (t.columns.zip cells) "embedding") "question_embedding"

def AdminTable.pageColumns (t : AdminTable) : List Str :=
  (t.columns.filter fun c => c ≠ ("embedding" : Str)).filter fun c => c ≠ ("question_embedding" : Str)

section
variable {rt : Runtime} {ch : ClickHouse} {t : AdminTable}

theorem mem_zip_of_shown {cells : List Cell} {p : Str × Cell} (hp : p ∈ t.shown cells) :
    p ∈ t.columns.zip cells := by
  simp only [AdminTable.shown, Dict.pop, List.mem_filter] at hp
  exact hp.1.1

theorem mem_shown {cells : List Cell} {p : Str × Cell} (hp : p ∈ t.columns.zip cells)
    (hcolumn : p.1 ∈ t.pageColumns) : p ∈ t.shown cells := by
  simp only [AdminTable.pageColumns, List.mem_filter, decide_eq_true_eq] at hcolumn
  simp only [AdminTable.shown, Dict.pop, List.mem_filter, decide_eq_true_eq]
  exact ⟨⟨hp, hcolumn.1.2⟩, hcolumn.2⟩

theorem columns_nodup : t.columns.Nodup := by
  cases t <;> decide

theorem pageColumns_nodup : t.pageColumns.Nodup :=
  (columns_nodup.filter _).filter _

theorem RowHolds.length {cells : List Cell} (h : RowHolds rt ch t cells) :
    cells.length = t.columns.length := by
  rw [AdminTable.columns, List.length_map]
  exact (List.Forall₂.length_eq h).symm

theorem shown_keys {cells : List Cell} (h : RowHolds rt ch t cells) :
    (t.shown cells).keys = t.pageColumns := by
  rw [AdminTable.shown, Dict.keys_pop, Dict.keys_pop, Dict.keys_zip h.length, AdminTable.pageColumns]

/-- A row of the page is what it shows of the cells. -/
theorem pageRow_cells {cells : List Cell} (h : RowHolds rt ch t cells) :
    pageRow t.columns (cells.map Cell.value) = (t.shown cells).map fun p => (p.1, p.2.value) := by
  have hkeys : (Dict.keys (t.columns.zip (cells.map Cell.value))).Nodup := by
    rw [Dict.keys_zip (by rw [List.length_map, h.length])]
    exact columns_nodup
  rw [pageRow, Dict.ofPairs_of_nodup hkeys, List.zip_map_right, AdminTable.shown]
  simp only [Dict.pop, List.filter_map]
  rfl

theorem type_of_cell {cells : List Cell} (h : RowHolds rt ch t cells) {p : Str × Cell}
    (hp : p ∈ t.columns.zip cells) : ∃ ty, (p.1, ty) ∈ t.schema ∧ p.2.HasType rt ty ∧
      ch.write p.1 p.2.value = some p.2.value := by
  unfold RowHolds at h
  rw [AdminTable.columns] at hp
  generalize t.schema = schema at h hp ⊢
  induction h with
  | nil => cases hp
  | cons hhead _ ih =>
    rw [List.map_cons, List.zip_cons_cons] at hp
    rcases List.mem_cons.mp hp with rfl | hp
    · exact ⟨_, List.mem_cons_self, hhead⟩
    · obtain ⟨ty, hty, hholds⟩ := ih hp
      exact ⟨ty, List.mem_cons_of_mem _ hty, hholds⟩

/-- The type of a cell that the page shows. -/
theorem type_of_shown {cells : List Cell} (h : RowHolds rt ch t cells) {p : Str × Cell}
    (hp : p ∈ t.shown cells) : ∃ ty, (p.1, ty) ∈ t.schema ∧ ty ≠ .floatArray ∧
      p.2.HasType rt ty ∧ ch.write p.1 p.2.value = some p.2.value := by
  simp only [AdminTable.shown, Dict.pop, List.mem_filter, decide_eq_true_eq] at hp
  obtain ⟨⟨hzip, hembedding⟩, hquestion⟩ := hp
  obtain ⟨ty, hty, hholds⟩ := type_of_cell h hzip
  refine ⟨ty, hty, ?_, hholds⟩
  have hvectors : ∀ q ∈ t.schema, q.2 = .floatArray →
      q.1 = ("embedding" : Str) ∨ q.1 = ("question_embedding" : Str) := by
    cases t <;> decide
  rintro rfl
  exact (hvectors _ hty rfl).elim hembedding hquestion

/-- A row that was parsed, looked up by its columns. -/
theorem lookups_of_row {β : Type} {d : Dict Value} {row : Dict JsValue} (hkeys : d.keys.Nodup)
    (h : Loaded.row rt d = some row) (f : Str → Option JsValue → β) :
    d.keys.map (fun c => f c (row.get? c)) = d.map (fun kv => f kv.1 (JsValue.ofValue rt kv.2)) ∧
      ∀ kv ∈ d, (JsValue.ofValue rt kv.2).isSome = true := by
  have hparsed : ∀ {d : Dict Value} {row : Dict JsValue},
      List.Forall₂ (fun kv kv' => (JsValue.ofValue rt kv.2).map (fun v => (kv.1, v)) = some kv')
        d row →
      row.keys = d.keys ∧ (row.map fun kv => f kv.1 (some kv.2)) =
        d.map (fun kv => f kv.1 (JsValue.ofValue rt kv.2)) ∧
      ∀ kv ∈ d, (JsValue.ofValue rt kv.2).isSome = true := by
    intro d row h
    induction h with
    | nil => exact ⟨rfl, rfl, List.forall_mem_nil _⟩
    | @cons kv kv' d row hhead _ ih =>
      obtain ⟨v, hv, rfl⟩ := Option.map_eq_some_iff.mp hhead
      obtain ⟨hrest, hmap, hsome⟩ := ih
      refine ⟨by rw [Dict.keys_cons, Dict.keys_cons, hrest], ?_, ?_⟩
      · rw [List.map_cons, List.map_cons, hmap, hv]
      · exact List.forall_mem_cons.mpr ⟨by rw [hv]; rfl, hsome⟩
  obtain ⟨hrow, hmap, hsome⟩ := hparsed (forall₂_of_mapM h)
  rw [← hrow] at hkeys ⊢
  exact ⟨(Dict.map_keys_get? hkeys f).trans hmap, hsome⟩

/-- The elements of a row of the page. -/
def elements (js : JavaScript rt) (s : Session) (t : AdminTable) (cells : List Cell) : List Control :=
  (t.shown cells).map fun p => getInputElement js s t p.1 (JsValue.ofValue rt p.2.value)

/-- All cells that are shown can be parsed by the page. -/
def Parsed (rt : Runtime) (t : AdminTable) (cells : List Cell) : Prop :=
  ∀ p ∈ t.shown cells, (JsValue.ofValue rt p.2.value).isSome = true

variable {db : Database} {s : Session} {contents : List (List Cell)}

theorem elements_of_row {js : JavaScript rt} {cells : List Cell} {row : Dict JsValue}
    (hcells : RowHolds rt ch t cells)
    (h : Loaded.row rt ((t.shown cells).map fun p => (p.1, p.2.value)) = some row) :
    (t.pageColumns.map fun c => getInputElement js s t c (row.get? c)) = elements js s t cells ∧
      Parsed rt t cells := by
  have hkeys : Dict.keys ((t.shown cells).map fun p => (p.1, p.2.value)) = t.pageColumns := by
    rw [← shown_keys hcells]
    simp only [Dict.keys, List.map_map]
    rfl
  obtain ⟨hlookups, hsome⟩ := lookups_of_row (hkeys ▸ pageColumns_nodup) h (getInputElement js s t)
  rw [hkeys, List.map_map] at hlookups
  refine ⟨hlookups, fun p hp => ?_⟩
  exact hsome (p.1, p.2.value) (List.mem_map_of_mem hp)

theorem fetched_holding (hdb : db t.name = some (t.holding contents)) :
    fetched rt ch db t.name = Loaded.ofAnswer rt (.ok (pageData (t.holding contents))) := by
  have hconnect : exec ch db .connect = .ok (⟨[], []⟩, db) := rfl
  have hselect : exec ch db (.selectAll t.name) = .ok (t.holding contents, db) := by
    simp only [exec, hdb]
  rw [fetched, getData, Prog.perform_bind, runHandler_none _ hconnect]
  simp only [Prog.andThen, AdminTable.ofName?_name, Prog.perform_bind]
  rw [runHandler_none _ hselect]
  rfl

section
variable (hrows : ∀ cells ∈ contents, RowHolds rt ch t cells)
include hrows

theorem pageData_holding : (pageData (t.holding contents)).data =
    contents.map fun cells => (t.shown cells).map fun p => (p.1, p.2.value) := by
  rw [pageData, AdminTable.holding, List.map_map]
  exact List.map_congr_left fun cells hcells => pageRow_cells (hrows cells hcells)

theorem pageData_columns (hne : contents ≠ []) :
    (pageData (t.holding contents)).columns = t.pageColumns := by
  obtain ⟨cells, rest, rfl⟩ := List.exists_cons_of_ne_nil hne
  have hrow := hrows cells List.mem_cons_self
  rw [pageData, AdminTable.holding, List.map_cons, List.map_cons]
  show (pageRow t.columns (cells.map Cell.value)).keys = t.pageColumns
  rw [pageRow_cells hrow, ← shown_keys hrow]
  simp only [Dict.keys, List.map_map]
  rfl

/-- The page shows the elements of every row. -/
theorem loadedPage_rows {js : JavaScript rt} {page : Page}
    (hdb : db t.name = some (t.holding contents)) (h : loadedPage rt ch db s t js = some page) :
    page.table = t ∧ page.rows = contents.map (elements js (loadedSession rt ch db s t) t) ∧
      ∀ cells ∈ contents, Parsed rt t cells := by
  obtain ⟨result, hresult, rfl⟩ := Option.map_eq_some_iff.mp h
  have hsession : loadedSession rt ch db s t =
      s.load t (fetched rt ch db AdminTable.companyTos.name) result := by
    rw [loadedSession, hresult]
  rw [fetched_holding hdb, Loaded.ofAnswer] at hresult
  obtain ⟨data, hdata, rfl⟩ := Option.map_eq_some_iff.mp hresult
  have hparsed := forall₂_of_mapM hdata
  rw [pageData_holding hrows, List.forall₂_map_left_iff] at hparsed
  rw [loadData, ← hsession]
  by_cases hnil : contents = []
  · subst hnil
    cases hparsed
    refine ⟨?_, ?_, List.forall_mem_nil _⟩
    · split <;> rfl
    · split <;> rfl
  · have hcolumns := pageData_columns hrows hnil
    have hne : (pageData (t.holding contents)).columns ≠ [] := by
      rw [hcolumns]
      cases t <;> decide
    rw [if_neg hne, hcolumns]
    generalize loadedSession rt ch db s t = session
    clear hdata hresult hsession h hdb hcolumns hne hnil
    refine ⟨rfl, ?_⟩
    show data.map _ = _ ∧ _
    induction hparsed with
    | nil => exact ⟨rfl, List.forall_mem_nil _⟩
    | cons hhead _ ih =>
      obtain ⟨hrow, hsome⟩ := elements_of_row (hrows _ List.mem_cons_self) hhead
      obtain ⟨hrest, hall⟩ := ih fun cells hcells => hrows cells (List.mem_cons_of_mem _ hcells)
      rw [List.map_cons, List.map_cons, hrow, hrest]
      exact ⟨rfl, List.forall_mem_cons.mpr ⟨hsome, hall⟩⟩

theorem exists_loadedPage {js : JavaScript rt} (hdb : db t.name = some (t.holding contents))
    (h : ∀ cells ∈ contents, Parsed rt t cells) : ∃ page, loadedPage rt ch db s t js = some page := by
  have hdata : ∃ data, (pageData (t.holding contents)).data.mapM (Loaded.row rt) = some data := by
    refine exists_mapM_some fun row hrow => ?_
    rw [pageData_holding hrows] at hrow
    obtain ⟨cells, hcells, rfl⟩ := List.mem_map.mp hrow
    refine Option.isSome_iff_exists.mpr (exists_mapM_some fun kv hkv => ?_)
    obtain ⟨p, hp, rfl⟩ := List.mem_map.mp hkv
    rw [Option.isSome_map]
    exact h cells hcells p hp
  obtain ⟨data, hdata⟩ := hdata
  rw [loadedPage, fetched_holding hdb, Loaded.ofAnswer, hdata]
  exact ⟨_, rfl⟩

end

/-! ## The request -/

/-- The row that is sent for the cells of a row. -/
def submitted (js : JavaScript rt) (rs : References) (s : Session) (t : AdminTable)
    (cells : List Cell) : Dict Value :=
  (t.shown cells).map fun p => (p.1, .str (shownText js rs s t p.1 p.2))

/-- No text is missing in a row. -/
def Filled (js : JavaScript rt) (rs : References) (s : Session) (t : AdminTable)
    (cells : List Cell) : Prop :=
  ∀ p ∈ t.shown cells, (mayBeEmpty p.1 || !isBlank (shownText js rs s t p.1 p.2)) = true

variable {js : JavaScript rt} {rs : References}

theorem submitted_keys {cells : List Cell} (h : RowHolds rt ch t cells) :
    (submitted js rs s t cells).keys = t.pageColumns := by
  rw [← shown_keys h, submitted, Dict.keys, Dict.keys, List.map_map]
  rfl

theorem submitted_get? {cells : List Cell} (h : RowHolds rt ch t cells) {p : Str × Cell}
    (hp : p ∈ t.shown cells) :
    (submitted js rs s t cells).get? p.1 = some (.str (shownText js rs s t p.1 p.2)) := by
  have hkeys : (submitted js rs s t cells).keys.Nodup := by
    rw [submitted_keys h]
    exact pageColumns_nodup
  exact Dict.get?_of_mem hkeys (List.mem_map_of_mem hp)

/-- No option that the page offers in the table has markup in it. -/
def PlainOptions (s : Session) (t : AdminTable) : Prop :=
  ∀ col ∈ t.pageColumns, ∀ options, selectOptions s t col = some options →
    ∀ opt ∈ options, OptionText opt

/-- Of an element whose options are plain the browser finds that element. -/
theorem found_getInputElement {b : Browser} (hoptions : PlainOptions s t) {col : Str}
    (hcol : col ∈ t.pageColumns) (val : Option JsValue) :
    (getInputElement js s t col val).found b =
      [(col, (getInputElement js s t col val).value b.toReferences)] := by
  unfold getInputElement
  split_ifs
  · rfl
  · rfl
  · rfl
  · split
    · rename_i options hselect
      refine b.found_plain col _ fun o ho => ?_
      obtain ⟨opt, hopt, rfl⟩ := List.mem_map.mp ho
      have htext := hoptions col hcol options hselect opt hopt
      exact ⟨htext, htext⟩
    · rfl

/-- The inputs that are found in a row, column by column. -/
theorem found_elements {b : Browser} (hoptions : PlainOptions s t) {cells : List Cell}
    (h : RowHolds rt ch t cells) : (elements js s t cells).flatMap (Control.found b) =
      (t.shown cells).map fun p => (p.1, shownText js b.toReferences s t p.1 p.2) := by
  rw [elements, List.flatMap_map, List.map_eq_flatMap]
  refine List.flatMap_congr fun p hp => ?_
  have hcol : p.1 ∈ t.pageColumns := by
    rw [← shown_keys h]
    exact List.mem_map_of_mem hp
  exact found_getInputElement hoptions hcol _

theorem rowData_shown {cells : List Cell} (h : RowHolds rt ch t cells) :
    rowData ((t.shown cells).map fun p => (p.1, shownText js rs s t p.1 p.2)) =
      submitted js rs s t cells := by
  have hpairs : rowData ((t.shown cells).map fun p => (p.1, shownText js rs s t p.1 p.2)) =
      Dict.ofPairs (submitted js rs s t cells) := by
    rw [rowData, Dict.ofPairs, submitted, List.foldl_map, List.foldl_map]
  rw [hpairs, Dict.ofPairs_of_nodup]
  rw [submitted_keys h]
  exact pageColumns_nodup

/-- What the page sends, unless it reports a text as missing. -/
theorem saveData_iff {b : Browser} (hrows : ∀ cells ∈ contents, RowHolds rt ch t cells)
    (hoptions : PlainOptions s t) {page : Page} {data : SaveData} (htable : page.table = t)
    (hpage : page.rows = contents.map (elements js s t)) :
    page.saveData b = some data ↔ (∀ cells ∈ contents, Filled js b.toReferences s t cells) ∧
      data = ⟨t.name, contents.map (submitted js b.toReferences s t)⟩ := by
  have hfound : page.rows.map (fun controls => controls.flatMap (Control.found b)) =
      contents.map fun cells =>
        (t.shown cells).map fun p => (p.1, shownText js b.toReferences s t p.1 p.2) := by
    rw [hpage, List.map_map]
    exact List.map_congr_left fun cells hcells => found_elements hoptions (hrows cells hcells)
  have hdata : (contents.map fun cells => (t.shown cells).map fun p =>
      (p.1, shownText js b.toReferences s t p.1 p.2)).map rowData =
        contents.map (submitted js b.toReferences s t) := by
    rw [List.map_map]
    exact List.map_congr_left fun cells hcells => rowData_shown (hrows cells hcells)
  have hfilled : ((contents.map fun cells => (t.shown cells).map fun p =>
      (p.1, shownText js b.toReferences s t p.1 p.2)).all fun inputs => inputs.all fun inp =>
        mayBeEmpty inp.1 || !isBlank inp.2) = true ↔
          ∀ cells ∈ contents, Filled js b.toReferences s t cells := by
    simp only [List.all_eq_true, List.forall_mem_map, Filled]
  rw [Page.saveData, htable, hfound, hdata]
  by_cases hall : ∀ cells ∈ contents, Filled js b.toReferences s t cells
  · rw [if_pos (hfilled.mpr hall), Option.some.injEq, eq_comm]
    exact (and_iff_right hall).symm
  · rw [if_neg (mt hfilled.mp hall)]
    exact iff_of_false (Option.some_ne_none data).symm fun h => hall h.1

end

end TechMart.Admin
