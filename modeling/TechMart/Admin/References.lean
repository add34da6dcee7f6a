import TechMart.Admin.Live
import TechMart.Graph.Support

/-!
# References to policies

An FAQ names its policy by id, and ids are counted from the rows that are
there. `Lineage` follows each stored row through a run of saves, from the save
that added it. A reference keeps its target in every run in which rows are
only added while the table still has its highest number: `reference_kept`.
-/

namespace TechMart.Admin

open Python Sql TechMart.Graph

/-- Where a stored row comes from: it was there from the start, or a save
added it, at some position of its rows. -/
inductive Origin where
  | initial (id : Str)
  | added (save position : ℕ)
  deriving DecidableEq

section
variable (rt : Runtime) (ch : ClickHouse) (t : AdminTable)

/-- The ids of the live table. -/
def idsIn (db : Database) : List Str :=
  match db t.name with
  | some table => storedIds rt t table
  | none => []

/-- The rows after the id loop of a save: a row kept under a stored id is the
row that had it, any other is new. -/
def originsOf (save : ℕ) (before : Dict Origin) : (m position : ℕ) → List (Dict Value) →
    Dict Origin
  | _, _, [] => []
  | m, position, r :: rows =>
    if needsId rt t r then
      (newId rt t r (m + 1), .added save position) ::
        originsOf save before (m + 1) (position + 1) rows
    else
      (idText rt t r, before.getD (idText rt t r) (.added save position)) ::
        originsOf save before m (position + 1) rows

/-- The number of saves so far, the database, and the rows of its live table
with their origins, in order. -/
structure Lineage where
  saves : ℕ
  db : Database
  origins : Dict Origin

/-- The save wrote the live table. -/
def Writes (db : Database) (r : Request) : Prop :=
  wroteLive t (runRequest rt ch db r).effects = true

instance (db : Database) (r : Request) : Decidable (Writes rt ch t db r) :=
  inferInstanceAs (Decidable (_ = true))

def Lineage.next (l : Lineage) (r : Request) : Lineage where
  saves := l.saves + 1
  db := (runRequest rt ch l.db r).db
  origins := match l.db t.name with
    | some before =>
      if Writes rt ch t l.db r then
        originsOf rt t l.saves l.origins (tableMax rt t before) 0 r.call.data.rows
      else l.origins
    | none => l.origins

def lineage (db : Database) (requests : List Request) : Lineage :=
  requests.foldl (Lineage.next rt ch t) ⟨0, db, (idsIn rt t db).map fun id => (id, .initial id)⟩

/-- The id was stored before the run or after one of its saves. -/
def EverStored (db : Database) (requests : List Request) (id : Str) : Prop :=
  ∃ first, first <+: requests ∧ id ∈ idsIn rt t (dbAfter rt ch db first)

/-- What holds of each save of the run that writes the table: of the saves
before it, the table it finds, and its rows. -/
def AtEachSave (db : Database) (requests : List Request)
    (P : List Request → Table → List (Dict Value) → Prop) : Prop :=
  ∀ earlier r later before, requests = earlier ++ r :: later →
    Writes rt ch t (dbAfter rt ch db earlier) r →
    dbAfter rt ch db earlier t.name = some before → P earlier before r.call.data.rows

/-- Rows are edited, deleted, or added with a blank id. -/
def Edits (db : Database) (requests : List Request) : Prop :=
  AtEachSave rt ch t db requests fun _ before rows =>
    ∀ r ∈ rows, needsId rt t r = false → idText rt t r ∈ storedIds rt t before

/-- The number an id ends in. -/
def textNumber (id : Str) : Option Int := idNumber rt (.str id)

/-- When a row is added, no id the table ever had ends in a number above the
highest one it has now. -/
def HighestKept (db : Database) (requests : List Request) : Prop :=
  AtEachSave rt ch t db requests fun earlier before rows =>
    (∃ r ∈ rows, needsId rt t r = true) → ∀ id, EverStored rt ch t db earlier id →
      ∀ n, textNumber rt id = some n → n ≤ tableMax rt t before

/-- No new row gets an id that a row of the table ever had. -/
def FreshIds (db : Database) (requests : List Request) : Prop :=
  AtEachSave rt ch t db requests fun earlier before rows =>
    ∀ id ∈ newIds rt t (tableMax rt t before) rows, ¬ EverStored rt ch t db earlier id

variable {rt ch t}

/-! ## Fresh ids -/

theorem freshIds_of_highestKept {db : Database} {requests : List Request}
    (h : HighestKept rt ch t db requests) : FreshIds rt ch t db requests := by
  intro earlier r later before hsplit hwrites hbefore id hid hever
  obtain ⟨kept, new, rest, hrows, hneeds, rfl⟩ := mem_newIds.mp hid
  have hnew : new ∈ r.call.data.rows := by
    rw [hrows]
    exact List.mem_append_right _ List.mem_cons_self
  have hnumber : textNumber rt (newId rt t new
      (tableMax rt t before + kept.countP (needsId rt t) + 1)) =
      some ((tableMax rt t before + kept.countP (needsId rt t) + 1 : ℕ) : Int) := by
    rw [textNumber, idNumber, Runtime.str_str, rtakeWhile_newId, rt.intOfStr_padded]
    rfl
  have hle := h earlier r later before hsplit hwrites hbefore ⟨new, hnew, hneeds⟩ _ hever _ hnumber
  omega

/-! ## Following the rows -/

theorem lineage_snoc (db : Database) (requests : List Request) (r : Request) :
    lineage rt ch t db (requests ++ [r]) =
      (lineage rt ch t db requests).next rt ch t r := by
  rw [lineage, List.foldl_append]
  rfl

theorem dbAfter_snoc (db : Database) (requests : List Request) (r : Request) :
    dbAfter rt ch db (requests ++ [r]) =
      (runRequest rt ch (dbAfter rt ch db requests) r).db := by
  rw [dbAfter, List.foldl_append]
  rfl

theorem lineage_db (db : Database) (requests : List Request) :
    (lineage rt ch t db requests).db = dbAfter rt ch db requests := by
  induction requests using List.reverseRecOn with
  | nil => rfl
  | append_singleton requests r ih =>
    rw [lineage_snoc, dbAfter_snoc, ← ih]
    rfl

theorem originsOf_ids (save : ℕ) (before : Dict Origin) (m position : ℕ)
    (rows : List (Dict Value)) :
    (originsOf rt t save before m position rows).keys = finalIds rt t m rows := by
  induction rows generalizing m position with
  | nil => rfl
  | cons r rows ih =>
    rw [originsOf, finalIds]
    split
    · rw [Dict.keys_cons, ih]
    · rw [Dict.keys_cons, ih]

/-- A save leaves the table alone, or stores its rows under the ids of the loop. -/
theorem idsIn_next (hwrite : ∀ v w, ch.write t.idCol v = some w → rt.str w = rt.str v)
    (db : Database) (r : Request) :
    (¬ Writes rt ch t db r ∧ (runRequest rt ch db r).db t.name = db t.name) ∨
    ∃ before, db t.name = some before ∧ Writes rt ch t db r ∧
      idsIn rt t (runRequest rt ch db r).db =
        finalIds rt t (tableMax rt t before) r.call.data.rows := by
  rcases live_after rt ch r t db with h | ⟨before, rows, stored, h⟩
  · left
    refine ⟨?_, h.same⟩
    rw [Writes, h.unwritten]
    exact Bool.false_ne_true
  · right
    refine ⟨before, h.present, h.written, ?_⟩
    rw [idsIn, h.after]
    exact storedIds_of_prepared hwrite h.prepared h.columns h.accepted

/-- The origins are listed beside the ids of the table. -/
theorem lineage_keys (hwrite : ∀ v w, ch.write t.idCol v = some w → rt.str w = rt.str v)
    (db : Database) (requests : List Request) :
    (lineage rt ch t db requests).origins.keys = idsIn rt t (dbAfter rt ch db requests) := by
  induction requests using List.reverseRecOn with
  | nil =>
    show ((idsIn rt t db).map fun id => (id, Origin.initial id)).map Prod.fst = idsIn rt t db
    rw [List.map_map]
    exact List.map_id _
  | append_singleton requests r ih =>
    rw [lineage_snoc, dbAfter_snoc, Lineage.next, lineage_db]
    rcases idsIn_next hwrite (dbAfter rt ch db requests) r with
      ⟨hunwritten, hsame⟩ | ⟨before, hbefore, hwrites, hids⟩
    · have hids : idsIn rt t (runRequest rt ch (dbAfter rt ch db requests) r).db =
          idsIn rt t (dbAfter rt ch db requests) := by
        rw [idsIn, hsame]
        rfl
      rw [hids, ← ih]
      split
      · rw [if_neg hunwritten]
      · rfl
    · rw [hbefore, hids]
      simp only [if_pos hwrites, originsOf_ids]

/-- The origin of a row after a save: it got a new id, or kept one with its
origin. -/
theorem origin_of_get? {save m position : ℕ} {before : Dict Origin} {rows : List (Dict Value)}
    {x : Str} {o : Origin} (h : (originsOf rt t save before m position rows).get? x = some o) :
    x ∈ newIds rt t m rows ∨ ∃ r ∈ rows, needsId rt t r = false ∧ idText rt t r = x ∧
      ∃ p, o = before.getD x (.added save p) := by
  induction rows generalizing m position with
  | nil => cases h
  | cons r rows ih =>
    rw [originsOf] at h
    rw [newIds]
    by_cases hr : needsId rt t r = true
    · rw [if_pos hr, Dict.get?] at h
      rw [if_pos hr]
      split at h
      · rename_i hx
        exact Or.inl (hx ▸ List.mem_cons_self)
      · rcases ih h with hnew | ⟨r', hr', hkept⟩
        · exact Or.inl (List.mem_cons_of_mem _ hnew)
        · exact Or.inr ⟨r', List.mem_cons_of_mem r hr', hkept⟩
    · rw [if_neg hr, Dict.get?] at h
      rw [if_neg hr]
      split at h
      · rename_i hx
        subst hx
        exact Or.inr ⟨r, List.mem_cons_self, by simpa using hr, rfl, position,
          (Option.some.inj h).symm⟩
      · rcases ih h with hnew | ⟨r', hr', hkept⟩
        · exact Or.inl hnew
        · exact Or.inr ⟨r', List.mem_cons_of_mem r hr', hkept⟩

/-- An id that has been a row's stays that row's, or no one's. -/
theorem origin_next (hwrite : ∀ v w, ch.write t.idCol v = some w → rt.str w = rt.str v)
    {db : Database} {requests earlier later : List Request} {r : Request}
    (hedits : Edits rt ch t db requests) (hfresh : FreshIds rt ch t db requests)
    (hsplit : requests = earlier ++ r :: later) {x : Str} {o : Origin}
    (hever : EverStored rt ch t db earlier x)
    (htarget : ∀ o', (lineage rt ch t db earlier).origins.get? x = some o' → o' = o) :
    ∀ o', (lineage rt ch t db (earlier ++ [r])).origins.get? x = some o' → o' = o := by
  intro o' ho'
  rw [lineage_snoc, Lineage.next] at ho'
  cases hbefore : (lineage rt ch t db earlier).db t.name with
  | none =>
    rw [hbefore] at ho'
    exact htarget o' ho'
  | some before =>
    rw [hbefore] at ho'
    simp only at ho'
    by_cases hwrites : Writes rt ch t (lineage rt ch t db earlier).db r
    · rw [if_pos hwrites] at ho'
      rw [lineage_db] at hbefore hwrites
      rcases origin_of_get? ho' with hnew | ⟨row, hrow, hkept, hid, p, rfl⟩
      · exact absurd hever (hfresh earlier r later before hsplit hwrites hbefore x hnew)
      · have hstored := hedits earlier r later before hsplit hwrites hbefore row hrow hkept
        have hkey : x ∈ (lineage rt ch t db earlier).origins.keys := by
          rw [lineage_keys hwrite, idsIn, hbefore, ← hid]
          exact hstored
        obtain ⟨found, hfound⟩ := Option.isSome_iff_exists.mp ((Dict.get?_isSome_iff _ x).mpr hkey)
        rw [Dict.getD, hfound, Option.getD_some]
        exact htarget found hfound
    · rw [if_neg hwrites] at ho'
      exact htarget o' ho'

theorem origin_kept (hwrite : ∀ v w, ch.write t.idCol v = some w → rt.str w = rt.str v)
    {db : Database} {requests earlier : List Request} (hedits : Edits rt ch t db requests)
    (hfresh : FreshIds rt ch t db requests) {x : Str} {o : Origin}
    (ho : (lineage rt ch t db earlier).origins.get? x = some o) (later rest : List Request)
    (hsplit : requests = earlier ++ later ++ rest) :
    ∀ o', (lineage rt ch t db (earlier ++ later)).origins.get? x = some o' → o' = o := by
  induction later using List.reverseRecOn generalizing rest with
  | nil =>
    intro o' ho'
    rw [List.append_nil, ho] at ho'
    exact (Option.some.inj ho').symm
  | append_singleton later r ih =>
    have hkey : x ∈ idsIn rt t (dbAfter rt ch db earlier) := by
      rw [← lineage_keys hwrite, ← Dict.get?_isSome_iff, ho]
      rfl
    have hever : EverStored rt ch t db (earlier ++ later) x :=
      ⟨earlier, List.prefix_append .., hkey⟩
    have hnext : requests = earlier ++ later ++ r :: rest := by
      rw [hsplit]
      simp only [List.append_assoc, List.cons_append, List.nil_append]
    rw [← List.append_assoc]
    exact origin_next hwrite hedits hfresh hnext hever (ih (r :: rest) hnext)

/-! ## The highest number -/

/-- No save lowers the highest number: it adds a row, keeps one with that
number, or finds no number at all. -/
def KeepsHighest (rt : Runtime) (ch : ClickHouse) (t : AdminTable) (db : Database)
    (requests : List Request) : Prop :=
  AtEachSave rt ch t db requests fun _ before rows =>
    tableMax rt t before = 0 ∨ (∃ r ∈ rows, needsId rt t r = true) ∨
      ∃ r ∈ rows, needsId rt t r = false ∧
        ∃ n, textNumber rt (idText rt t r) = some n ∧ tableMax rt t before ≤ n

theorem number_le_tableMax {table : Table} {id : Str} (hid : id ∈ storedIds rt t table) {n : Int}
    (hn : textNumber rt id = some n) : n ≤ tableMax rt t table := by
  obtain ⟨row, hrow, rfl⟩ := List.mem_map.mp hid
  exact le_currentMax (List.mem_map_of_mem hrow) rfl hn

/-- The highest number the live table holds. -/
def maxIn (rt : Runtime) (t : AdminTable) (db : Database) : ℕ :=
  match db t.name with
  | some table => tableMax rt t table
  | none => 0

theorem number_le_maxIn {db : Database} {id : Str} (hid : id ∈ idsIn rt t db) {n : Int}
    (hn : textNumber rt id = some n) : n ≤ maxIn rt t db := by
  rw [idsIn] at hid
  rw [maxIn]
  split at hid
  · exact number_le_tableMax hid hn
  · cases hid

theorem maxIn_next (hwrite : ∀ v w, ch.write t.idCol v = some w → rt.str w = rt.str v)
    {db : Database} {requests earlier later : List Request} {r : Request}
    (hkeeps : KeepsHighest rt ch t db requests) (hsplit : requests = earlier ++ r :: later) :
    maxIn rt t (dbAfter rt ch db earlier) ≤ maxIn rt t (dbAfter rt ch db (earlier ++ [r])) := by
  rw [dbAfter_snoc]
  rcases idsIn_next hwrite (dbAfter rt ch db earlier) r with
    ⟨-, hsame⟩ | ⟨before, hbefore, hwrites, hids⟩
  · rw [maxIn, maxIn, hsame]
  · have hmem (id : Str) (h : id ∈ keptIds rt t r.call.data.rows ++
        newIds rt t (tableMax rt t before) r.call.data.rows) :
        id ∈ idsIn rt t (runRequest rt ch (dbAfter rt ch db earlier) r).db := by
      rw [hids]
      exact (finalIds_perm _ _).mem_iff.mpr h
    have hmax : maxIn rt t (dbAfter rt ch db earlier) = tableMax rt t before := by
      rw [maxIn, hbefore]
    rw [hmax]
    rcases hkeeps earlier r later before hsplit hwrites hbefore with
      hzero | ⟨new, hnew, hneeds⟩ | ⟨row, hrow, hkept, n, hn, hle⟩
    · omega
    · obtain ⟨front, back, hrows⟩ := List.append_of_mem hnew
      have hid := hmem _ (List.mem_append_right _
        (mem_newIds.mpr ⟨front, new, back, hrows, hneeds, rfl⟩))
      have hnumber := rt.intOfStr_padded 3
        (tableMax rt t before + front.countP (needsId rt t) + 1)
      rw [← @rtakeWhile_newId rt t new] at hnumber
      have hle := number_le_maxIn hid hnumber
      omega
    · have hid := hmem _ (List.mem_append_left _
        (List.mem_map_of_mem (List.mem_filter.mpr ⟨hrow, by simp [hkept]⟩)))
      have hlast := number_le_maxIn hid hn
      omega

/-- The table's highest number bounds those of all ids it ever had. -/
theorem ever_le_maxIn (hwrite : ∀ v w, ch.write t.idCol v = some w → rt.str w = rt.str v)
    {db : Database} {requests : List Request} (hkeeps : KeepsHighest rt ch t db requests)
    (earlier later : List Request) (hsplit : requests = earlier ++ later) {id : Str}
    (hever : EverStored rt ch t db earlier id) {n : Int} (hn : textNumber rt id = some n) :
    n ≤ maxIn rt t (dbAfter rt ch db earlier) := by
  induction earlier using List.reverseRecOn generalizing later with
  | nil =>
    obtain ⟨first, hfirst, hid⟩ := hever
    rw [List.prefix_nil.mp hfirst] at hid
    exact number_le_maxIn hid hn
  | append_singleton earlier r ih =>
    have hrest : requests = earlier ++ r :: later := by
      rw [hsplit]
      simp
    obtain ⟨first, hfirst, hid⟩ := hever
    rcases List.prefix_concat_iff.mp hfirst with rfl | hfirst
    · exact number_le_maxIn hid hn
    · have hbefore := ih (r :: later) hrest ⟨first, hfirst, hid⟩
      have hmono := maxIn_next hwrite hkeeps hrest
      omega

theorem highestKept_of_keepsHighest
    (hwrite : ∀ v w, ch.write t.idCol v = some w → rt.str w = rt.str v) {db : Database}
    {requests : List Request} (h : KeepsHighest rt ch t db requests) :
    HighestKept rt ch t db requests := by
  intro earlier r later before hsplit _ hbefore _ id hever n hn
  have hle := ever_le_maxIn hwrite h earlier (r :: later) hsplit hever hn
  rw [maxIn, hbefore] at hle
  exact hle

end

/-! ## What an answer shows -/

/-- The columns of `company_tos` that are texts, and the id among them. -/
structure TextStore (rt : Runtime) (ch : ClickHouse) : Prop where
  id : ∀ v w, ch.write AdminTable.companyTos.idCol v = some w → rt.str w = rt.str v
  write : ∀ c ∈ (["doc_id", "title", "content"] : List Str), ∀ v w, ch.write c v = some w →
    ∃ s, w = .str s
  default : ∀ c ∈ (["doc_id", "title", "content"] : List Str), ∃ s, ch.default c = .str s

/-- The first row under an id, with its origin. -/
def Lineage.document (l : Lineage) (docId : Str) : Option (Row × Origin) :=
  match l.db AdminTable.companyTos.name with
  | some table => ((table.rows.zip l.origins).find? fun p => decide (p.2.1 = docId)).map fun p =>
      (p.1, p.2.2)
  | none => none

/-- The line of a policy under a reference. -/
def policyLine (rt : Runtime) (t : Table) (docId : Str) (row : Row) : Str :=
  ("TOS (" : Str) ++ docId ++ "): " ++ policyText rt t row

section
variable {rt : Runtime} {ch : ClickHouse}

/-- The first row that has an id stands where the id stands among the ids. -/
theorem head?_filter_zip {f : Row → Str} {p : Row → Bool} {x : Str} {rows : List Row}
    {origins : Dict Origin} (hkeys : origins.keys = rows.map f)
    (hp : ∀ row ∈ rows, p row = decide (f row = x)) :
    (rows.filter p).head? =
      ((rows.zip origins).find? fun q => decide (q.2.1 = x)).map Prod.fst ∧
    origins.get? x = ((rows.zip origins).find? fun q => decide (q.2.1 = x)).map fun q => q.2.2 := by
  induction rows generalizing origins with
  | nil =>
    have hnil : origins = [] := List.map_eq_nil_iff.mp hkeys
    rw [hnil]
    exact ⟨rfl, rfl⟩
  | cons row rows ih =>
    cases origins with
    | nil => cases hkeys
    | cons entry origins =>
      obtain ⟨hkey, hrest⟩ := List.cons.inj hkeys
      have htail := ih hrest fun r hr => hp r (List.mem_cons_of_mem row hr)
      have hrow := hp row List.mem_cons_self
      rw [List.zip_cons_cons, List.find?_cons, List.filter_cons, hrow, Dict.get?]
      by_cases hx : f row = x
      · simp [hkey, hx]
      · simp only [hkey, hx, decide_false, Bool.false_eq_true, if_false]
        exact htail

theorem textColumns_stored (hstore : TextStore rt ch) {columns cols : List Str}
    (hcolumns : ∀ c ∈ (["doc_id", "title", "content"] : List Str), c ∈ columns) {data stored : List Row}
    (h : storeRows ch columns cols data = some stored) : TextColumns ⟨columns, stored⟩ := by
  refine ⟨hcolumns, ?_⟩
  intro row hrow c hc
  obtain ⟨vals, -, hvals⟩ := mem_of_forall₂ (forall₂_of_mapM h) hrow
  obtain ⟨v, hv, hcell⟩ := Dict.get?_zip_mapM hvals (hcolumns c hc)
  have htext : ∃ s, v = .str s := by
    split at hv
    · exact hstore.write c hc _ _ hv
    · obtain ⟨s, hs⟩ := hstore.default c hc
      exact ⟨s, by rw [← Option.some.inj hv, hs]⟩
  obtain ⟨s, rfl⟩ := htext
  exact ⟨s, hcell⟩

/-- `company_tos` keeps its text columns through any saves. -/
theorem textColumns_after (hstore : TextStore rt ch) {db : Database} {policies : Table}
    (hdb : db AdminTable.companyTos.name = some policies) (htexts : TextColumns policies)
    (requests : List Request) :
    ∃ table, dbAfter rt ch db requests AdminTable.companyTos.name = some table ∧
      TextColumns table := by
  induction requests using List.reverseRecOn with
  | nil => exact ⟨policies, hdb, htexts⟩
  | append_singleton requests r ih =>
    obtain ⟨table, htable, htext⟩ := ih
    rw [dbAfter_snoc]
    rcases live_after rt ch r .companyTos (dbAfter rt ch db requests) with
      h | ⟨before, rows, stored, h⟩
    · exact ⟨table, h.same.trans htable, htext⟩
    · have hsame : table = before := Option.some.inj (htable.symm.trans h.present)
      rw [hsame] at htext
      exact ⟨_, h.after, textColumns_stored hstore htext.1 h.accepted⟩

/-- What `get_support_context` shows of a reference: the first row under it,
if there is one. -/
theorem shown_of_reference (hstore : TextStore rt ch) {db : Database} {requests : List Request}
    {table : Table} (htable : (lineage rt ch .companyTos db requests).db "company_tos" = some table)
    (htexts : TextColumns table) {f : Faq} (hplain : isPlain f.relatedTos = true) {engine : Engine}
    (hengine : ReadsLiterals rt engine) (svc : Services) :
    supportLines rt (svc.reading engine (lineage rt ch .companyTos db requests).db) 0 [f.cells] =
      .ok [faqLine rt f.cells] ∨
    ∃ row o, (lineage rt ch .companyTos db requests).document f.relatedTos = some (row, o) ∧
      (lineage rt ch .companyTos db requests).origins.get? f.relatedTos = some o ∧
      supportLines rt (svc.reading engine (lineage rt ch .companyTos db requests).db) 0 [f.cells] =
        .ok [faqLine rt f.cells, policyLine rt table f.relatedTos row] := by
  by_cases hempty : f.relatedTos = []
  · left
    rw [supportLines_none hempty]
    rfl
  · have hlines := @supportLines_plain rt svc _ hengine _ _ htable htexts _ hempty hplain
    have hlive : (lineage rt ch .companyTos db requests).db AdminTable.companyTos.name = some table :=
      htable
    have hkeys : (lineage rt ch .companyTos db requests).origins.keys =
        table.rows.map fun row => rt.str ((table.cell row "doc_id").getD .none) := by
      rw [lineage_keys (t := .companyTos) hstore.id, ← lineage_db (t := .companyTos), idsIn, hlive]
      rfl
    have hids : ∀ row ∈ table.rows, decide (table.text row "doc_id" = some f.relatedTos) =
        decide (rt.str ((table.cell row "doc_id").getD .none) = f.relatedTos) := by
      intro row hrow
      obtain ⟨s, hs⟩ := htexts.2 row hrow "doc_id" (by simp)
      simp only [Table.text, hs, Option.getD_some, Runtime.str_str, Option.some.injEq]
    obtain ⟨hhead, horigin⟩ := head?_filter_zip hkeys hids
    rw [documents, hhead] at hlines
    cases hfound : (table.rows.zip (lineage rt ch .companyTos db requests).origins).find?
        fun q => decide (q.2.1 = f.relatedTos) with
    | none =>
      left
      rw [hlines, hfound]
      rfl
    | some found =>
      right
      rw [hfound] at horigin
      refine ⟨found.1, found.2.2, ?_, horigin, ?_⟩
      · rw [Lineage.document, hlive]
        simp only [hfound, Option.map_some]
      · rw [hlines, hfound]
        rfl

/-- **When a reference keeps its target.** In every run of saves, failing ones
included, in which rows are edited, deleted or added with a blank id, and rows
are added only while the table has its highest number: no new row gets an id
that a row of its table ever had, and an FAQ whose reference named a policy
once is answered with that policy later, edited perhaps, or with none. -/
theorem reference_kept (rt : Runtime) (ch : ClickHouse) (db : Database) (requests : List Request)
    (policies : Table) (hstore : TextStore rt ch)
    (hdb : db AdminTable.companyTos.name = some policies) (htexts : TextColumns policies)
    (hedits : Edits rt ch .companyTos db requests)
    (hkept : ∀ t ∈ [AdminTable.companyTos, .companyFaqs], HighestKept rt ch t db requests) :
    (∀ t ∈ [AdminTable.companyTos, .companyFaqs], FreshIds rt ch t db requests) ∧
    ∀ earlier later rest, requests = earlier ++ later ++ rest → ∀ (f : Faq) (o : Origin),
      isPlain f.relatedTos = true →
      (lineage rt ch .companyTos db earlier).origins.get? f.relatedTos = some o →
      ∀ engine, ReadsLiterals rt engine → ∀ svc : Services,
        let l := lineage rt ch .companyTos db (earlier ++ later)
        supportLines rt (svc.reading engine l.db) 0 [f.cells] = .ok [faqLine rt f.cells] ∨
        ∃ table row, l.db "company_tos" = some table ∧
          l.document f.relatedTos = some (row, o) ∧
          supportLines rt (svc.reading engine l.db) 0 [f.cells] =
            .ok [faqLine rt f.cells, policyLine rt table f.relatedTos row] := by
  have hfresh : ∀ t ∈ [AdminTable.companyTos, .companyFaqs], FreshIds rt ch t db requests :=
    fun t ht => freshIds_of_highestKept (hkept t ht)
  refine ⟨hfresh, ?_⟩
  intro earlier later rest hsplit f o hplain ho engine hengine svc l
  obtain ⟨table, htable, htext⟩ := textColumns_after hstore hdb htexts (earlier ++ later)
  rw [← lineage_db (t := .companyTos)] at htable
  rcases shown_of_reference hstore htable htext hplain hengine svc with
    hnone | ⟨row, o', hdocument, horigin, hlines⟩
  · exact Or.inl hnone
  · have hsame := origin_kept hstore.id hedits (hfresh _ List.mem_cons_self) ho later rest hsplit
      o' horigin
    rw [hsame] at hdocument
    exact Or.inr ⟨table, row, htable, hdocument, hlines⟩

end

/-! ## The last policy deleted, then another added -/

/-- Texts are stored as texts, lists in the column of the tags. -/
def policyStore : ClickHouse where
  write c v := match c == ("tags" : Str), v with
    | true, .list xs => some (.list xs)
    | false, .str s => some (.str s)
    | _, _ => none
  default c := if c = "tags" then .list [] else .str []

def policyRow (docId title content : String) : Dict Value :=
  [("doc_id", .str docId), ("title", .str title), ("content", .str content), ("tags", .str "")]

def twoPolicies : Table :=
  ⟨["doc_id", "title", "content", "tags"],
    [[.str "TOS-001", .str "Returns", .str "Seven days.", .list []],
      [.str "TOS-002", .str "Warranty", .str "Two years.", .list []]]⟩

def policyDatabase : Database := setTable (fun _ => none) "company_tos" (some twoPolicies)

def savePolicies (rows : List (Dict Value)) : Request := ⟨demoSave rows, fun _ => .none⟩

def dropWarranty : Request := savePolicies [policyRow "TOS-001" "Returns" "Seven days."]

def addPrivacy : Request :=
  savePolicies [policyRow "TOS-001" "Returns" "Seven days.",
    policyRow "" "Privacy" "We keep nothing."]

def warrantyFaq : Faq := faqWith "TOS-002"

def onePolicy : Table :=
  ⟨twoPolicies.columns, [[.str "TOS-001", .str "Returns", .str "Seven days.", .list []]]⟩

def reissuedPolicies : Table :=
  ⟨twoPolicies.columns, onePolicy.rows ++
    [[.str "TOS-002", .str "Privacy", .str "We keep nothing.", .list []]]⟩

theorem atEachSave_pair {r₁ r₂ : Request} {db : Database} (first second : Table)
    {P : List Request → Table → List (Dict Value) → Prop}
    (hfirst : db AdminTable.companyTos.name = some first)
    (hsecond : (runRequest .ascii policyStore db r₁).db AdminTable.companyTos.name = some second)
    (h₁ : P [] first r₁.call.data.rows) (h₂ : P [r₁] second r₂.call.data.rows) :
    AtEachSave .ascii policyStore .companyTos db [r₁, r₂] P := by
  intro earlier r later before hsplit _ hbefore
  rcases earlier with _ | ⟨a, _ | ⟨b, earlier⟩⟩
  · cases hsplit
    rw [← Option.some.inj (hfirst.symm.trans hbefore)]
    exact h₁
  · cases hsplit
    rw [← Option.some.inj (hsecond.symm.trans hbefore)]
    exact h₂
  · simp at hsplit

/-- The answer to the FAQ about the warranty, over this content. -/
theorem warrantyFaq_shown {db : Database} {t : Table} (hdb : db "company_tos" = some t)
    (htexts : TextColumns t) :
    supportLines .ascii ((replying []).reading plainEngine db) 0 [warrantyFaq.cells] =
      .ok (faqLine .ascii warrantyFaq.cells ::
        ((documents t "TOS-002").head?.map (policyLine .ascii t "TOS-002")).toList) :=
  supportLines_plain (plainEngine_reads .ascii) hdb htexts (by decide) (by decide)

/-- The new policy gets the id of the deleted one, and the FAQ that referred
to the warranty is answered with the privacy policy. -/
theorem deleted_id_reissued :
    Edits .ascii policyStore .companyTos policyDatabase [dropWarranty, addPrivacy] ∧
    ¬ FreshIds .ascii policyStore .companyTos policyDatabase [dropWarranty, addPrivacy] ∧
    supportLines .ascii ((replying []).reading plainEngine policyDatabase) 0
      [warrantyFaq.cells] =
        .ok ["FAQ: When are you open? | Answer: Every day. | TOS Ref: TOS-002",
          "TOS (TOS-002): Warranty - Two years."] ∧
    supportLines .ascii ((replying []).reading plainEngine
      (dbAfter .ascii policyStore policyDatabase [dropWarranty, addPrivacy])) 0
      [warrantyFaq.cells] =
        .ok ["FAQ: When are you open? | Answer: Every day. | TOS Ref: TOS-002",
          "TOS (TOS-002): Privacy - We keep nothing."] := by
  refine ⟨atEachSave_pair twoPolicies onePolicy rfl rfl (by decide) (by decide), ?_, ?_, ?_⟩
  · intro hfresh
    have hreissued : ("TOS-002" : Str) ∈ newIds .ascii .companyTos
        (tableMax .ascii .companyTos onePolicy) addPrivacy.call.data.rows := by decide
    refine hfresh [dropWarranty] addPrivacy [] onePolicy rfl rfl rfl _ hreissued ?_
    exact ⟨[], List.nil_prefix, by decide⟩
  · exact warrantyFaq_shown (t := twoPolicies) rfl (textColumns_of_all (by decide) (by decide))
  · exact warrantyFaq_shown (t := reissuedPolicies) rfl (textColumns_of_all (by decide) (by decide))

theorem policyStore_text {c : Str} (hc : (c == ("tags" : Str)) = false) {v w : Value}
    (h : policyStore.write c v = some w) : ∃ s, v = .str s ∧ w = .str s := by
  simp only [policyStore, hc] at h
  split at h
  · rename_i heq
    cases heq
  · cases h
    exact ⟨_, rfl, rfl⟩
  · cases h

theorem textColumns_ne_tags :
    ∀ c ∈ (["doc_id", "title", "content"] : List Str), (c == ("tags" : Str)) = false := by
  decide

theorem policyStore_texts : TextStore .ascii policyStore where
  id v w h := by
    obtain ⟨s, rfl, rfl⟩ := policyStore_text (by decide) h
    rfl
  write c hc v w h := by
    obtain ⟨s, -, hw⟩ := policyStore_text (textColumns_ne_tags c hc) h
    exact ⟨s, hw⟩
  default c hc := ⟨[], if_neg (beq_eq_false_iff_ne.mp (textColumns_ne_tags c hc))⟩

theorem reference_kept_one_added :
    FreshIds .ascii policyStore .companyTos policyDatabase [addPrivacy] ∧
    (supportLines .ascii ((replying []).reading plainEngine
      (lineage .ascii policyStore .companyTos policyDatabase [addPrivacy]).db) 0
        [(faqWith "TOS-001").cells] = .ok [faqLine .ascii (faqWith "TOS-001").cells] ∨
    ∃ table row, (lineage .ascii policyStore .companyTos policyDatabase [addPrivacy]).db
        "company_tos" = some table ∧
      (lineage .ascii policyStore .companyTos policyDatabase [addPrivacy]).document "TOS-001" =
        some (row, .initial "TOS-001") ∧
      supportLines .ascii ((replying []).reading plainEngine
        (lineage .ascii policyStore .companyTos policyDatabase [addPrivacy]).db) 0
          [(faqWith "TOS-001").cells] = .ok [faqLine .ascii (faqWith "TOS-001").cells,
            policyLine .ascii table "TOS-001" row]) := by
  have hone {t : AdminTable} {P : List Request → Table → List (Dict Value) → Prop}
      (h : ∀ before, policyDatabase t.name = some before → P [] before addPrivacy.call.data.rows) :
      AtEachSave .ascii policyStore t policyDatabase [addPrivacy] P := by
    intro earlier r later before hsplit _ hbefore
    rcases earlier with _ | ⟨a, earlier⟩
    · cases hsplit
      exact h before hbefore
    · simp at hsplit
  have hedits : Edits .ascii policyStore .companyTos policyDatabase [addPrivacy] := by
    refine hone fun before hbefore => ?_
    have htwo : twoPolicies = before := Option.some.inj hbefore
    rw [← htwo]
    decide
  have hkept : ∀ t ∈ [AdminTable.companyTos, .companyFaqs],
      HighestKept .ascii policyStore t policyDatabase [addPrivacy] := by
    intro t ht
    refine hone fun before hbefore _ id hever n hn => ?_
    obtain ⟨first, hfirst, hid⟩ := hever
    rw [List.prefix_nil.mp hfirst] at hid
    have hle := number_le_maxIn hid hn
    rw [maxIn, dbAfter, List.foldl_nil, hbefore] at hle
    exact hle
  have hkeeps := reference_kept .ascii policyStore policyDatabase [addPrivacy] twoPolicies
    policyStore_texts rfl (textColumns_of_all (by decide) (by decide)) hedits hkept
  exact ⟨hkeeps.1 _ List.mem_cons_self, hkeeps.2 [] [addPrivacy] [] rfl (faqWith "TOS-001")
    (.initial "TOS-001") (by decide) rfl plainEngine
    (plainEngine_reads .ascii) (replying [])⟩

end TechMart.Admin
