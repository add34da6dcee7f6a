import TechMart.Admin.Recovery
import Mathlib.Data.List.Forall2

/-!
# Ids

New ids count up from the largest number in the table; the submitted rows keep
theirs. `ids_kept_iff` says when the two never meet: an id that is submitted
but no longer stored may already carry the number a new row is about to get.
-/

namespace TechMart.Admin

open Python Sql

section
variable (rt : Runtime) (t : AdminTable)

/-- The text of a row's id. -/
def idText (r : Dict Value) : Str := rt.str (r.getD t.idCol .none)

/-- The row was submitted without an id: none, a null or only white space. -/
def blankId (r : Dict Value) : Bool :=
  match r.getD t.idCol .none with
  | .none => true
  | v => (strip (rt.str v)).isEmpty

/-- The row was submitted with the text `None` as its id. -/
def namedNone (r : Dict Value) : Bool := !blankId rt t r && strip (idText rt t r) == ("None" : Str)

/-- The ids a table holds. -/
def storedIds (table : Table) : List Str :=
  table.rows.map fun row => rt.str ((table.cell row t.idCol).getD .none)

/-- The largest number among the ids a table holds. -/
def tableMax (table : Table) : ℕ :=
  currentMax rt ⟨[t.idCol], table.rows.map fun row => [(table.cell row t.idCol).getD .none]⟩

/-- The ids of the table after a save of `rows`: pairwise distinct, and each
row submitted with an id still under it. -/
structure IdsKept (rows : List (Dict Value)) (after : Table) : Prop where
  distinct : (storedIds rt t after).Nodup
  kept : List.Forall₂ (fun r id => blankId rt t r = false → id = idText rt t r) rows
    (storedIds rt t after)

/-- No submitted id that is not stored is the one a new row is next to get. -/
def NumbersFree (before : Table) (rows : List (Dict Value)) : Prop :=
  ∀ earlier new later, rows = earlier ++ new :: later → needsId rt t new = true →
    ∀ r ∈ rows, needsId rt t r = false → idText rt t r ∉ storedIds rt t before →
      idText rt t r ≠ newId rt t new (tableMax rt t before + earlier.countP (needsId rt t) + 1)

/-! ## The id loop -/

/-- The ids of the rows after the id loop. -/
def finalIds : ℕ → List (Dict Value) → List Str
  | _, [] => []
  | m, r :: rows =>
    if needsId rt t r then newId rt t r (m + 1) :: finalIds (m + 1) rows
    else idText rt t r :: finalIds m rows

/-- The new ids among them. -/
def newIds : ℕ → List (Dict Value) → List Str
  | _, [] => []
  | m, r :: rows =>
    if needsId rt t r then newId rt t r (m + 1) :: newIds (m + 1) rows else newIds m rows

def keptIds (rows : List (Dict Value)) : List Str :=
  (rows.filter fun r => !needsId rt t r).map (idText rt t)

variable {rt t}

theorem le_raiseMax (m : ℕ) (row : Row) : m ≤ raiseMax rt m row := by
  unfold raiseMax
  split
  · split <;> omega
  · exact Nat.le_refl m

theorem le_raiseMax_of_number {row : Row} {cell : Value} {n : Int} (m : ℕ)
    (hcell : row.head? = some cell) (hn : idNumber rt cell = some n) : n ≤ raiseMax rt m row := by
  unfold raiseMax
  rw [hcell, Option.bind_some, hn]
  simp only
  split <;> omega

theorem le_foldl_raiseMax (rows : List Row) (m : ℕ) : m ≤ rows.foldl (raiseMax rt) m := by
  induction rows generalizing m with
  | nil => exact Nat.le_refl m
  | cons row rows ih => exact Nat.le_trans (le_raiseMax m row) (ih _)

theorem number_le_foldl {rows : List Row} {row : Row} {cell : Value} {n : Int}
    (hrow : row ∈ rows) (hcell : row.head? = some cell) (hn : idNumber rt cell = some n) (m : ℕ) :
    n ≤ rows.foldl (raiseMax rt) m := by
  induction rows generalizing m with
  | nil => exact absurd hrow List.not_mem_nil
  | cons r rows ih =>
    rcases List.mem_cons.mp hrow with rfl | hrow
    · have hraised := le_raiseMax_of_number m hcell hn
      exact hraised.trans (Int.ofNat_le.mpr (le_foldl_raiseMax rows _))
    · exact ih hrow _

/-- No number of the table exceeds its maximum. -/
theorem le_currentMax {result : Table} {row : Row} {cell : Value} {n : Int}
    (hrow : row ∈ result.rows) (hcell : row.head? = some cell) (hn : idNumber rt cell = some n) :
    n ≤ currentMax rt result :=
  number_le_foldl hrow hcell hn 0

/-- The code takes a missing id for a blank one and a null for the text `None`. -/
theorem needsId_eq (r : Dict Value) : needsId rt t r = (blankId rt t r || namedNone rt t r) := by
  cases hget : r.get? t.idCol with
  | none => simp [needsId, blankId, Dict.getD, hget, strip, lstrip, rstrip]
  | some v =>
    cases v with
    | none =>
      simp only [needsId, blankId, Dict.getD, hget, Option.getD_some, Runtime.str_none,
        Bool.true_or, Bool.or_eq_true, beq_iff_eq]
      exact Or.inr (by decide +kernel)
    | _ => simp [needsId, blankId, namedNone, idText, Dict.getD, hget]; grind

theorem finalIds_perm (m : ℕ) (rows : List (Dict Value)) :
    (finalIds rt t m rows).Perm (keptIds rt t rows ++ newIds rt t m rows) := by
  induction rows generalizing m with
  | nil => exact .refl _
  | cons r rows ih =>
    by_cases hr : needsId rt t r = true
    · simp only [finalIds, newIds, keptIds, hr, if_true, List.filter_cons, Bool.not_true,
        Bool.false_eq_true, if_false]
      exact ((ih (m + 1)).cons _).trans List.perm_middle.symm
    · simp only [finalIds, newIds, keptIds, hr, Bool.false_eq_true, if_false, List.filter_cons,
        Bool.not_false, if_true, List.map_cons, List.cons_append]
      exact (ih m).cons _

theorem mem_newIds {m : ℕ} {rows : List (Dict Value)} {id : Str} :
    id ∈ newIds rt t m rows ↔ ∃ earlier new later, rows = earlier ++ new :: later ∧
      needsId rt t new = true ∧ id = newId rt t new (m + earlier.countP (needsId rt t) + 1) := by
  induction rows generalizing m with
  | nil => simp [newIds]
  | cons r rows ih =>
    have hsplit : (∃ earlier new later, r :: rows = earlier ++ new :: later ∧
        needsId rt t new = true ∧
        id = newId rt t new (m + earlier.countP (needsId rt t) + 1)) ↔
        (needsId rt t r = true ∧ id = newId rt t r (m + 1)) ∨
        ∃ earlier new later, rows = earlier ++ new :: later ∧ needsId rt t new = true ∧
          id = newId rt t new (m + (r :: earlier).countP (needsId rt t) + 1) := by
      constructor
      · rintro ⟨earlier, new, later, hrows, hnew, rfl⟩
        cases earlier with
        | nil =>
          cases hrows
          exact Or.inl ⟨hnew, rfl⟩
        | cons e earlier =>
          cases hrows
          exact Or.inr ⟨earlier, new, later, rfl, hnew, rfl⟩
      · rintro (⟨hr, rfl⟩ | ⟨earlier, new, later, rfl, hnew, rfl⟩)
        · exact ⟨[], r, rows, rfl, hr, rfl⟩
        · exact ⟨r :: earlier, new, later, rfl, hnew, rfl⟩
    rw [hsplit, newIds]
    by_cases hr : needsId rt t r = true
    · simp only [hr, if_true, List.mem_cons, true_and, ih, List.countP_cons_of_pos hr,
        Nat.add_right_comm m 1, ← Nat.add_assoc]
    · simp only [hr, Bool.false_eq_true, if_false, false_and, false_or, ih,
        List.countP_cons_of_neg hr]

/-- The number is what stands after the last dash. -/
theorem rtakeWhile_newId (r : Dict Value) (n : ℕ) :
    (newId rt t r n).rtakeWhile (· != '-') = padded 3 n := by
  have hdigits : ∀ c ∈ (padded 3 n).reverse, (c != '-') = true := by
    intro c hc
    have hdigit := isDigit_of_mem_padded (List.mem_reverse.mp hc)
    rw [bne_iff_ne]
    rintro rfl
    cases hdigit
  rw [newId, List.rtakeWhile, List.reverse_append, List.reverse_cons, List.append_assoc,
    List.takeWhile_append_of_pos hdigits]
  simp

theorem newId_number {r r' : Dict Value} {n n' : ℕ}
    (h : newId rt t r n = newId rt t r' n') : n = n' := by
  have := congrArg (List.rtakeWhile (· != '-')) h
  rw [rtakeWhile_newId, rtakeWhile_newId] at this
  exact padded_injective this

theorem newIds_nodup (m : ℕ) (rows : List (Dict Value)) : (newIds rt t m rows).Nodup := by
  induction rows generalizing m with
  | nil => exact .nil
  | cons r rows ih =>
    rw [newIds]
    split
    · refine List.nodup_cons.mpr ⟨fun hmem => ?_, ih (m + 1)⟩
      obtain ⟨earlier, new, later, -, -, heq⟩ := mem_newIds.mp hmem
      have := newId_number heq
      omega
    · exact ih m

/-- A new id is none of the stored ones: its number is beyond theirs. -/
theorem newId_not_stored {before : Table} {r : Dict Value} {n : ℕ}
    (h : tableMax rt t before < n) : newId rt t r n ∉ storedIds rt t before := by
  intro hmem
  obtain ⟨row, hrow, htext⟩ := List.mem_map.mp hmem
  have hnumber : idNumber rt ((before.cell row t.idCol).getD .none) = some (n : Int) := by
    rw [idNumber, htext, rtakeWhile_newId, rt.intOfStr_padded]
    rfl
  have hle : (n : Int) ≤ tableMax rt t before :=
    le_currentMax (List.mem_map_of_mem hrow) rfl hnumber
  omega

/-- The ids of all rows are distinct exactly if no kept one is a new one. -/
theorem finalIds_nodup_iff {before : Table} {rows : List (Dict Value)}
    (hkept : (keptIds rt t rows).Nodup) :
    (finalIds rt t (tableMax rt t before) rows).Nodup ↔ NumbersFree rt t before rows := by
  rw [(finalIds_perm _ rows).nodup_iff, List.nodup_append]
  constructor
  · rintro ⟨-, -, hdisjoint⟩ earlier new later hrows hnew r hr hkeep - heq
    have hmem : idText rt t r ∈ keptIds rt t rows :=
      List.mem_map_of_mem (List.mem_filter.mpr ⟨hr, by simp [hkeep]⟩)
    exact hdisjoint _ hmem _ (mem_newIds.mpr ⟨earlier, new, later, hrows, hnew, rfl⟩) heq
  · intro hfree
    refine ⟨hkept, newIds_nodup _ rows, ?_⟩
    rintro id hid _ hnew rfl
    obtain ⟨r, hr, rfl⟩ := List.mem_map.mp hid
    obtain ⟨earlier, new, later, hrows, hneeds, heq⟩ := mem_newIds.mp hnew
    have hkeep : needsId rt t r = false := by simpa using (List.mem_filter.mp hr).2
    refine hfree earlier new later hrows hneeds r (List.mem_filter.mp hr).1 hkeep ?_ heq
    rw [heq]
    exact newId_not_stored (by omega)

/-! ## From the loop to the table -/

section
variable {column key : Str} (hne : column ≠ key)
include hne

theorem coerceDate_get? (r : Dict Value) : (coerceDate rt column r).get? key = r.get? key := by
  unfold coerceDate
  split
  · split
    · exact Dict.get?_set_ne r hne _
    · rfl
  · rfl

theorem coerceFloat_get? {r r' : Dict Value} (h : coerceFloat rt column r = .ok r') :
    r'.get? key = r.get? key := by
  obtain ⟨x, -, rfl⟩ := map_ok h
  exact Dict.get?_set_ne r hne _

theorem coerceInt_get? {r r' : Dict Value} (h : coerceInt rt column r = .ok r') :
    r'.get? key = r.get? key := by
  obtain ⟨x, -, rfl⟩ := map_ok h
  exact Dict.get?_set_ne r hne _

theorem coerceEmbedding_get? {encode : Value → Except Exn Value} {text : Str} {r r' : Dict Value}
    (h : coerceEmbedding encode text column r = .ok r') : r'.get? key = r.get? key := by
  unfold coerceEmbedding at h
  split at h
  · obtain ⟨x, -, rfl⟩ := map_ok h
    exact Dict.get?_set_ne r hne _
  · cases h
    rfl

end

theorem coerceTags_get? {key : Str} (hne : ("tags" : Str) ≠ key) (r : Dict Value) :
    (coerceTags r).get? key = r.get? key := by
  unfold coerceTags
  split
  · exact Dict.get?_set_ne r hne _
  · rfl

theorem coerceSpecs_get? {key : Str} (hne : ("specs" : Str) ≠ key) (r : Dict Value) :
    (coerceSpecs rt r).get? key = r.get? key := by
  unfold coerceSpecs
  split
  · split <;> exact Dict.get?_set_ne r hne _
  · rfl

/-- No coercion touches the id. -/
theorem coerceRow_id {encode : Value → Except Exn Value} {r r' : Dict Value}
    (h : coerceRow rt encode t r = .ok r') : r'.get? t.idCol = r.get? t.idCol := by
  cases t with
  | productCatalog =>
    obtain ⟨r₁, h₁, h⟩ := bind_ok h
    obtain ⟨r₂, h₂, h⟩ := bind_ok h
    obtain ⟨r₃, h₃, h⟩ := bind_ok h
    obtain ⟨r₄, h₄, h⟩ := bind_ok h
    obtain ⟨r₅, h₅, h⟩ := bind_ok h
    rw [coerceEmbedding_get? (by decide) h, coerceSpecs_get? (by decide) r₅,
      coerceInt_get? (by decide) h₅, coerceFloat_get? (by decide) h₄,
      coerceInt_get? (by decide) h₃, coerceInt_get? (by decide) h₂,
      coerceFloat_get? (by decide) h₁]
  | companyFaqs =>
    rw [coerceEmbedding_get? (by decide) h, coerceTags_get? (by decide)]
  | companyTos =>
    cases h
    rw [coerceDate_get? (by decide), coerceDate_get? (by decide), coerceTags_get? (by decide)]

theorem assignId_id (m : ℕ) (r : Dict Value) :
    idText rt t (assignId rt t m r).2 =
      if needsId rt t r then newId rt t r (m + 1) else idText rt t r := by
  unfold assignId
  split
  · simp [idText, Dict.getD]
  · rfl

/-- After the id loop every row has an id. -/
theorem assignId_has (m : ℕ) (r : Dict Value) :
    t.idCol ∈ (assignId rt t m r).2.keys := by
  rw [← Dict.get?_isSome_iff]
  unfold assignId
  split
  · simp
  · rename_i h
    cases hget : r.get? t.idCol with
    | none => simp [needsId_eq, blankId, Dict.getD, hget] at h
    | some v => rfl

theorem prepareRows_ids {encode : Value → Except Exn Value} {m : ℕ} {rows rows' : List (Dict Value)}
    (h : prepareRows rt encode t m rows = .ok rows') :
    rows'.map (idText rt t) = finalIds rt t m rows ∧ ∀ r ∈ rows', t.idCol ∈ r.keys := by
  induction rows generalizing m rows' with
  | nil =>
    cases h
    exact ⟨rfl, nofun⟩
  | cons r rows ih =>
    obtain ⟨r', hr, h⟩ := bind_ok h
    obtain ⟨rest, hrest, h⟩ := bind_ok h
    cases h
    have hid := coerceRow_id hr
    have htext : idText rt t r' = idText rt t (assignId rt t m r).2 := by
      simp only [idText, Dict.getD, hid]
    obtain ⟨hids, hhas⟩ := ih hrest
    constructor
    · rw [List.map_cons, htext, assignId_id, hids, finalIds]
      unfold assignId
      split <;> rfl
    · intro x hx
      rcases List.mem_cons.mp hx with rfl | hx
      · rw [← Dict.get?_isSome_iff, hid, Dict.get?_isSome_iff]
        exact assignId_has m r
      · exact hhas x hx

/-- The table lists the prepared rows under their ids. -/
theorem storedIds_of_storeRows {ch : ClickHouse}
    (hwrite : ∀ v w, ch.write t.idCol v = some w → rt.str w = rt.str v)
    {columns cols : List Str} (hcolumn : t.idCol ∈ columns) (hcol : t.idCol ∈ cols)
    {rows : List (Dict Value)} {stored : List Row}
    (h : storeRows ch columns cols (rows.map fun r => cols.map fun c => r.getD c .none) =
      some stored) :
    storedIds rt t ⟨columns, stored⟩ = rows.map (idText rt t) := by
  induction rows generalizing stored with
  | nil =>
    cases h
    rfl
  | cons r rows ih =>
    simp only [storeRows, List.map_cons, List.mapM_cons, Option.bind_eq_bind,
      Option.bind_eq_some_iff, Option.pure_def, Option.some.injEq] at h
    obtain ⟨row, hrow, rest, hrest, rfl⟩ := h
    obtain ⟨w, hw, hcell⟩ := Dict.get?_zip_mapM hrow hcolumn
    simp only [Dict.get?_zip_map _ hcol] at hw
    have hrestIds := ih hrest
    simp only [storedIds, Table.cell] at hrestIds ⊢
    rw [List.map_cons, List.map_cons, hrestIds, hcell, Option.getD_some, hwrite _ _ hw, idText]

/-- The prepared rows are stored under the ids of the id loop. -/
theorem storedIds_of_prepared {ch : ClickHouse} {encode : Value → Except Exn Value}
    (hwrite : ∀ v w, ch.write t.idCol v = some w → rt.str w = rt.str v) {m : ℕ}
    {submitted rows : List (Dict Value)} {columns : List Str} {stored : List Row}
    (hrows : prepareRows rt encode t m submitted = .ok rows)
    (hcols : ∀ c ∈ insertColumns rows, c ∈ columns)
    (hstored : storeRows ch columns (insertColumns rows) (insertData rows) = some stored) :
    storedIds rt t ⟨columns, stored⟩ = finalIds rt t m submitted := by
  obtain ⟨hids, hhas⟩ := prepareRows_ids hrows
  rw [← hids]
  cases rows with
  | nil =>
    cases hstored
    rfl
  | cons r rs =>
    have hcol : t.idCol ∈ insertColumns (r :: rs) := hhas r List.mem_cons_self
    exact storedIds_of_storeRows hwrite (hcols _ hcol) hcol hstored

/-! ## A save that succeeded -/

/-- A run that returns had its statement answered, and goes on to return. -/
theorem runPhase_ok {ch : ClickHouse} {call : SaveCall} (ph : Phase) {q : Stmt}
    (hq : ph.stmt = some q) {faults : ℕ → Fault} {db : Database}
    (h : (runPhase rt ch call faults db ph).outcome = .ok ()) :
    ∃ a db', exec ch db q = .ok (a, db') ∧
      let rest := runPhase rt ch call (fun n => faults (n + 1)) db'
        (ph.next rt call.encode call.data a)
      rest.outcome = .ok () ∧ (runPhase rt ch call faults db ph).db = rest.db := by
  rcases runPhase_step rt ch call hq faults db with
    ⟨e, heq⟩ | ⟨a, db', hexec, ⟨e, heq⟩ | ⟨rest, rfl, heq⟩⟩
  · rw [heq] at h
    cases h
  · rw [heq] at h
    cases h
  · rw [heq] at h ⊢
    exact ⟨a, db', hexec, h, rfl⟩

/-- A swap that ends in success puts its rows, stored, into the live table. -/
theorem stores_of_swap {ch : ClickHouse} {call : SaveCall} {faults : ℕ → Fault} {db : Database}
    {before : Table} {rows : List (Dict Value)} (hbefore : db t.name = some before)
    (h : (runPhase rt ch call faults db (.creating t rows)).outcome = .ok ()) :
    ∃ stored, (∀ c ∈ insertColumns rows, c ∈ before.columns) ∧
      storeRows ch before.columns (insertColumns rows) (insertData rows) = some stored ∧
      (runPhase rt ch call faults db (.creating t rows)).db t.name =
        some ⟨before.columns, stored⟩ := by
  have hne := t.name_ne_tempName t
  obtain ⟨_, db₁, hcreate, h, hdb₁⟩ := runPhase_ok (.creating t rows) rfl h
  obtain ⟨_, db₂, hfill, h, hdb₂⟩ := runPhase_ok (.filling t rows) rfl h
  obtain ⟨_, db₃, hswap, h, hdb₃⟩ := runPhase_ok (.swapping t rows) rfl h
  obtain ⟨_, db₄, hdrop, h, hdb₄⟩ := runPhase_ok (.dropping t) rfl h
  obtain ⟨-, source, hsource, rfl⟩ := exec_create hcreate
  rw [hbefore] at hsource
  cases hsource
  obtain ⟨shadow, stored, hshadow, hcols, hstored, rfl⟩ := exec_insert hfill
  rw [setTable_self] at hshadow
  cases hshadow
  have hlive := (exec_exchange hne hswap).1
  rw [setTable_self] at hlive
  have hkept := exec_frame hdrop (by simpa [Stmt.writes] using hne)
  have hend := (hdb₁.trans hdb₂).trans (hdb₃.trans hdb₄)
  exact ⟨stored, hcols, hstored, (congrFun hend _).trans (hkept.trans hlive)⟩

/-- What a successful save leaves: its prepared rows, stored. -/
theorem stores_of_success {ch : ClickHouse} {call : SaveCall} {faults : ℕ → Fault} {db : Database}
    {before : Table} (hname : AdminTable.ofName? call.data.table = some t)
    (hbefore : db t.name = some before)
    (h : (runRequest rt ch db ⟨call, faults⟩).outcome = .ok ()) :
    ∃ rows stored, prepareRows rt call.encode t (tableMax rt t before) call.data.rows = .ok rows ∧
      (∀ c ∈ insertColumns rows, c ∈ before.columns) ∧
      storeRows ch before.columns (insertColumns rows) (insertData rows) = some stored ∧
      (runRequest rt ch db ⟨call, faults⟩).db t.name = some ⟨before.columns, stored⟩ := by
  obtain ⟨_, db₁, hexec, h, hdb⟩ := runPhase_ok .connecting rfl h
  cases hexec
  simp only [Phase.next, hname] at h hdb
  obtain ⟨idResult, db₂, hexec, h, hdb₂⟩ := runPhase_ok (.lookingUp t) rfl h
  simp only [exec, hbefore] at hexec
  cases hexec
  have hdb := hdb.trans hdb₂
  simp only [Phase.next, Phase.afterLookup] at h hdb
  split at h
  · cases h
  · rename_i hrows
    simp only [hrows] at hdb
    obtain ⟨_, db₃, hexec, -, hdb₃⟩ := runPhase_ok (.truncating t) rfl h
    obtain ⟨table, htable, hempty⟩ := exec_truncate hexec
    rw [hbefore] at htable
    cases htable
    have hnone : ∀ c ∈ insertColumns [], c ∈ before.columns := by simp [insertColumns]
    exact ⟨[], [], hrows, hnone, rfl, (congrFun (hdb.trans hdb₃) _).trans hempty⟩
  · rename_i rows hcons hrows
    simp only [hrows] at hdb
    obtain ⟨stored, hcols, hstored, hlive⟩ := stores_of_swap hbefore h
    exact ⟨rows, stored, hrows, hcols, hstored, (congrFun hdb _).trans hlive⟩

/-- The ids a successful save leaves are those of the id loop. -/
theorem storedIds_of_success {ch : ClickHouse}
    (hwrite : ∀ v w, ch.write t.idCol v = some w → rt.str w = rt.str v) {call : SaveCall}
    {faults : ℕ → Fault} {db : Database} {before after : Table}
    (hname : AdminTable.ofName? call.data.table = some t) (hbefore : db t.name = some before)
    (h : (runRequest rt ch db ⟨call, faults⟩).outcome = .ok ())
    (hafter : (runRequest rt ch db ⟨call, faults⟩).db t.name = some after) :
    storedIds rt t after = finalIds rt t (tableMax rt t before) call.data.rows := by
  obtain ⟨rows, stored, hrows, hcols, hstored, hend⟩ := stores_of_success hname hbefore h
  rw [hafter] at hend
  cases hend
  exact storedIds_of_prepared hwrite hrows hcols hstored

/-- The text `None` is no id the code could assign: it has no dash. -/
theorem newId_ne_of_namedNone {r : Dict Value} (h : namedNone rt t r = true) (n : ℕ) :
    newId rt t r n ≠ idText rt t r := by
  intro heq
  simp only [namedNone, Bool.and_eq_true, beq_iff_eq] at h
  have hdash : '-' ∈ idText rt t r := by
    rw [← heq]
    exact List.mem_append_right _ List.mem_cons_self
  have := mem_strip hdash rfl
  rw [h.2] at this
  revert this
  decide

/-- The rows submitted with an id keep it exactly if none is the text `None`. -/
theorem finalIds_kept_iff (m : ℕ) (rows : List (Dict Value)) :
    List.Forall₂ (fun r id => blankId rt t r = false → id = idText rt t r) rows
      (finalIds rt t m rows) ↔ ∀ r ∈ rows, namedNone rt t r = false := by
  induction rows generalizing m with
  | nil => simp [finalIds]
  | cons r rows ih =>
    rw [List.forall_mem_cons, finalIds]
    by_cases hneeds : needsId rt t r = true
    · rw [if_pos hneeds, List.forall₂_cons, ih]
      refine and_congr_left fun _ => ?_
      cases hnone : namedNone rt t r with
      | true =>
        have hblank : blankId rt t r = false := by
          simp only [namedNone, Bool.and_eq_true, Bool.not_eq_true'] at hnone
          exact hnone.1
        simpa using ⟨hblank, newId_ne_of_namedNone hnone (m + 1)⟩
      | false =>
        rw [needsId_eq, hnone, Bool.or_false] at hneeds
        simp [hneeds]
    · rw [if_neg hneeds, List.forall₂_cons, ih]
      rw [needsId_eq, Bool.not_eq_true, Bool.or_eq_false_iff] at hneeds
      simp [hneeds.2]

/-- **When ids stay unique.** Over any stored content, a successful save of
rows with pairwise distinct ids leaves distinct ids, and each of those rows
under its own, exactly if no row is submitted with the text `None` for an id
and no submitted id that is not stored has the number a new row is due. -/
theorem ids_kept_iff (rt : Runtime) (ch : ClickHouse) (t : AdminTable) (call : SaveCall)
    (faults : ℕ → Fault) (db : Database) (before after : Table)
    (hwrite : ∀ v w, ch.write t.idCol v = some w → rt.str w = rt.str v)
    (hname : AdminTable.ofName? call.data.table = some t) (hbefore : db t.name = some before)
    (hdistinct : ((call.data.rows.filter fun r => !blankId rt t r).map (idText rt t)).Nodup)
    (hsuccess : (runRequest rt ch db ⟨call, faults⟩).outcome = .ok ())
    (hafter : (runRequest rt ch db ⟨call, faults⟩).db t.name = some after) :
    IdsKept rt t call.data.rows after ↔
      (∀ r ∈ call.data.rows, namedNone rt t r = false) ∧
      NumbersFree rt t before call.data.rows := by
  have hids := storedIds_of_success hwrite hname hbefore hsuccess hafter
  have hkept : (keptIds rt t call.data.rows).Nodup := by
    refine hdistinct.sublist (List.Sublist.map _ (List.monotone_filter_right _ fun r hr => ?_))
    simp only [needsId_eq, Bool.not_eq_true', Bool.or_eq_false_iff] at hr ⊢
    exact hr.1
  rw [← finalIds_nodup_iff hkept, ← finalIds_kept_iff (tableMax rt t before), ← hids]
  exact ⟨fun h => ⟨h.kept, h.distinct⟩, fun h => ⟨h.2, h.1⟩⟩

/-- A page that shows the table as it is cannot collide. -/
theorem numbersFree_of_current_page {before : Table} {rows : List (Dict Value)}
    (h : ∀ r ∈ rows, needsId rt t r = false → idText rt t r ∈ storedIds rt t before) :
    NumbersFree rt t before rows :=
  fun _ _ _ _ _ r hr hkeep hgone => absurd (h r hr hkeep) hgone

end

/-! ## A page that still shows a deleted policy -/

/-- The page was loaded while `TOS-002` was stored, and adds a policy. -/
def stalePage : SaveCall :=
  demoSave [[("doc_id", .str "TOS-001"), ("title", .str "Returns")],
    [("doc_id", .str "TOS-002"), ("title", .str "Warranty")],
    [("doc_id", .str ""), ("title", .str "Privacy")]]

def stalePageAfter : Table :=
  ⟨["doc_id", "title", "tags", "effective_date"],
    [[.str "TOS-001", .str "Returns", .list [], .date 1970 1 1],
      [.str "TOS-002", .str "Warranty", .list [], .date 1970 1 1],
      [.str "TOS-002", .str "Privacy", .list [], .date 1970 1 1]]⟩

theorem stale_page_duplicates_id :
    ((stalePage.data.rows.filter fun r => !blankId Runtime.ascii .companyTos r).map
      (idText Runtime.ascii .companyTos)).Nodup ∧
    (runRequest Runtime.ascii demoClickHouse demoDatabase ⟨stalePage, fun _ => .none⟩).outcome =
      .ok () ∧
    (runRequest Runtime.ascii demoClickHouse demoDatabase ⟨stalePage, fun _ => .none⟩).db
      "company_tos" = some stalePageAfter ∧
    ¬ IdsKept Runtime.ascii .companyTos stalePage.data.rows stalePageAfter := by
  refine ⟨by decide +kernel, rfl, rfl, ?_⟩
  intro h
  exact absurd h.distinct (by decide +kernel)

/-- The same page loaded from the table as it is. -/
def currentPage : SaveCall :=
  demoSave [[("doc_id", .str "TOS-001"), ("title", .str "Returns")],
    [("doc_id", .str ""), ("title", .str "Privacy")]]

def currentPageAfter : Table :=
  ⟨["doc_id", "title", "tags", "effective_date"],
    [[.str "TOS-001", .str "Returns", .list [], .date 1970 1 1],
      [.str "TOS-002", .str "Privacy", .list [], .date 1970 1 1]]⟩

theorem ids_kept_iff_current_page :
    IdsKept Runtime.ascii .companyTos currentPage.data.rows currentPageAfter :=
  (ids_kept_iff Runtime.ascii demoClickHouse .companyTos currentPage (fun _ => .none) demoDatabase
    demoTable currentPageAfter (fun _ _ h => by cases h; rfl) rfl rfl (by decide +kernel) rfl
    rfl).mpr ⟨by decide +kernel, numbersFree_of_current_page (by decide +kernel)⟩

end TechMart.Admin
