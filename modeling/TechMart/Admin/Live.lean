import TechMart.Admin.Ids

/-!
# What a save does to its table

A request, however it ends and whatever befalls its statements, leaves the
live table alone or puts exactly its own rows there: `live_after`. Every
property of sequences of saves is read off these two cases.
-/

namespace TechMart.Admin

open Python Sql

/-- A statement that took effect wrote the live table. -/
def wroteLive (t : AdminTable) (effects : List Stmt) : Bool :=
  effects.any fun q => t.name ∈ q.writes

/-- The request left the live table as it was. -/
structure LeftAlone (t : AdminTable) (db : Database) (ending : Ending Unit) : Prop where
  unwritten : wroteLive t ending.effects = false
  same : ending.db t.name = db t.name

/-- The request put its rows there: prepared as `rows` and stored as `stored`. -/
structure PutRows (rt : Runtime) (ch : ClickHouse) (t : AdminTable) (call : SaveCall)
    (db : Database) (ending : Ending Unit) (before : Table) (rows : List (Dict Value))
    (stored : List Row) : Prop where
  written : wroteLive t ending.effects = true
  named : AdminTable.ofName? call.data.table = some t
  present : db t.name = some before
  prepared : prepareRows rt call.encode t (tableMax rt t before) call.data.rows = .ok rows
  columns : ∀ c ∈ insertColumns rows, c ∈ before.columns
  accepted : storeRows ch before.columns (insertColumns rows) (insertData rows) = some stored
  after : ending.db t.name = some ⟨before.columns, stored⟩

section
variable {rt : Runtime} {ch : ClickHouse} {call : SaveCall} {t : AdminTable}

/-- A phase whose statement does not write the live table leaves it alone, or
goes on as the next phase with the table as it was. -/
theorem unwritten_step (rt : Runtime) (ch : ClickHouse) (call : SaveCall) (ph : Phase) {q : Stmt}
    (hq : ph.stmt = some q) (hw : t.name ∉ q.writes) (faults : ℕ → Fault) (db : Database) :
    LeftAlone t db (runPhase rt ch call faults db ph) ∨
    ∃ a db', exec ch db q = .ok (a, db') ∧ db' t.name = db t.name ∧
      let rest := runPhase rt ch call (fun n => faults (n + 1)) db'
        (ph.next rt call.encode call.data a)
      runPhase rt ch call faults db ph = { rest with effects := q :: rest.effects } := by
  rcases runPhase_step rt ch call hq faults db with
    ⟨e, h⟩ | ⟨a, db', hexec, ⟨e, h⟩ | ⟨rest, rfl, h⟩⟩
  · rw [h]
    exact Or.inl ⟨rfl, rfl⟩
  · rw [h]
    exact Or.inl ⟨by simp [wroteLive, hw], exec_frame hexec hw⟩
  · exact Or.inr ⟨a, db', hexec, exec_frame hexec hw, h⟩

/-- What the rest of a run leaves alone, it leaves alone after such a statement. -/
theorem LeftAlone.cons {db db' : Database} {q : Stmt} {rest : Ending Unit}
    (h : LeftAlone t db' rest) (hw : t.name ∉ q.writes) (hsame : db' t.name = db t.name) :
    LeftAlone t db { rest with effects := q :: rest.effects } where
  unwritten := by
    have := h.unwritten
    simp only [wroteLive, List.any_cons, Bool.or_eq_false_iff, decide_eq_false_iff_not] at this ⊢
    exact ⟨hw, this⟩
  same := h.same.trans hsame

/-- The table a phase works on. -/
def Phase.table : Phase → Option AdminTable
  | .lookingUp u | .truncating u | .creating u _ | .filling u _ | .swapping u _ | .dropping u =>
    some u
  | .connecting | .returned | .raised _ => none

theorem Phase.unwritten_of_other {ph : Phase} {u : AdminTable} (hu : u ≠ t)
    (htable : ph.table = some u) {q : Stmt} (hq : ph.stmt = some q) : t.name ∉ q.writes := by
  intro hw
  rcases live_written hq hw with rfl | ⟨rows, rfl⟩
  · exact hu (Option.some.inj htable).symm
  · exact hu (Option.some.inj htable).symm

theorem Phase.table_next {ph : Phase} {u : AdminTable} (htable : ph.table = some u) (a : Table) :
    (ph.next rt call.encode call.data a).table = some u ∨
    (ph.next rt call.encode call.data a).stmt = none := by
  cases ph with
  | connecting | returned | raised => cases htable
  | lookingUp =>
    simp only [next, afterLookup]
    split
    · exact Or.inr rfl
    · exact Or.inl htable
    · exact Or.inl htable
  | creating | filling | swapping => exact Or.inl htable
  | truncating | dropping => exact Or.inr rfl

theorem leftAlone_ended {ph : Phase} (hq : ph.stmt = none) (faults : ℕ → Fault) (db : Database) :
    LeftAlone t db (runPhase rt ch call faults db ph) := by
  obtain ⟨hdb, heff⟩ := runPhase_ended rt ch call hq faults db
  constructor
  · rw [heff]
    rfl
  · rw [hdb]

/-- A save of another table leaves this one alone. -/
theorem leftAlone_other {u : AdminTable} (hu : u ≠ t) (n : ℕ) :
    ∀ {ph : Phase} {faults : ℕ → Fault} {db : Database}, ph.rank ≤ n → ph.table = some u →
      LeftAlone t db (runPhase rt ch call faults db ph) := by
  induction n with
  | zero =>
    intro ph faults db hrank htable
    cases ph <;> simp [Phase.rank, Phase.table] at hrank htable
  | succ n ih =>
    intro ph faults db hrank htable
    cases hq : ph.stmt with
    | none => exact leftAlone_ended hq faults db
    | some q =>
      have hw := Phase.unwritten_of_other hu htable hq
      rcases unwritten_step rt ch call _ hq hw faults db with
        h | ⟨a, db', -, hsame, h⟩
      · exact h
      · rw [h]
        have hlt := Phase.rank_next rt call hq a
        rcases Phase.table_next htable a with hnext | hnext
        · exact (ih (by omega) hnext).cons hw hsame
        · exact (leftAlone_ended hnext _ _).cons hw hsame

theorem leftAlone_dropping (faults : ℕ → Fault) (db : Database) :
    LeftAlone t db (runPhase rt ch call faults db (.dropping t)) := by
  have hw : t.name ∉ (Stmt.drop t.tempName).writes := by
    simpa [Stmt.writes] using t.name_ne_tempName t
  rcases unwritten_step rt ch call (.dropping t) rfl hw faults db with
    h | ⟨a, db', -, hsame, h⟩
  · exact h
  · rw [h]
    exact (leftAlone_ended rfl _ _).cons hw hsame

/-! ## The table under a save of its own -/

/-- The live table was written, and holds this. -/
structure Holds (t : AdminTable) (table : Table) (ending : Ending Unit) : Prop where
  written : wroteLive t ending.effects = true
  after : ending.db t.name = some table

theorem Holds.cons {table : Table} {q : Stmt} {rest : Ending Unit} (h : Holds t table rest) :
    Holds t table { rest with effects := q :: rest.effects } where
  written := by
    have := h.written
    simp only [wroteLive, List.any_cons, Bool.or_eq_true] at this ⊢
    exact Or.inr this
  after := h.after

/-- The swap puts the shadow table there, or nothing. -/
theorem live_of_swapping (rt : Runtime) (ch : ClickHouse) (call : SaveCall)
    (rows : List (Dict Value)) {shadow : Table} {db : Database}
    (hshadow : db t.tempName = some shadow) (faults : ℕ → Fault) :
    LeftAlone t db (runPhase rt ch call faults db (.swapping t rows)) ∨
    Holds t shadow (runPhase rt ch call faults db (.swapping t rows)) := by
  have hwritten (effects : List Stmt) :
      wroteLive t (.exchange t.name t.tempName :: effects) = true := by
    simp [wroteLive, Stmt.writes]
  rcases @runPhase_step rt ch call (.swapping t rows) _ rfl faults db with
    ⟨e, h⟩ | ⟨a, db', hexec, hrest⟩
  · rw [h]
    exact Or.inl ⟨rfl, rfl⟩
  · have hlive := (exec_exchange (t.name_ne_tempName t) hexec).1.trans hshadow
    right
    rcases hrest with ⟨e, h⟩ | ⟨rest, rfl, h⟩
    · rw [h]
      exact ⟨hwritten _, hlive⟩
    · rw [h]
      refine ⟨hwritten _, ?_⟩
      exact (leftAlone_dropping (fun n => faults (n + 1)) db').same.trans hlive

/-- From the insert on: the rows as they are stored, or nothing. -/
theorem live_of_filling (rt : Runtime) (ch : ClickHouse) (call : SaveCall)
    (rows : List (Dict Value)) {columns : List Str} {db : Database}
    (hshadow : db t.tempName = some ⟨columns, []⟩) (faults : ℕ → Fault) :
    LeftAlone t db (runPhase rt ch call faults db (.filling t rows)) ∨
    ∃ stored, (∀ c ∈ insertColumns rows, c ∈ columns) ∧
      storeRows ch columns (insertColumns rows) (insertData rows) = some stored ∧
      Holds t ⟨columns, stored⟩ (runPhase rt ch call faults db (.filling t rows)) := by
  have hw : t.name ∉ (Stmt.insert t.tempName (insertData rows) (insertColumns rows)).writes := by
    simpa [Stmt.writes] using t.name_ne_tempName t
  rcases unwritten_step rt ch call (.filling t rows) rfl hw faults
    db with h | ⟨a, db', hexec, hsame, h⟩
  · exact Or.inl h
  · obtain ⟨table, stored, htable, hcols, hstored, rfl⟩ := exec_insert hexec
    rw [hshadow] at htable
    cases htable
    rw [h]
    rcases live_of_swapping rt ch call rows
      (setTable_self db t.tempName (some ⟨columns, [] ++ stored⟩)) (fun n => faults (n + 1)) with
      hrest | hrest
    · exact Or.inl (hrest.cons hw hsame)
    · exact Or.inr ⟨stored, hcols, hstored, hrest.cons⟩

/-- From the shadow table's creation on. -/
theorem live_of_creating (rt : Runtime) (ch : ClickHouse) (call : SaveCall)
    (rows : List (Dict Value)) {before : Table} {db : Database}
    (hbefore : db t.name = some before) (faults : ℕ → Fault) :
    LeftAlone t db (runPhase rt ch call faults db (.creating t rows)) ∨
    ∃ stored, (∀ c ∈ insertColumns rows, c ∈ before.columns) ∧
      storeRows ch before.columns (insertColumns rows) (insertData rows) = some stored ∧
      Holds t ⟨before.columns, stored⟩ (runPhase rt ch call faults db (.creating t rows)) := by
  have hw : t.name ∉ (Stmt.createAs t.tempName t.name).writes := by
    simpa [Stmt.writes] using t.name_ne_tempName t
  rcases unwritten_step rt ch call (.creating t rows) rfl hw faults
    db with h | ⟨a, db', hexec, hsame, h⟩
  · exact Or.inl h
  · obtain ⟨-, source, hsource, rfl⟩ := exec_create hexec
    rw [hbefore] at hsource
    cases hsource
    rw [h]
    rcases live_of_filling rt ch call rows
      (setTable_self db t.tempName (some ⟨before.columns, []⟩)) (fun n => faults (n + 1)) with
      hrest | ⟨stored, hcols, hstored, hrest⟩
    · exact Or.inl (hrest.cons hw hsame)
    · exact Or.inr ⟨stored, hcols, hstored, hrest.cons⟩

/-- From the id query on. -/
theorem live_of_lookingUp {db : Database} (hname : AdminTable.ofName? call.data.table = some t)
    (faults : ℕ → Fault) :
    LeftAlone t db (runPhase rt ch call faults db (.lookingUp t)) ∨
    ∃ before rows stored,
      PutRows rt ch t call db (runPhase rt ch call faults db (.lookingUp t)) before rows stored := by
  have hw : t.name ∉ (Stmt.selectColumn t.idCol t.name).writes := List.not_mem_nil
  rcases unwritten_step rt ch call (.lookingUp t) rfl hw faults
    db with h | ⟨a, db', hexec, hsame, h⟩
  · exact Or.inl h
  · cases hbefore : db t.name with
    | none =>
      simp only [exec, hbefore] at hexec
      cases hexec
    | some before =>
      simp only [exec, hbefore] at hexec
      cases hexec
      rw [h]
      simp only [Phase.next, Phase.afterLookup]
      split
      · exact Or.inl ((leftAlone_ended rfl _ _).cons hw hsame)
      · rename_i hrows
        rcases @runPhase_step rt ch call (.truncating t) _ rfl (fun n => faults (n + 1)) db with
          ⟨e, hstep⟩ | ⟨a, db₂, htrunc, hrest⟩
        · rw [hstep]
          exact Or.inl ⟨by simp [wroteLive, Stmt.writes], rfl⟩
        · obtain ⟨table, htable, hempty⟩ := exec_truncate htrunc
          rw [hbefore] at htable
          cases htable
          have hnone : ∀ c ∈ insertColumns [], c ∈ before.columns := by simp [insertColumns]
          refine Or.inr ⟨before, [], [], ?_, hname, hbefore, hrows, hnone, rfl, ?_⟩
          · rcases hrest with ⟨e, hstep⟩ | ⟨rest, rfl, hstep⟩ <;>
              simp [hstep, wroteLive, Stmt.writes]
          · rcases hrest with ⟨e, hstep⟩ | ⟨rest, rfl, hstep⟩
            · rw [hstep]
              exact hempty
            · rw [hstep]
              exact hempty
      · rename_i rows hcons hrows
        rcases live_of_creating rt ch call rows hbefore
          (fun n => faults (n + 1)) with hrest | ⟨stored, hcols, hstored, hrest⟩
        · exact Or.inl (hrest.cons hw hsame)
        · have hholds := hrest.cons (q := .selectColumn t.idCol t.name)
          exact Or.inr ⟨before, rows, stored, hholds.written, hname, hbefore, hrows, hcols, hstored,
            hholds.after⟩

/-- **One request, one table.** Whatever befalls its statements, a request
leaves the live table as it was, or replaces it by all of its rows. -/
theorem live_after (rt : Runtime) (ch : ClickHouse) (r : Request) (t : AdminTable)
    (db : Database) :
    LeftAlone t db (runRequest rt ch db r) ∨
    ∃ before rows stored, PutRows rt ch t r.call db (runRequest rt ch db r) before rows stored := by
  have hw : t.name ∉ Stmt.connect.writes := List.not_mem_nil
  rcases unwritten_step rt ch r.call .connecting rfl hw r.faults
    db with h | ⟨a, db', hexec, hsame, h⟩
  · exact Or.inl h
  · cases hexec
    have hrun : runRequest rt ch db r = _ := h
    rw [hrun]
    simp only [Phase.next]
    cases hname : AdminTable.ofName? r.call.data.table with
    | none => exact Or.inl ((leftAlone_ended rfl _ _).cons hw hsame)
    | some u =>
      by_cases hu : u = t
      · subst hu
        rcases live_of_lookingUp hname (fun n => r.faults (n + 1)) with hrest | hrest
        · exact Or.inl (hrest.cons hw hsame)
        · obtain ⟨before, rows, stored, hrest⟩ := hrest
          have hholds := Holds.cons (q := .connect) ⟨hrest.written, hrest.after⟩
          exact Or.inr ⟨before, rows, stored, hholds.written, hname, hrest.present, hrest.prepared,
            hrest.columns, hrest.accepted, hholds.after⟩
      · exact Or.inl ((leftAlone_other hu 5 (Nat.le_refl _) rfl).cons hw hsame)

end

end TechMart.Admin
