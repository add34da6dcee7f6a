import TechMart.Admin.Shadow

/-!
# Saves one after another

Requests run to their end one at a time, each with its own faults. A request
that stops between creating the shadow table and dropping it leaves the table
behind, and nothing ever removes it: `later_save_iff`.
-/

namespace TechMart.Admin

open Python Sql

/-- How a handler ended: its outcome, the database, and the statements that
took effect, in order. -/
structure Ending (α : Type) where
  outcome : Except Exn α
  db : Database
  effects : List Stmt

section
variable (rt : Runtime) (ch : ClickHouse)

/-- The statement took effect. -/
def takesEffect (fault : Fault) (db : Database) (q : Stmt) : Bool :=
  match fault, exec ch db q with
  | .refused _, _ => false
  | _, .ok _ => true
  | _, .error _ => false

/-- Run a handler to its end; `faults n` befalls its statement `n`. -/
def runHandler {α : Type} : (ℕ → Fault) → Database → Handler α → Ending α
  | _, db, .done a => ⟨.ok a, db, []⟩
  | _, db, .raise e => ⟨.error e, db, []⟩
  | faults, db, .call q k =>
    let r := answer ch (faults 0) db q
    let rest := runHandler (fun n => faults (n + 1)) r.2 (k r.1)
    if takesEffect ch (faults 0) db q then { rest with effects := q :: rest.effects } else rest

structure Request where
  call : SaveCall
  faults : ℕ → Fault

def runRequest (db : Database) (r : Request) : Ending Unit :=
  runHandler ch r.faults db (saveData rt r.call.encode r.call.data)

/-- The endings of requests run one after another. -/
def runRequests : Database → List Request → List (Ending Unit)
  | _, [] => []
  | db, r :: rs => runRequest rt ch db r :: runRequests (runRequest rt ch db r).db rs

def dbAfter (db : Database) (requests : List Request) : Database :=
  requests.foldl (fun db r => (runRequest rt ch db r).db) db

/-- The request stopped after its `CREATE TABLE` and before its `DROP TABLE`. -/
def StoppedInSwap (t : AdminTable) (ending : Ending Unit) : Prop :=
  .createAs t.tempName t.name ∈ ending.effects ∧ .drop t.tempName ∉ ending.effects

/-- A request whose table exists, whose rows pass the coercions as `rows` and
are accepted by the columns as `stored`. -/
structure Valid (db : Database) (t : AdminTable) (call : SaveCall) (table : Table)
    (rows : List (Dict Value)) (stored : List Row) : Prop where
  named : AdminTable.ofName? call.data.table = some t
  present : db t.name = some table
  prepared : prepareRows rt call.encode t (currentMax rt
    ⟨[t.idCol], table.rows.map fun r => [(table.cell r t.idCol).getD .none]⟩) call.data.rows = .ok rows
  columns : ∀ c ∈ insertColumns rows, c ∈ table.columns
  accepted : storeRows ch table.columns (insertColumns rows) (insertData rows) = some stored

/-- The request is answered with success and its rows are the live table. -/
def Succeeds (db : Database) (t : AdminTable) (call : SaveCall) (table : Table)
    (stored : List Row) : Prop :=
  let ending := runRequest rt ch db ⟨call, fun _ => .none⟩
  ending.outcome = .ok () ∧ ending.db t.name = some ⟨table.columns, stored⟩

/-! ## One statement of a run -/

variable {rt ch}

theorem runHandler_call {α : Type} (faults : ℕ → Fault) (db : Database) (q : Stmt)
    (k : Except Exn Table → Handler α) :
    (∃ e, runHandler ch faults db (.call q k) =
      runHandler ch (fun n => faults (n + 1)) db (k (.error e))) ∨
    ∃ a db', exec ch db q = .ok (a, db') ∧ ∃ ans, (ans = .ok a ∨ ∃ e, ans = .error e) ∧
      runHandler ch faults db (.call q k) =
        { runHandler ch (fun n => faults (n + 1)) db' (k ans) with
          effects := q :: (runHandler ch (fun n => faults (n + 1)) db' (k ans)).effects } := by
  simp only [runHandler]
  cases hexec : exec ch db q with
  | error e =>
    left
    refine ⟨e, ?_⟩
    cases faults 0 <;> simp [answer, takesEffect, hexec]
  | ok r =>
    obtain ⟨a, db'⟩ := r
    cases hfault : faults 0 with
    | none => exact Or.inr ⟨a, db', rfl, .ok a, Or.inl rfl, by simp [answer, takesEffect, hexec]⟩
    | refused e => exact Or.inl ⟨e, by simp [answer, takesEffect, hexec]⟩
    | lost e =>
      exact Or.inr ⟨a, db', rfl, .error e, Or.inr ⟨e, rfl⟩, by simp [answer, takesEffect, hexec]⟩

theorem runHandler_none {α : Type} {db db' : Database} {q : Stmt} {a : Table}
    (k : Except Exn Table → Handler α) (h : exec ch db q = .ok (a, db')) :
    runHandler ch (fun _ => .none) db (.call q k) =
      { runHandler ch (fun _ => .none) db' (k (.ok a)) with
        effects := q :: (runHandler ch (fun _ => .none) db' (k (.ok a))).effects } := by
  simp [runHandler, answer, takesEffect, h]

theorem runHandler_rejected {α : Type} {db : Database} {q : Stmt} {e : Exn}
    (k : Except Exn Table → Handler α) (h : exec ch db q = .error e) :
    runHandler ch (fun _ => .none) db (.call q k) =
      runHandler ch (fun _ => .none) db (k (.error e)) := by
  simp [runHandler, answer, takesEffect, h]

/-! ## The shadow table over a whole run -/

/-- The rest of a request from one of its phases. -/
def runPhase (rt : Runtime) (ch : ClickHouse) (call : SaveCall) (faults : ℕ → Fault)
    (db : Database) (ph : Phase) : Ending Unit :=
  runHandler ch faults db (ph.prog rt call.encode call.data)

/-- Statements left, at most. -/
def Phase.rank : Phase → ℕ
  | .connecting => 6
  | .lookingUp _ => 5
  | .creating _ _ => 4
  | .filling _ _ => 3
  | .swapping _ _ => 2
  | .truncating _ | .dropping _ => 1
  | .returned | .raised _ => 0

theorem Phase.rank_next (rt : Runtime) (call : SaveCall) {ph : Phase} {q : Stmt}
    (hq : ph.stmt = some q) (a : Table) :
    (ph.next rt call.encode call.data a).rank < ph.rank := by
  cases ph with
  | connecting => simp only [next]; split <;> simp [rank]
  | lookingUp t => simp only [next, afterLookup]; split <;> simp [rank]
  | truncating | creating | filling | swapping | dropping => simp [next, rank]
  | returned | raised => cases hq

/-- A phase stops before its statement takes effect, or with its effect, or
goes on as the next phase. -/
theorem runPhase_step (rt : Runtime) (ch : ClickHouse) (call : SaveCall) {ph : Phase} {q : Stmt}
    (hq : ph.stmt = some q) (faults : ℕ → Fault) (db : Database) :
    (∃ e, runPhase rt ch call faults db ph = ⟨.error e, db, []⟩) ∨
    ∃ a db', exec ch db q = .ok (a, db') ∧
      ((∃ e, runPhase rt ch call faults db ph = ⟨.error e, db', [q]⟩) ∨
      ∃ rest, rest = runPhase rt ch call (fun n => faults (n + 1)) db'
          (ph.next rt call.encode call.data a) ∧
        runPhase rt ch call faults db ph = { rest with effects := q :: rest.effects }) := by
  have hprog := Phase.prog_eq rt call.encode call.data ph hq
  simp only [runPhase, hprog]
  rcases runHandler_call faults db q
      (fun ans => (ph.after rt call.encode call.data ans).prog rt call.encode call.data) with
    ⟨e, h⟩ | ⟨a, db', hexec, ans, rfl | ⟨e, rfl⟩, h⟩
  · exact Or.inl ⟨e, h⟩
  · exact Or.inr ⟨a, db', hexec, Or.inr ⟨_, rfl, h⟩⟩
  · exact Or.inr ⟨a, db', hexec, Or.inl ⟨e, h⟩⟩

theorem runPhase_ended (rt : Runtime) (ch : ClickHouse) (call : SaveCall) {ph : Phase}
    (hq : ph.stmt = none) (faults : ℕ → Fault) (db : Database) :
    (runPhase rt ch call faults db ph).db = db ∧
      (runPhase rt ch call faults db ph).effects = [] := by
  cases ph with
  | returned | raised => exact ⟨rfl, rfl⟩
  | _ => cases hq

/-- What a statement of the owner does to the shadow table. -/
theorem owner_effect (rt : Runtime) (call : SaveCall) {t : AdminTable} {ph : Phase} {q : Stmt}
    {db db' : Database} {a : Table} (hown : ph.owns t) (hq : ph.stmt = some q)
    (hexec : exec ch db q = .ok (a, db')) :
    (q = .drop t.tempName ∧ ph.next rt call.encode call.data a = .returned ∧
      db' t.tempName = none) ∨
    (q ≠ .drop t.tempName ∧ q ≠ .createAs t.tempName t.name ∧
      (ph.next rt call.encode call.data a).owns t ∧ db' t.tempName ≠ none) := by
  cases ph with
  | filling u rows =>
    have hu : u = t := hown
    subst hu
    cases hq
    obtain ⟨_, _, _, _, _, rfl⟩ := exec_insert hexec
    exact Or.inr ⟨by simp, by simp, rfl, by simp [setTable_self]⟩
  | swapping u rows =>
    have hu : u = t := hown
    subst hu
    cases hq
    obtain ⟨-, htemp⟩ := exec_exchange (u.name_ne_tempName u) hexec
    simp only [exec] at hexec
    split at hexec <;> cases hexec
    rename_i hlive _
    exact Or.inr ⟨by simp, by simp, rfl, by simp [htemp, hlive]⟩
  | dropping u =>
    have hu : u = t := hown
    subst hu
    cases hq
    simp only [exec, done] at hexec
    split at hexec <;> cases hexec
    exact Or.inl ⟨rfl, rfl, setTable_self ..⟩
  | connecting | lookingUp | truncating | creating | returned | raised => exact hown.elim

/-- The owner's run removes the shadow table exactly if its `DROP` took
effect, and creates none. -/
theorem runPhase_owner (rt : Runtime) (ch : ClickHouse) (call : SaveCall) {t : AdminTable}
    (n : ℕ) : ∀ {ph : Phase} {faults : ℕ → Fault} {db : Database},
    ph.rank ≤ n → ph.owns t → db t.tempName ≠ none →
    let ending := runPhase rt ch call faults db ph
    .createAs t.tempName t.name ∉ ending.effects ∧
    (ending.db t.tempName = none ↔ .drop t.tempName ∈ ending.effects) := by
  induction n with
  | zero =>
    intro ph faults db hrank hown
    cases ph with
    | filling | swapping | dropping => simp [Phase.rank] at hrank
    | _ => exact hown.elim
  | succ n ih =>
    intro ph faults db hrank hown hpresent
    obtain ⟨q, hq⟩ : ∃ q, ph.stmt = some q := by
      cases ph with
      | filling | swapping | dropping => exact ⟨_, rfl⟩
      | _ => exact hown.elim
    rcases runPhase_step rt ch call hq faults db with ⟨e, h⟩ | ⟨a, db', hexec, h⟩
    · simp [h, hpresent]
    · rcases owner_effect rt call hown hq hexec with
        ⟨rfl, hnext, hgone⟩ | ⟨hdrop, hcreate, hnext, hkept⟩
      · rcases h with ⟨e, h⟩ | ⟨rest, hrest, h⟩
        · simp [h, hgone]
        · rw [hnext] at hrest
          obtain ⟨hdb, heff⟩ := runPhase_ended rt ch call (show Phase.returned.stmt = none from rfl)
            (fun n => faults (n + 1)) db'
          rw [← hrest] at hdb heff
          simp [h, hdb, heff, hgone]
      · rcases h with ⟨e, h⟩ | ⟨rest, rfl, h⟩
        · simp [h, hkept, Ne.symm hdrop, Ne.symm hcreate]
        · have hlt := Phase.rank_next rt call hq a
          have hih := @ih _ (fun n => faults (n + 1)) _ (by omega) hnext hkept
          simpa [h, Ne.symm hdrop, Ne.symm hcreate] using hih

/-- A run that began with `db` left a shadow table it found, or, finding none,
left one exactly if it stopped between its `CREATE` and its `DROP`. -/
def ShadowKept (t : AdminTable) (db : Database) (ending : Ending Unit) : Prop :=
  (db t.tempName ≠ none → ending.db t.tempName ≠ none ∧
    .createAs t.tempName t.name ∉ ending.effects) ∧
  (db t.tempName = none → (ending.db t.tempName ≠ none ↔ StoppedInSwap t ending))

/-- A run that does nothing keeps the shadow table. -/
theorem shadowKept_still {t : AdminTable} {db : Database} {ending : Ending Unit}
    (hdb : ending.db t.tempName = db t.tempName)
    (heff : .createAs t.tempName t.name ∉ ending.effects) :
    ShadowKept t db ending := by
  constructor
  · intro hpresent
    rw [hdb]
    exact ⟨hpresent, heff⟩
  · intro habsent
    rw [hdb]
    exact ⟨fun hne => absurd habsent hne, fun hstop => absurd hstop.1 heff⟩

/-- A request that finds no shadow table creates it and owns it from then on. -/
theorem runPhase_creating (rt : Runtime) (ch : ClickHouse) (call : SaveCall) (t : AdminTable)
    (rows : List (Dict Value)) (faults : ℕ → Fault) (db : Database) :
    ShadowKept t db (runPhase rt ch call faults db (.creating t rows)) := by
  have hq : (Phase.creating t rows).stmt = some (.createAs t.tempName t.name) := rfl
  rcases runPhase_step rt ch call hq faults db with ⟨e, h⟩ | ⟨a, db', hexec, h⟩
  · rw [h]
    exact shadowKept_still rfl List.not_mem_nil
  · obtain ⟨habsent, table, hsource, hdb'⟩ := exec_create hexec
    have hpresent : db' t.tempName ≠ none := by simp [hdb', setTable_self]
    refine ⟨fun hne => absurd habsent hne, fun _ => ?_⟩
    rcases h with ⟨e, h⟩ | ⟨rest, rfl, h⟩
    · simp [h, hpresent, StoppedInSwap]
    · obtain ⟨-, hgone⟩ := @runPhase_owner rt ch call t _ (.filling t rows)
        (fun n => faults (n + 1)) db' (Nat.le_refl _) rfl hpresent
      simp only [h, StoppedInSwap, Phase.next, ne_eq, hgone, List.mem_cons, true_or, true_and,
        reduceCtorEq, false_or]

/-- A statement that leaves the shadow table alone makes no one its owner. -/
theorem not_owns_next (rt : Runtime) (call : SaveCall) {t : AdminTable} {ph : Phase} {q : Stmt}
    (hown : ¬ ph.owns t) (hq : ph.stmt = some q) (hw : t.tempName ∉ q.writes) (a : Table) :
    ¬ (ph.next rt call.encode call.data a).owns t := by
  intro hnext
  rcases @owns_after rt t ph call.encode call.data (.ok a) hnext with h | ⟨rows, rfl⟩
  · exact hown h
  · cases hq
    exact hw List.mem_cons_self

/-- Any request but the owner keeps the shadow table. -/
theorem runPhase_other (rt : Runtime) (ch : ClickHouse) (call : SaveCall) {t : AdminTable}
    (n : ℕ) : ∀ {ph : Phase} {faults : ℕ → Fault} {db : Database},
    ph.rank ≤ n → ¬ ph.owns t →
    ShadowKept t db (runPhase rt ch call faults db ph) := by
  induction n with
  | zero =>
    intro ph faults db hrank _
    have hq : ph.stmt = none := by
      cases ph <;> simp [Phase.rank] at hrank <;> rfl
    obtain ⟨hdb, heff⟩ := runPhase_ended rt ch call hq faults db
    exact shadowKept_still (by rw [hdb]) (by simp [heff])
  | succ n ih =>
    intro ph faults db hrank hown
    cases hq : ph.stmt with
    | none =>
      obtain ⟨hdb, heff⟩ := runPhase_ended rt ch call hq faults db
      exact shadowKept_still (by rw [hdb]) (by simp [heff])
    | some q =>
      by_cases hw : t.tempName ∈ q.writes
      · -- the one statement of another request that writes it creates it
        obtain ⟨rows, rfl⟩ := (shadow_written hq hw).resolve_left hown
        exact runPhase_creating rt ch call t rows faults db
      · have hcreate : Stmt.createAs t.tempName t.name ≠ q := by
          rintro rfl
          exact hw List.mem_cons_self
        have hdrop : Stmt.drop t.tempName ≠ q := by
          rintro rfl
          exact hw List.mem_cons_self
        rcases runPhase_step rt ch call hq faults db with ⟨e, h⟩ | ⟨a, db', hexec, h⟩
        · rw [h]
          exact shadowKept_still rfl List.not_mem_nil
        · have hsame := exec_frame hexec hw
          rcases h with ⟨e, h⟩ | ⟨rest, rfl, h⟩
          · rw [h]
            exact shadowKept_still hsame (by simpa using hcreate)
          · have hlt := Phase.rank_next rt call hq a
            have hnext := not_owns_next rt call hown hq hw a
            have hih := @ih _ (fun n => faults (n + 1)) db' (by omega) hnext
            unfold ShadowKept at hih ⊢
            rw [hsame] at hih
            simpa [h, hcreate, hdrop, StoppedInSwap] using hih

/-- Over any sequence of requests the shadow table is left behind exactly if
one of them stopped between its `CREATE` and its `DROP`. -/
theorem shadow_left_iff (rt : Runtime) (ch : ClickHouse) {t : AdminTable}
    (requests : List Request) {db : Database} (h : db t.tempName = none) :
    dbAfter rt ch db requests t.tempName ≠ none ↔
      ∃ ending ∈ runRequests rt ch db requests, StoppedInSwap t ending := by
  have stays : ∀ (requests : List Request) (db : Database), db t.tempName ≠ none →
      dbAfter rt ch db requests t.tempName ≠ none := by
    intro requests
    induction requests with
    | nil => exact fun _ h => h
    | cons r rs ih =>
      intro db hpresent
      have hkept := @runPhase_other rt ch r.call t 6 .connecting r.faults db (Nat.le_refl _) id
      exact ih _ (hkept.1 hpresent).1
  induction requests generalizing db with
  | nil => simp [dbAfter, runRequests, h]
  | cons r rs ih =>
    have hone : (runRequest rt ch db r).db t.tempName ≠ none ↔
        StoppedInSwap t (runRequest rt ch db r) :=
      (@runPhase_other rt ch r.call t 6 .connecting r.faults db (Nat.le_refl _) id).2 h
    simp only [dbAfter, List.foldl_cons, runRequests, List.mem_cons, exists_eq_or_imp] at ih ⊢
    by_cases hstop : StoppedInSwap t (runRequest rt ch db r)
    · simp only [hstop, true_or, iff_true]
      exact stays rs _ (hone.mpr hstop)
    · have habsent : (runRequest rt ch db r).db t.tempName = none := by
        by_contra hne
        exact hstop (hone.mp hne)
      simp only [hstop, false_or]
      exact ih habsent

/-! ## A valid request -/

/-- The statement of a phase that answers hands over to the next phase. -/
theorem runPhase_none (rt : Runtime) (call : SaveCall) {ph : Phase} {q : Stmt} {db db' : Database}
    {a : Table} (hq : ph.stmt = some q) (hexec : exec ch db q = .ok (a, db')) :
    let rest := runPhase rt ch call (fun _ => .none) db' (ph.next rt call.encode call.data a)
    (runPhase rt ch call (fun _ => .none) db ph).outcome = rest.outcome ∧
    (runPhase rt ch call (fun _ => .none) db ph).db = rest.db := by
  simp only [runPhase, Phase.prog_eq rt call.encode call.data ph hq, runHandler_none _ hexec]
  exact ⟨rfl, rfl⟩

/-- The phase a valid request reaches without writing anything. -/
def Phase.ofRows (t : AdminTable) : List (Dict Value) → Phase
  | [] => .truncating t
  | rows => .creating t rows

theorem valid_looksUp {db : Database} {t : AdminTable} {call : SaveCall} {table : Table}
    {rows : List (Dict Value)} {stored : List Row} (h : Valid rt ch db t call table rows stored) :
    let rest := runPhase rt ch call (fun _ => .none) db (.ofRows t rows)
    (runRequest rt ch db ⟨call, fun _ => .none⟩).outcome = rest.outcome ∧
    (runRequest rt ch db ⟨call, fun _ => .none⟩).db = rest.db := by
  have hconnect := @runPhase_none ch rt call .connecting _ db db _ rfl rfl
  simp only [Phase.next, h.named] at hconnect
  have hlookup := @runPhase_none ch rt call (.lookingUp t) _ db db
    ⟨[t.idCol], table.rows.map fun r => [(table.cell r t.idCol).getD .none]⟩ rfl
    (by simp only [exec, h.present])
  have hrows : (Phase.lookingUp t).next rt call.encode call.data
      ⟨[t.idCol], table.rows.map fun r => [(table.cell r t.idCol).getD .none]⟩ =
      .ofRows t rows := by
    simp only [Phase.next, Phase.afterLookup, h.prepared]
    cases rows <;> rfl
  rw [hrows] at hlookup
  exact ⟨hconnect.1.trans hlookup.1, hconnect.2.trans hlookup.2⟩

/-- A valid request without rows empties the table and needs no shadow. -/
theorem succeeds_of_nil {db : Database} {t : AdminTable} {call : SaveCall} {table : Table}
    {stored : List Row} (h : Valid rt ch db t call table [] stored) :
    Succeeds rt ch db t call table stored := by
  obtain ⟨houtcome, hdb⟩ := valid_looksUp h
  have hstored : stored = [] := by simpa [insertData, storeRows] using h.accepted.symm
  obtain ⟨ho, hd⟩ := @runPhase_none ch rt call (.truncating t) _ db
    (setTable db t.name (some ⟨table.columns, []⟩)) ⟨[], []⟩ rfl
    (by simp only [exec, h.present, done])
  refine ⟨houtcome.trans ho, ?_⟩
  rw [hdb, Phase.ofRows, hd, hstored]
  exact setTable_self ..

/-- A valid request succeeds where no shadow table is in its way. -/
theorem succeeds_of_absent {db : Database} {t : AdminTable} {call : SaveCall} {table : Table}
    {rows : List (Dict Value)} {stored : List Row} (h : Valid rt ch db t call table rows stored)
    (habsent : db t.tempName = none) : Succeeds rt ch db t call table stored := by
  have hne := t.name_ne_tempName t
  cases rows with
  | nil => exact succeeds_of_nil h
  | cons r rs =>
    obtain ⟨houtcome, hdb⟩ := valid_looksUp h
    have hcols : (insertColumns (r :: rs)).all (· ∈ table.columns) = true := by
      simpa using h.columns
    let created := setTable db t.tempName (some ⟨table.columns, []⟩)
    let filled := setTable created t.tempName (some ⟨table.columns, stored⟩)
    let swapped := setTable (setTable filled t.name (some ⟨table.columns, stored⟩)) t.tempName
      (some table)
    have hcreate := @runPhase_none ch rt call (.creating t (r :: rs)) _ db created ⟨[], []⟩ rfl
      (by simp only [exec, habsent, h.present, done, created])
    have hfill := @runPhase_none ch rt call (.filling t (r :: rs)) _ created filled ⟨[], []⟩ rfl
      (by simp only [exec, created, filled, setTable_self, hcols, if_true, h.accepted, done,
        List.nil_append])
    have hswap := @runPhase_none ch rt call (.swapping t (r :: rs)) _ filled swapped ⟨[], []⟩ rfl
      (by simp only [exec, filled, created, swapped, setTable_self, setTable_ne _ hne, h.present,
        done])
    have hdrop := @runPhase_none ch rt call (.dropping t) _ swapped
      (setTable swapped t.tempName none) ⟨[], []⟩ rfl (by simp only [exec, swapped, setTable_self, done])
    have hend : (runPhase rt ch call (fun _ => .none) db (.ofRows t (r :: rs))).db =
        setTable swapped t.tempName none :=
      hcreate.2.trans (hfill.2.trans (hswap.2.trans hdrop.2))
    refine ⟨houtcome.trans (hcreate.1.trans (hfill.1.trans (hswap.1.trans hdrop.1))), ?_⟩
    rw [hdb, hend]
    simp only [swapped, setTable_ne _ hne, setTable_self]

/-- A request with rows fails on a shadow table that is already there. -/
theorem not_succeeds_of_present {db : Database} {t : AdminTable} {call : SaveCall} {table : Table}
    {rows : List (Dict Value)} {stored : List Row} (h : Valid rt ch db t call table rows stored)
    (hrows : rows ≠ []) (hpresent : db t.tempName ≠ none) :
    ¬ Succeeds rt ch db t call table stored := by
  rintro ⟨hok, -⟩
  rw [(valid_looksUp h).1] at hok
  obtain ⟨shadow, hshadow⟩ := Option.ne_none_iff_exists'.mp hpresent
  obtain ⟨r, rs, rfl⟩ := List.exists_cons_of_ne_nil hrows
  have hrejected : exec ch db (.createAs t.tempName t.name) =
      .error ⟨"Table already exists " ++ t.tempName⟩ := by simp only [exec, hshadow]
  simp only [Phase.ofRows, runPhase, Phase.prog_eq rt call.encode call.data (.creating t (r :: rs)) rfl,
    runHandler_rejected _ hrejected] at hok
  cases hok

/-- **A save stopped in its swap blocks every later one.** After any requests,
with any faults, a valid request that meets no fault itself succeeds exactly
if its rows are none (the `TRUNCATE` branch) or no earlier request of the same
table stopped between creating the shadow table and dropping it. -/
theorem later_save_iff (rt : Runtime) (ch : ClickHouse) (db₀ : Database) (t : AdminTable)
    (requests : List Request) (call : SaveCall) (table : Table) (rows : List (Dict Value))
    (stored : List Row) (hfresh : db₀ t.tempName = none)
    (hvalid : Valid rt ch (dbAfter rt ch db₀ requests) t call table rows stored) :
    Succeeds rt ch (dbAfter rt ch db₀ requests) t call table stored ↔
      rows = [] ∨ ∀ ending ∈ runRequests rt ch db₀ requests, ¬ StoppedInSwap t ending := by
  have hleft := shadow_left_iff rt ch requests hfresh
  constructor
  · intro hsuccess
    by_contra hcond
    simp only [not_or, not_forall, not_not] at hcond
    obtain ⟨hrows, ending, hending, hstop⟩ := hcond
    exact not_succeeds_of_present hvalid hrows (hleft.mpr ⟨ending, hending, hstop⟩) hsuccess
  · rintro (rfl | hnone)
    · exact succeeds_of_nil hvalid
    · refine succeeds_of_absent hvalid (by_contra fun hpresent => ?_)
      obtain ⟨ending, hending, hstop⟩ := hleft.mp hpresent
      exact hnone ending hending hstop

end

/-! ## A policy dated in the thirteenth month -/

def datedSave (date : String) : SaveCall :=
  demoSave [[("doc_id", .str "TOS-001"), ("title", .str "Refunds"), ("effective_date", .str date)]]

/-- The date does not parse, reaches the insert as text and is rejected there. -/
def misdated : Request := ⟨datedSave "2024-13-01", fun _ => .none⟩

def datedRows : List (Dict Value) :=
  [[("doc_id", .str "TOS-001"), ("title", .str "Refunds"), ("effective_date", .date 2024 12 1),
    ("tags", .list [])]]

def datedStored : List Row := [[.str "TOS-001", .str "Refunds", .list [], .date 2024 12 1]]

theorem datedSave_valid (requests : List Request)
    (h : dbAfter Runtime.ascii demoClickHouse demoDatabase requests "company_tos" = some demoTable) :
    Valid Runtime.ascii demoClickHouse (dbAfter Runtime.ascii demoClickHouse demoDatabase requests)
      .companyTos (datedSave "2024-12-01") demoTable datedRows datedStored where
  named := rfl
  present := h
  prepared := rfl
  columns := by decide
  accepted := rfl

/-- The first try of the save fails at its `CREATE TABLE`. -/
def refusedCreate : Request :=
  ⟨datedSave "2024-12-01", fun n => if n = 2 then .refused ⟨"Timeout exceeded"⟩ else .none⟩

/-- It leaves no shadow table behind, and the save can be made again. -/
theorem later_save_iff_refused_create :
    (runRequest Runtime.ascii demoClickHouse demoDatabase refusedCreate).outcome =
      .error ⟨"Timeout exceeded"⟩ ∧
    Succeeds Runtime.ascii demoClickHouse
      (dbAfter Runtime.ascii demoClickHouse demoDatabase [refusedCreate]) .companyTos
      (datedSave "2024-12-01") demoTable datedStored := by
  refine ⟨rfl, (later_save_iff Runtime.ascii demoClickHouse demoDatabase .companyTos [refusedCreate]
    (datedSave "2024-12-01") demoTable datedRows datedStored rfl (datedSave_valid _ rfl)).mpr
      (Or.inr ?_)⟩
  rintro ending hending ⟨hcreated, -⟩
  rw [List.mem_singleton.mp hending] at hcreated
  have heffects : (runRequest Runtime.ascii demoClickHouse demoDatabase refusedCreate).effects =
      [.connect, .selectColumn "doc_id" "company_tos"] := rfl
  rw [heffects] at hcreated
  simp at hcreated

/-- After the misdated save the valid one is refused its shadow table. -/
theorem misdated_save_blocks :
    Valid Runtime.ascii demoClickHouse
      (dbAfter Runtime.ascii demoClickHouse demoDatabase [misdated]) .companyTos
      (datedSave "2024-12-01") demoTable datedRows datedStored ∧
    ¬ Succeeds Runtime.ascii demoClickHouse
      (dbAfter Runtime.ascii demoClickHouse demoDatabase [misdated]) .companyTos
      (datedSave "2024-12-01") demoTable datedStored := by
  have hvalid := datedSave_valid [misdated] rfl
  exact ⟨hvalid, not_succeeds_of_present hvalid (by nofun) (by rintro ⟨⟩)⟩

end TechMart.Admin
