import TechMart.Admin.Phase

/-!
# Interleaved saves

Any number of saves, on any of the tables, interleaved statement by statement
and stopped at any of them. A save that has created the shadow table owns it
until it drops it; `Ownership` is that invariant, and `live_table_whole` what
it gives: the live table only ever holds one save's rows, whole.
-/

namespace TechMart.Admin

open Python Sql

/-- One request, with the embedding model as it behaves during that request. -/
structure SaveCall where
  data : SaveData
  encode : Value → Except Exn Value

/-- The phase belongs to the save that created the shadow table of `t`. -/
def Phase.owns (t : AdminTable) : Phase → Prop
  | .filling u _ | .swapping u _ | .dropping u => u = t
  | _ => False

section
variable {ι : Type} (rt : Runtime) (ch : ClickHouse) (calls : ι → SaveCall)

/-- Saves in progress. -/
abbrev Saves (ι : Type) := Pool ι Database Exn Stmt Table Unit

/-- `rows` are the prepared rows of save `i`, from the ids it was answered. -/
def Prepared (log : List (ι × Stmt × Except Exn Table)) (i : ι) (t : AdminTable)
    (rows : List (Dict Value)) : Prop :=
  AdminTable.ofName? (calls i).data.table = some t ∧
  ∃ idResult, (i, Stmt.selectColumn t.idCol t.name, .ok idResult) ∈ log ∧
    prepareRows rt (calls i).encode t (currentMax rt idResult) (calls i).data.rows = .ok rows

/-- The table holds exactly the complete `insert_data` of save `i`. -/
def HoldsSave (log : List (ι × Stmt × Except Exn Table)) (i : ι) (t : AdminTable)
    (table : Table) : Prop :=
  ∃ rows, Prepared rt calls log i t rows ∧
    storeRows ch table.columns (insertColumns rows) (insertData rows) = some table.rows

/-- What a save knows in each phase. -/
def PhaseKnows (log : List (ι × Stmt × Except Exn Table)) (i : ι) : Phase → Prop
  | .lookingUp t => AdminTable.ofName? (calls i).data.table = some t
  | .truncating t => Prepared rt calls log i t []
  | .creating t rows | .filling t rows | .swapping t rows => Prepared rt calls log i t rows
  | _ => True

/-- What the shadow table holds while a save owns it. -/
def ShadowHolds (shadow : Table) : Phase → Prop
  | .filling _ _ => shadow.rows = []
  | .swapping _ rows =>
    storeRows ch shadow.columns (insertColumns rows) (insertData rows) = some shadow.rows
  | _ => True

structure Ownership (db₀ : Database) (t : AdminTable) (p : Saves ι) (ph : ι → Phase) : Prop where
  program : ∀ i, p.progs i = (ph i).prog rt (calls i).encode (calls i).data
  knows : ∀ i, PhaseKnows rt calls p.log i (ph i)
  single : ∀ i j, (ph i).owns t → (ph j).owns t → i = j
  shadow : ∀ i, (ph i).owns t →
    ∃ shadow, p.store t.tempName = some shadow ∧ ShadowHolds ch shadow (ph i)
  live : p.store t.name = db₀ t.name ∨
    ∃ i table, p.store t.name = some table ∧ HoldsSave rt ch calls p.log i t table

variable {rt ch calls} {db₀ : Database} {t : AdminTable}

theorem Prepared.of_subset {log log' : List (ι × Stmt × Except Exn Table)} {i : ι} {u : AdminTable}
    {rows : List (Dict Value)} (hlog : log ⊆ log') (h : Prepared rt calls log i u rows) :
    Prepared rt calls log' i u rows := by
  obtain ⟨hname, idResult, hmem, hrows⟩ := h
  exact ⟨hname, idResult, hlog hmem, hrows⟩

theorem Prepared.mono {log more : List (ι × Stmt × Except Exn Table)} {i : ι} {u : AdminTable}
    {rows : List (Dict Value)} (h : Prepared rt calls log i u rows) :
    Prepared rt calls (log ++ more) i u rows :=
  h.of_subset (List.subset_append_left _ _)

theorem HoldsSave.of_subset {log log' : List (ι × Stmt × Except Exn Table)} {i : ι}
    {u : AdminTable} {table : Table} (hlog : log ⊆ log') (h : HoldsSave rt ch calls log i u table) :
    HoldsSave rt ch calls log' i u table := by
  obtain ⟨rows, hrows, hstore⟩ := h
  exact ⟨rows, hrows.of_subset hlog, hstore⟩

theorem HoldsSave.mono {log more : List (ι × Stmt × Except Exn Table)} {i : ι} {u : AdminTable}
    {table : Table} (h : HoldsSave rt ch calls log i u table) :
    HoldsSave rt ch calls (log ++ more) i u table :=
  h.of_subset (List.subset_append_left _ _)

theorem PhaseKnows.of_subset {log log' : List (ι × Stmt × Except Exn Table)} {i : ι} {ph : Phase}
    (hlog : log ⊆ log') (h : PhaseKnows rt calls log i ph) : PhaseKnows rt calls log' i ph := by
  cases ph with
  | truncating | creating | filling | swapping => exact Prepared.of_subset hlog h
  | lookingUp => exact h
  | connecting | dropping | returned | raised => trivial

theorem PhaseKnows.mono {log more : List (ι × Stmt × Except Exn Table)} {i : ι} {ph : Phase}
    (h : PhaseKnows rt calls log i ph) : PhaseKnows rt calls (log ++ more) i ph :=
  h.of_subset (List.subset_append_left _ _)

/-- What a save learns from the answer to its statement. -/
theorem knows_after {log : List (ι × Stmt × Except Exn Table)} {i : ι} {ph : Phase} {q : Stmt}
    (hq : ph.stmt = some q) (h : PhaseKnows rt calls log i ph) (ans : Except Exn Table) :
    PhaseKnows rt calls (log ++ [(i, q, ans)]) i
      (ph.after rt (calls i).encode (calls i).data ans) := by
  cases ans with
  | error e => trivial
  | ok a =>
    cases ph with
    | connecting =>
      simp only [Phase.after, Phase.next]
      split
      · trivial
      · assumption
    | lookingUp u =>
      cases hq
      have hlog : (i, Stmt.selectColumn u.idCol u.name, Except.ok a) ∈
          log ++ [(i, .selectColumn u.idCol u.name, .ok a)] :=
        List.mem_append_right _ List.mem_cons_self
      simp only [Phase.after, Phase.next, Phase.afterLookup]
      split
      · trivial
      · rename_i hrows
        exact ⟨h, a, hlog, hrows⟩
      · rename_i hrows
        exact ⟨h, a, hlog, hrows⟩
    | creating | filling => exact Prepared.mono h
    | truncating | swapping | dropping | returned | raised => trivial

/-- A save comes to own the shadow table only by creating it. -/
theorem owns_after {ph : Phase} {encode : Value → Except Exn Value} {data : SaveData}
    {ans : Except Exn Table} (h : (ph.after rt encode data ans).owns t) :
    ph.owns t ∨ ∃ rows, ph = .creating t rows := by
  cases ans with
  | error e => exact h.elim
  | ok a =>
    cases ph with
    | connecting =>
      simp only [Phase.after, Phase.next] at h
      split at h <;> exact h.elim
    | lookingUp u =>
      simp only [Phase.after, Phase.next, Phase.afterLookup] at h
      split at h <;> exact h.elim
    | creating u rows =>
      have : u = t := h
      exact Or.inr ⟨rows, this ▸ rfl⟩
    | filling | swapping => exact Or.inl h
    | truncating | dropping | returned | raised => exact h.elim

/-- The shadow table of `t` is written only by its owner, or to create it. -/
theorem shadow_written {ph : Phase} {q : Stmt} (hq : ph.stmt = some q)
    (hw : t.tempName ∈ q.writes) : ph.owns t ∨ ∃ rows, ph = .creating t rows := by
  have hname (u : AdminTable) : t.tempName ≠ u.name := (u.name_ne_tempName t).symm
  have htemp {u : AdminTable} (h : t.tempName = u.tempName) : u = t :=
    (AdminTable.tempName_injective h).symm
  cases ph <;> cases hq <;> simp only [Stmt.writes, List.mem_cons, List.not_mem_nil, or_false] at hw
  case truncating u => exact absurd hw (hname u)
  case creating u rows => exact Or.inr ⟨rows, htemp hw ▸ rfl⟩
  case filling u rows => exact Or.inl (htemp hw)
  case swapping u rows => exact Or.inl (htemp (hw.resolve_left (hname u)))
  case dropping u => exact Or.inl (htemp hw)

/-- The live table of `t` is written only by truncating or exchanging it. -/
theorem live_written {ph : Phase} {q : Stmt} (hq : ph.stmt = some q) (hw : t.name ∈ q.writes) :
    ph = .truncating t ∨ ∃ rows, ph = .swapping t rows := by
  have htemp (u : AdminTable) : t.name ≠ u.tempName := t.name_ne_tempName u
  have hname {u : AdminTable} (h : t.name = u.name) : u = t := (AdminTable.name_injective h).symm
  cases ph <;> cases hq <;> simp only [Stmt.writes, List.mem_cons, List.not_mem_nil, or_false] at hw
  case truncating u => exact Or.inl (hname hw ▸ rfl)
  case creating u rows => exact absurd hw (htemp u)
  case filling u rows => exact absurd hw (htemp u)
  case swapping u rows => exact Or.inr ⟨rows, hname (hw.resolve_right (htemp u)) ▸ rfl⟩
  case dropping u => exact absurd hw (htemp u)

/-- A served statement changed nothing or took effect. -/
theorem serve_effect {db db' : Database} {q : Stmt} {ans : Except Exn Table}
    (h : Serve ch db q ans db') :
    (db' = db ∧ ∃ e, ans = .error e) ∨ ∃ a, exec ch db q = .ok (a, db') := by
  cases h with
  | answered h => exact Or.inr ⟨_, h⟩
  | refused e => exact Or.inl ⟨rfl, e, rfl⟩
  | lost e h => exact Or.inr ⟨_, h⟩

theorem exec_create {db db' : Database} {a : Table} {new source : Str}
    (h : exec ch db (.createAs new source) = .ok (a, db')) :
    db new = none ∧ ∃ t, db source = some t ∧ db' = setTable db new (some ⟨t.columns, []⟩) := by
  simp only [exec, done] at h
  split at h <;> cases h
  rename_i hnew hsource
  exact ⟨hnew, _, hsource, rfl⟩

theorem exec_insert {db db' : Database} {a : Table} {table : Str} {data : List Row}
    {cols : List Str} (h : exec ch db (.insert table data cols) = .ok (a, db')) :
    ∃ t rows, db table = some t ∧ (∀ c ∈ cols, c ∈ t.columns) ∧
      storeRows ch t.columns cols data = some rows ∧
      db' = setTable db table (some ⟨t.columns, t.rows ++ rows⟩) := by
  simp only [exec, done] at h
  split at h
  · split at h
    · rename_i hcols
      split at h <;> cases h
      exact ⟨_, _, by assumption, by simpa using hcols, by assumption, rfl⟩
    · cases h
  · cases h

theorem exec_exchange {db db' : Database} {a : Table} {x y : Str} (hxy : x ≠ y)
    (h : exec ch db (.exchange x y) = .ok (a, db')) : db' x = db y ∧ db' y = db x := by
  simp only [exec, done] at h
  split at h <;> cases h
  rename_i hx hy
  rw [setTable_ne _ hxy, setTable_self, setTable_self, hx, hy]
  exact ⟨rfl, rfl⟩

theorem exec_truncate {db db' : Database} {a : Table} {table : Str}
    (h : exec ch db (.truncate table) = .ok (a, db')) :
    ∃ t, db table = some t ∧ db' table = some ⟨t.columns, []⟩ := by
  simp only [exec, done] at h
  split at h <;> cases h
  exact ⟨_, by assumption, setTable_self ..⟩

/-- Ownership is handed on only through an absent shadow table. -/
theorem single_step {p : Saves ι} {ph : ι → Phase} (inv : Ownership rt ch calls db₀ t p ph)
    {i : ι} {q : Stmt} {ans : Except Exn Table} {db' : Database} (hq : (ph i).stmt = some q)
    (hs : Serve ch p.store q ans db') {j : ι} (hij : j ≠ i) (hj : (ph j).owns t) :
    ¬ ((ph i).after rt (calls i).encode (calls i).data ans).owns t := by
  intro hi
  rcases owns_after hi with hown | ⟨rows, hcreate⟩
  · exact hij (inv.single j i hj hown)
  · cases hs with
    | refused | lost => exact hi.elim
    | answered hexec =>
      rw [hcreate] at hq
      cases hq
      obtain ⟨shadow, hshadow, -⟩ := inv.shadow j hj
      rw [(exec_create hexec).1] at hshadow
      cases hshadow

/-- The handlers of all calls, before their first statement. -/
def handlers (rt : Runtime) (calls : ι → SaveCall) (i : ι) : Handler Unit :=
  saveData rt (calls i).encode (calls i).data

theorem ownership_start : Ownership rt ch calls db₀ t ⟨db₀, handlers rt calls, []⟩
    fun _ => .connecting where
  program := fun _ => rfl
  knows := fun _ => trivial
  single := fun _ _ h => h.elim
  shadow := fun _ h => h.elim
  live := Or.inl rfl

/-- A statement that replaced the live table put one save's rows there. -/
theorem holds_of_replaced {p : Saves ι} {ph : ι → Phase}
    (inv : Ownership rt ch calls db₀ t p ph) {i : ι} {q : Stmt} {a : Table} {db' : Database}
    (hq : (ph i).stmt = some q) (hexec : exec ch p.store q = .ok (a, db')) (hw : t.name ∈ q.writes) :
    ∃ table, db' t.name = some table ∧ HoldsSave rt ch calls p.log i t table := by
  have hknows := inv.knows i
  rcases live_written hq hw with htrunc | ⟨rows, hswap⟩
  · rw [htrunc] at hq hknows
    cases hq
    obtain ⟨table, -, htable⟩ := exec_truncate hexec
    exact ⟨_, htable, [], hknows, rfl⟩
  · obtain ⟨shadow, hshadow, hholds⟩ := inv.shadow i (hswap ▸ rfl)
    rw [hswap] at hq hknows hholds
    cases hq
    obtain ⟨hlive, -⟩ := exec_exchange (t.name_ne_tempName t) hexec
    exact ⟨shadow, hlive.trans hshadow, rows, hknows, hholds⟩

/-- The live table after one step of a save. -/
theorem live_step {p : Saves ι} {ph : ι → Phase} (inv : Ownership rt ch calls db₀ t p ph)
    {i : ι} {q : Stmt} {ans : Except Exn Table} {db' : Database} (hq : (ph i).stmt = some q)
    (hs : Serve ch p.store q ans db') :
    db' t.name = db₀ t.name ∨ ∃ j table, db' t.name = some table ∧
      HoldsSave rt ch calls (p.log ++ [(i, q, ans)]) j t table := by
  have keep : db' t.name = p.store t.name → db' t.name = db₀ t.name ∨ ∃ j table,
      db' t.name = some table ∧ HoldsSave rt ch calls (p.log ++ [(i, q, ans)]) j t table := by
    intro hsame
    rw [hsame]
    exact inv.live.imp_right fun ⟨j, table, htable, hholds⟩ => ⟨j, table, htable, hholds.mono⟩
  rcases serve_effect hs with ⟨rfl, -⟩ | ⟨a, hexec⟩
  · exact keep rfl
  · by_cases hw : t.name ∈ q.writes
    · obtain ⟨table, htable, hholds⟩ := holds_of_replaced inv hq hexec hw
      exact Or.inr ⟨i, table, htable, hholds.mono⟩
    · exact keep (exec_frame hexec hw)

/-- The shadow table after a statement that leaves its save the owner. -/
theorem shadow_of_owner {p : Saves ι} {ph : ι → Phase} (inv : Ownership rt ch calls db₀ t p ph)
    {i : ι} {q : Stmt} {a : Table} {db' : Database} (hq : (ph i).stmt = some q)
    (hexec : exec ch p.store q = .ok (a, db'))
    (hown : ((ph i).next rt (calls i).encode (calls i).data a).owns t) :
    ∃ shadow, db' t.tempName = some shadow ∧
      ShadowHolds ch shadow ((ph i).next rt (calls i).encode (calls i).data a) := by
  have hbefore := inv.shadow i
  generalize ph i = phase at *
  cases phase with
  | connecting =>
    simp only [Phase.next] at hown
    split at hown <;> exact hown.elim
  | lookingUp =>
    simp only [Phase.next, Phase.afterLookup] at hown
    split at hown <;> exact hown.elim
  | truncating | dropping | returned | raised => exact hown.elim
  | creating u rows =>
    have hu : u = t := hown
    subst hu
    cases hq
    obtain ⟨-, table, -, rfl⟩ := exec_create hexec
    exact ⟨_, setTable_self .., rfl⟩
  | filling u rows =>
    have hu : u = t := hown
    subst hu
    cases hq
    obtain ⟨table, stored, htable, -, hstored, rfl⟩ := exec_insert hexec
    obtain ⟨shadow, hshadow, hempty⟩ := hbefore hown
    rw [hshadow] at htable
    cases htable
    have hempty : table.rows = [] := hempty
    refine ⟨_, setTable_self .., ?_⟩
    simpa only [Phase.next, ShadowHolds, hempty, List.nil_append] using hstored
  | swapping u rows =>
    have hu : u = t := hown
    subst hu
    cases hq
    obtain ⟨-, htemp⟩ := exec_exchange (u.name_ne_tempName u) hexec
    simp only [exec] at hexec
    split at hexec <;> cases hexec
    rename_i hlive _
    exact ⟨_, htemp.trans hlive, trivial⟩

/-- Another save's step leaves the owner's shadow table alone. -/
theorem shadow_of_other {p : Saves ι} {ph : ι → Phase} (inv : Ownership rt ch calls db₀ t p ph)
    {i j : ι} (hij : j ≠ i) {q : Stmt} {ans : Except Exn Table} {db' : Database}
    (hq : (ph i).stmt = some q) (hs : Serve ch p.store q ans db') (hj : (ph j).owns t) :
    ∃ shadow, db' t.tempName = some shadow ∧ ShadowHolds ch shadow (ph j) := by
  obtain ⟨shadow, hshadow, hholds⟩ := inv.shadow j hj
  refine ⟨shadow, ?_, hholds⟩
  rcases serve_effect hs with ⟨rfl, -⟩ | ⟨a, hexec⟩
  · exact hshadow
  · by_cases hw : t.tempName ∈ q.writes
    · rcases shadow_written hq hw with hown | ⟨rows, hcreate⟩
      · exact absurd (inv.single j i hj hown) hij
      · rw [hcreate] at hq
        cases hq
        rw [(exec_create hexec).1] at hshadow
        cases hshadow
    · rw [exec_frame hexec hw, hshadow]

variable [DecidableEq ι]

/-- The shadow table after one step of a save, for the owner after it. -/
theorem shadow_step {p : Saves ι} {ph : ι → Phase} (inv : Ownership rt ch calls db₀ t p ph)
    {i j : ι} {q : Stmt} {ans : Except Exn Table} {db' : Database} (hq : (ph i).stmt = some q)
    (hs : Serve ch p.store q ans db')
    (hj : (Function.update ph i ((ph i).after rt (calls i).encode (calls i).data ans) j).owns t) :
    ∃ shadow, db' t.tempName = some shadow ∧ ShadowHolds ch shadow
      (Function.update ph i ((ph i).after rt (calls i).encode (calls i).data ans) j) := by
  by_cases hij : j = i
  · subst hij
    rw [Function.update_self] at hj ⊢
    cases hs with
    -- a save that was not answered is no owner any more
    | refused | lost => exact hj.elim
    | answered hexec => exact shadow_of_owner inv hq hexec hj
  · rw [Function.update_of_ne hij] at hj ⊢
    exact shadow_of_other inv hij hq hs hj

theorem ownership_step {p p' : Saves ι} {ph : ι → Phase}
    (inv : Ownership rt ch calls db₀ t p ph) (h : Pool.Step (Serve ch) p p') :
    ∃ ph', Ownership rt ch calls db₀ t p' ph' := by
  obtain @⟨i, q, k, ans, db', hcall, hs⟩ := h
  obtain ⟨hq, hk⟩ := Phase.prog_call rt (calls i).encode (calls i).data (ph i)
    ((inv.program i).symm.trans hcall)
  refine ⟨Function.update ph i ((ph i).after rt (calls i).encode (calls i).data ans),
    ?_, ?_, ?_, fun j hj => shadow_step inv hq hs hj, live_step inv hq hs⟩
  · intro j
    by_cases hij : j = i
    · subst hij
      simp only [Function.update_self, hk]
    · simp only [Function.update_of_ne hij, inv.program j]
  · intro j
    by_cases hij : j = i
    · subst hij
      simp only [Function.update_self]
      exact knows_after hq (inv.knows j) ans
    · simp only [Function.update_of_ne hij]
      exact (inv.knows j).mono
  · intro j l hj hl
    by_cases hji : j = i <;> by_cases hli : l = i
    · rw [hji, hli]
    · subst hji
      rw [Function.update_self] at hj
      rw [Function.update_of_ne hli] at hl
      exact absurd hj (single_step inv hq hs hli hl)
    · subst hli
      rw [Function.update_self] at hl
      rw [Function.update_of_ne hji] at hj
      exact absurd hl (single_step inv hq hs hji hj)
    · rw [Function.update_of_ne hji] at hj
      rw [Function.update_of_ne hli] at hl
      exact inv.single j l hj hl

theorem ownership_reachable {p : Saves ι}
    (h : Pool.Reachable (Serve ch) db₀ (handlers rt calls) p) :
    ∃ ph, Ownership rt ch calls db₀ t p ph :=
  h.invariant (fun p => ∃ ph, Ownership rt ch calls db₀ t p ph) ⟨_, ownership_start⟩
    fun _ _ ⟨_, inv⟩ hstep => ownership_step inv hstep

/-- **Saves replace a table whole.** Whatever saves run, however their
statements interleave and wherever they stop, the live table holds its
initial content or exactly the complete rows of one save. -/
theorem live_table_whole (rt : Runtime) (ch : ClickHouse) (calls : ι → SaveCall) (db₀ : Database)
    (t : AdminTable) {p : Saves ι}
    (h : Pool.Reachable (Serve ch) db₀ (handlers rt calls) p) :
    p.store t.name = db₀ t.name ∨
    ∃ i table, p.store t.name = some table ∧ HoldsSave rt ch calls p.log i t table := by
  obtain ⟨_, inv⟩ := ownership_reachable (t := t) h
  exact inv.live

end

/-! ## Two saves of the policies -/

/-- Columns that store what they are given, dates only as dates. -/
def demoClickHouse : ClickHouse where
  write c v := match c == ("effective_date" : Str), v with
    | true, .date y m d => some (.date y m d)
    | true, _ => none
    | false, v => some v
  default c := if c = "effective_date" then .date 1970 1 1 else .str []

def demoTable : Table :=
  ⟨["doc_id", "title", "tags", "effective_date"],
    [[.str "TOS-001", .str "Returns", .list [], .date 2024 1 1]]⟩

def demoDatabase : Database := setTable (fun _ => none) "company_tos" (some demoTable)

def demoSave (rows : List (Dict Value)) : SaveCall :=
  ⟨⟨"company_tos", rows⟩, fun _ => .error ⟨"no text to encode"⟩⟩

/-- One save edits the first policy, the other adds a second one. -/
def demoCalls (second : Bool) : SaveCall :=
  if second then
    demoSave [[("doc_id", .str "TOS-001"), ("title", .str "Returns")],
      [("doc_id", .str ""), ("title", .str "Privacy")]]
  else demoSave [[("doc_id", .str "TOS-001"), ("title", .str "Refunds")]]

/-- The first save swaps its rows in while the second is refused the shadow
table the first has created. -/
def demoSaves : Saves Bool :=
  Pool.play (answer demoClickHouse .none)
    [false, false, false, true, true, true, false, false, false]
    ⟨demoDatabase, handlers Runtime.ascii demoCalls, []⟩

theorem live_table_whole_two_saves :
    demoSaves.store "company_tos" = demoDatabase "company_tos" ∨
    ∃ i table, demoSaves.store "company_tos" = some table ∧
      HoldsSave Runtime.ascii demoClickHouse demoCalls demoSaves.log i .companyTos table :=
  live_table_whole Runtime.ascii demoClickHouse demoCalls demoDatabase .companyTos
    (Pool.Reachable.start.play (answer_serves demoClickHouse .none) _)

end TechMart.Admin
