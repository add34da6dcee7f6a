import TechMart.Db.Schema

/-!
# Deployments one after another

`create_tables` run any number of times, with and without `--reset`, each run
cut wherever a statement fails. The next complete run repairs what they left;
what a stopped save left it does not.
-/

namespace TechMart.Db

open Python Sql Admin

section
variable (ch : ClickHouse)

/-- Run a script to its end; `faults n` befalls its command `n`. -/
def runScript {α : Type} : (ℕ → Fault) → Database → SqlScript α → Except Exn α × Database
  | _, db, .done a => (.ok a, db)
  | _, db, .raise e => (.error e, db)
  | faults, db, .call c k =>
    let r := answerCommand ch (faults 0) db c
    runScript (fun n => faults (n + 1)) r.2 (k r.1)

structure Deployment where
  reset : Bool
  faults : ℕ → Fault

def deploy (db : Database) (d : Deployment) : Except Exn Unit × Database :=
  runScript ch d.faults db (createTables d.reset)

/-- The database after these deployments. -/
def deployAll (db : Database) (ds : List Deployment) : Database :=
  ds.foldl (fun db d => (deploy ch db d).2) db

/-- What a command that is answered makes of the database. -/
def effect (db : Database) (c : Command) : Database :=
  match execCommand ch db c with
  | .ok (_, db') => db'
  | .error _ => db

end

variable {ch : ClickHouse} {α : Type}

/-! ## One run -/

/-- A command that was served changed nothing or took effect. -/
theorem serveCommand_keeps {Keeps : Database → Prop} {db db' : Database} {c : Command}
    {ans : Except Exn Table} (h : ServeCommand ch db c ans db')
    (hstep : ∀ a db', execCommand ch db c = .ok (a, db') → Keeps db → Keeps db')
    (hdb : Keeps db) : Keeps db' := by
  cases h with
  | answered hexec => exact hstep _ _ hexec hdb
  | refused e => exact hdb
  | lost e hexec => exact hstep _ _ hexec hdb

/-- What every command keeps, a script keeps, however it ends. -/
theorem runScript_keeps {P : Command → Prop} {Keeps : Database → Prop} {script : SqlScript α}
    (hasks : script.Asks P)
    (hstep : ∀ db c a db', P c → execCommand ch db c = .ok (a, db') → Keeps db → Keeps db')
    (faults : ℕ → Fault) {db : Database} (hdb : Keeps db) :
    Keeps (runScript ch faults db script).2 := by
  induction script generalizing faults db with
  | done | raise => exact hdb
  | call c k ih =>
    apply ih _ (hasks.2 _)
    exact serveCommand_keeps (answerCommand_serves ch (faults 0) db c)
      (fun a db' => hstep db c a db' hasks.1) hdb

/-- A command that answers has taken effect. -/
theorem answerCommand_ok {fault : Fault} {db : Database} {c : Command} {a : Table}
    (h : (answerCommand ch fault db c).1 = .ok a) :
    (answerCommand ch fault db c).2 = effect ch db c := by
  unfold answerCommand at h ⊢
  unfold effect
  split at h
  · rename_i hexec
    simp only [hexec]
  · cases h
  · cases h
  · cases h

/-- A script after a command of it: either the command failed and the script
with it, or it took effect. -/
theorem runScript_perform (ch : ClickHouse) (faults : ℕ → Fault) (db : Database) (c : Command)
    (script : SqlScript α) :
    (∃ e db', runScript ch faults db (Prog.perform c >>= fun _ => script) = (.error e, db')) ∨
    runScript ch faults db (Prog.perform c >>= fun _ => script) =
      runScript ch (fun n => faults (n + 1)) (effect ch db c) script := by
  rw [Prog.perform_bind, runScript]
  cases hans : (answerCommand ch (faults 0) db c).1 with
  | error e => exact Or.inl ⟨e, _, rfl⟩
  | ok a =>
    rw [answerCommand_ok hans]
    exact Or.inr rfl

/-- A list of commands that was run to its end took effect, all of it. -/
theorem runScript_runAll {commands : List Command} {faults : ℕ → Fault} {db : Database}
    (h : (runScript ch faults db (runAll commands)).1 = .ok ()) :
    (runScript ch faults db (runAll commands)).2 = commands.foldl (effect ch) db := by
  induction commands generalizing faults db with
  | nil => rfl
  | cons c commands ih =>
    cases runScript_perform ch faults db c (runAll commands) with
    | inl hfailed =>
      obtain ⟨e, db', hrun⟩ := hfailed
      rw [runAll, hrun] at h
      cases h
    | inr hrun =>
      rw [runAll, hrun] at h ⊢
      exact ih h

/-- Without faults, commands that cannot be rejected are run to their end. -/
theorem runScript_none {commands : List Command} {faults : ℕ → Fault} (db : Database)
    (hfaults : ∀ n, faults n = .none)
    (hok : ∀ c ∈ commands, ∀ db, ∃ r, execCommand ch db c = .ok r) :
    (runScript ch faults db (runAll commands)).1 = .ok () := by
  induction commands generalizing faults db with
  | nil => rfl
  | cons c commands ih =>
    obtain ⟨⟨a, db'⟩, hexec⟩ := hok c List.mem_cons_self db
    have hans : answerCommand ch (faults 0) db c = (.ok a, db') := by
      simp only [answerCommand, hfaults, hexec]
    rw [runAll, Prog.perform_bind, runScript, hans]
    exact ih _ (fun n => hfaults (n + 1)) fun c' hc' => hok c' (List.mem_cons_of_mem c hc')

/-! ## The tables after it -/

theorem mem_all (t : SchemaTable) : t ∈ SchemaTable.all := by
  cases t <;> decide

def drops : List Command := SchemaTable.all.map fun t => .dropIfExists t.name

def creates : List Command := SchemaTable.all.map fun t => .createIfNotExists t.name t.columns

theorem effect_drop (db : Database) (table name : Str) :
    effect ch db (.dropIfExists table) name = if name = table then none else db name := by
  show setTable db table none name = _
  split
  · rename_i heq
    rw [heq, setTable_self]
  · exact setTable_ne _ (by assumption) _

theorem effect_create (db : Database) (table : Str) (columns : List Str) (name : Str) :
    effect ch db (.createIfNotExists table columns) name =
      if name = table then some ((db name).getD ⟨columns, []⟩) else db name := by
  cases htable : db table with
  | some t =>
    have heffect : effect ch db (.createIfNotExists table columns) = db := by
      simp only [effect, execCommand, htable, done]
    rw [heffect]
    split
    · rename_i heq
      rw [heq, htable, Option.getD_some]
    · rfl
  | none =>
    have heffect : effect ch db (.createIfNotExists table columns) =
        setTable db table (some ⟨columns, []⟩) := by
      simp only [effect, execCommand, htable, done]
    rw [heffect]
    split
    · rename_i heq
      rw [heq, setTable_self, htable, Option.getD_none]
    · exact setTable_ne _ (by assumption) _

theorem foldl_drops (ts : List SchemaTable) (db : Database) (t : SchemaTable) :
    ((ts.map fun t => Command.dropIfExists t.name).foldl (effect ch) db) t.name =
      if t ∈ ts then none else db t.name := by
  induction ts generalizing db with
  | nil => rfl
  | cons u ts ih =>
    rw [List.map_cons, List.foldl_cons, ih, effect_drop]
    by_cases hu : t = u
    · simp [hu]
    · have hname : t.name ≠ u.name := fun h => hu (name_injective h)
      simp [hu, hname]

theorem foldl_creates (ts : List SchemaTable) (db : Database) (t : SchemaTable) :
    ((ts.map fun t => Command.createIfNotExists t.name t.columns).foldl (effect ch) db) t.name =
      if t ∈ ts then some ((db t.name).getD ⟨t.columns, []⟩) else db t.name := by
  induction ts generalizing db with
  | nil => rfl
  | cons u ts ih =>
    rw [List.map_cons, List.foldl_cons, ih, effect_create]
    by_cases hu : t = u
    · subst hu
      simp
    · have hname : t.name ≠ u.name := fun h => hu (name_injective h)
      simp [hu, hname]

/-! ## A deployment -/

/-- The commands of a deployment, after it has connected. -/
def commandsOf (reset : Bool) : List Command := (if reset then drops else []) ++ creates

theorem runAll_append (commands more : List Command) :
    (runAll commands >>= fun _ => runAll more) = runAll (commands ++ more) := by
  induction commands with
  | nil => rfl
  | cons c commands ih =>
    rw [List.cons_append, runAll, runAll, ← ih]
    simp only [Prog.perform_bind, Prog.call_bind]
    congr 1
    funext ans
    cases ans <;> rfl

theorem createTables_eq (reset : Bool) :
    createTables reset = runAll (.stmt .connect :: commandsOf reset) := by
  cases reset with
  | true =>
    show (Prog.perform _ >>= fun _ => runAll drops >>= fun _ => runAll creates) = _
    rw [runAll_append]
    rfl
  | false => rfl

/-- A deployment that returns has done all of it. -/
theorem deploy_ok {db : Database} {d : Deployment} (h : (deploy ch db d).1 = .ok ()) :
    (deploy ch db d).2 =
      creates.foldl (effect ch) (if d.reset then drops.foldl (effect ch) db else db) := by
  rw [deploy, createTables_eq] at h ⊢
  rw [runScript_runAll h, List.foldl_cons, commandsOf, List.foldl_append]
  cases d.reset with
  | true => rfl
  | false => rfl

/-- The commands of `create_tables`. -/
inductive Deploys (reset : Bool) : Command → Prop
  | connect : Deploys reset (.stmt .connect)
  | drop (t : SchemaTable) : reset = true → Deploys reset (.dropIfExists t.name)
  | create (t : SchemaTable) : Deploys reset (.createIfNotExists t.name t.columns)

theorem deploys_of_mem {reset : Bool} {c : Command} (h : c ∈ .stmt .connect :: commandsOf reset) :
    Deploys reset c := by
  cases List.mem_cons.mp h with
  | inl heq =>
    rw [heq]
    exact .connect
  | inr hmem =>
    cases List.mem_append.mp hmem with
    | inl hdrop =>
      cases reset with
      | false => cases hdrop
      | true =>
        obtain ⟨t, _, rfl⟩ := List.mem_map.mp hdrop
        exact .drop t rfl
    | inr hcreate =>
      obtain ⟨t, _, rfl⟩ := List.mem_map.mp hcreate
      exact .create t

theorem deploys_ok {reset : Bool} {c : Command} (h : Deploys reset c) (db : Database) :
    ∃ r, execCommand ch db c = .ok r := by
  cases h with
  | connect => exact ⟨_, rfl⟩
  | drop => exact ⟨_, rfl⟩
  | create t =>
    cases htable : db t.name with
    | some table => exact ⟨(⟨[], []⟩, db), by simp only [execCommand, htable, done]⟩
    | none =>
      exact ⟨(⟨[], []⟩, setTable db t.name (some ⟨t.columns, []⟩)),
        by simp only [execCommand, htable, done]⟩

theorem deploy_none (db : Database) {d : Deployment} (h : ∀ n, d.faults n = .none) :
    (deploy ch db d).1 = .ok () := by
  rw [deploy, createTables_eq]
  apply runScript_none db h
  intro c hc db
  exact deploys_ok (deploys_of_mem hc) db

/-- What the commands of `create_tables` keep, a deployment keeps. -/
theorem deploy_keeps {Keeps : Database → Prop} {d : Deployment}
    (hstep : ∀ db c, Deploys d.reset c → Keeps db → Keeps (effect ch db c)) {db : Database}
    (hdb : Keeps db) : Keeps (deploy ch db d).2 := by
  have hasks : (runAll (.stmt .connect :: commandsOf d.reset)).Asks (Deploys d.reset) :=
    asks_runAll fun _ => deploys_of_mem
  rw [deploy, createTables_eq]
  apply runScript_keeps hasks _ d.faults hdb
  intro db c a db' hc hexec hkeeps
  have heffect : effect ch db c = db' := by simp only [effect, hexec]
  exact heffect ▸ hstep db c hc hkeeps

theorem deployAll_keeps {Keeps : Database → Prop} {ds : List Deployment}
    (hstep : ∀ d ∈ ds, ∀ db c, Deploys d.reset c → Keeps db → Keeps (effect ch db c))
    {db : Database} (hdb : Keeps db) : Keeps (deployAll ch db ds) := by
  induction ds generalizing db with
  | nil => exact hdb
  | cons d ds ih =>
    apply ih fun d' hd' => hstep d' (List.mem_cons_of_mem d hd')
    exact deploy_keeps (hstep d List.mem_cons_self) hdb

/-! ## What a command does to one table -/

/-- The table is as it was, or gone, or there and empty. -/
def Unfilled (db₀ : Database) (t : SchemaTable) (db : Database) : Prop :=
  db t.name = db₀ t.name ∨ db t.name = none ∨ db t.name = some ⟨t.columns, []⟩

theorem unfilled_effect {db₀ db : Database} {t : SchemaTable} {reset : Bool} {c : Command}
    (hc : Deploys reset c) (h : Unfilled db₀ t db) : Unfilled db₀ t (effect ch db c) := by
  unfold Unfilled at h ⊢
  cases hc with
  | connect => exact h
  | drop u =>
    rw [effect_drop]
    split
    · exact Or.inr (Or.inl rfl)
    · exact h
  | create u =>
    rw [effect_create]
    split
    · rename_i hname
      cases name_injective hname
      cases htable : db t.name with
      | some table =>
        rw [htable] at h
        exact h
      | none => exact Or.inr (Or.inr rfl)
    · exact h

theorem foreign_effect {db : Database} {name : Str} (hname : ∀ t : SchemaTable, name ≠ t.name)
    {reset : Bool} {c : Command} (hc : Deploys reset c) : effect ch db c name = db name := by
  cases hc with
  | connect => rfl
  | drop u => rw [effect_drop, if_neg (hname u)]
  | create u => rw [effect_create, if_neg (hname u)]

theorem kept_effect {db : Database} {name : Str} {table : Table} (h : db name = some table)
    {c : Command} (hc : Deploys false c) : effect ch db c name = some table := by
  cases hc with
  | connect => exact h
  | drop u hreset => cases hreset
  | create u =>
    rw [effect_create]
    split
    · rw [h, Option.getD_some]
    · exact h

/-! ## Any number of deployments -/

/-- What any deployments, and a last one, do to a database. -/
structure Recovers (ch : ClickHouse) (db₀ : Database) (ds : List Deployment) (last : Deployment)
    (ending : Except Exn Unit × Database) : Prop where
  /-- nothing that went wrong before keeps the last one from its end -/
  completes : (∀ n, last.faults n = .none) → ending.1 = .ok ()
  unfilled : ∀ t, Unfilled db₀ t ending.2
  foreign : ∀ name, (∀ t : SchemaTable, name ≠ t.name) → ending.2 name = db₀ name
  kept : (∀ d ∈ ds ++ [last], d.reset = false) → ∀ name table, db₀ name = some table →
    ending.2 name = some table
  present : ending.1 = .ok () → ∀ t : SchemaTable, (ending.2 t.name).isSome = true
  emptied : ending.1 = .ok () → last.reset = true → ∀ t : SchemaTable,
    ending.2 t.name = some ⟨t.columns, []⟩
  /-- a save that an old shadow table blocks stays blocked -/
  blocked : ∀ t : AdminTable, db₀ t.tempName ≠ none → ∀ rt call table rows stored,
    Valid rt ch ending.2 t call table rows stored → rows ≠ [] →
      ¬ Admin.Succeeds rt ch ending.2 t call table stored

theorem deployAll_snoc (db : Database) (ds : List Deployment) (d : Deployment) :
    deployAll ch db (ds ++ [d]) = (deploy ch (deployAll ch db ds) d).2 := by
  simp only [deployAll, List.foldl_append, List.foldl_cons, List.foldl_nil]

/-- The deployments touch no table but theirs. -/
theorem deployAll_foreign (db₀ : Database) (ds : List Deployment) {name : Str}
    (hname : ∀ t : SchemaTable, name ≠ t.name) : deployAll ch db₀ ds name = db₀ name := by
  refine @deployAll_keeps ch (fun db => db name = db₀ name) _ ?_ _ rfl
  intro d _ db c hc h
  exact (foreign_effect hname hc).trans h

/-- **Deploying again repairs.** After any deployments, each cut anywhere, the
tables are as they were, gone or empty, and no other table was touched; without
`--reset` no table lost anything. One more that meets no fault returns, and one
that returns leaves every table there, after a reset an empty one. -/
theorem deployments_recover (ch : ClickHouse) (db₀ : Database) (ds : List Deployment)
    (last : Deployment) : Recovers ch db₀ ds last (deploy ch (deployAll ch db₀ ds) last) := by
  constructor
  · exact deploy_none _
  · intro t
    rw [← deployAll_snoc]
    refine @deployAll_keeps ch (Unfilled db₀ t) _ ?_ _ (Or.inl rfl)
    intro d _ db c hc h
    exact unfilled_effect hc h
  · intro name hname
    rw [← deployAll_snoc]
    exact deployAll_foreign db₀ _ hname
  · intro hreset name table htable
    rw [← deployAll_snoc]
    refine @deployAll_keeps ch (fun db => db name = some table) _ ?_ _ htable
    intro d hd db c hc h
    rw [hreset d hd] at hc
    exact kept_effect h hc
  · intro hok t
    rw [deploy_ok hok, creates, foldl_creates, if_pos (mem_all t)]
    rfl
  · intro hok hreset t
    rw [deploy_ok hok, creates, foldl_creates, if_pos (mem_all t), hreset, if_pos rfl, drops,
      foldl_drops, if_pos (mem_all t)]
    rfl
  · intro t hshadow rt call table rows stored hvalid hrows
    apply not_succeeds_of_present hvalid hrows
    rw [← deployAll_snoc, deployAll_foreign db₀ _ fun u => (name_ne_tempName u t).symm]
    exact hshadow

end TechMart.Db
