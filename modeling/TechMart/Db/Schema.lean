import TechMart.Admin.Columns
import TechMart.Db.Ingest
import TechMart.Main.Caller
import TechMart.Main.Session

/-!
# The schema

`create_tables` and `create_indexes` of `schema.py`, and the other programs
that write to the database: saves, loads and the tickets of calls. Whatever is
interleaved with whatever, and whatever of it fails, no table ever holds a row
that its columns do not.
-/

namespace TechMart.Db

open Python Sql Admin

/-- The tables, in the order they are created and dropped in. -/
inductive SchemaTable where
  | customers
  | orderHistory
  | companyFaqs
  | companyTos
  | productCatalog
  | callTickets
  deriving DecidableEq

namespace SchemaTable

def name : SchemaTable → Str
  | customers => "customers"
  | orderHistory => "order_history"
  | companyFaqs => "company_faqs"
  | companyTos => "company_tos"
  | productCatalog => "product_catalog"
  | callTickets => "call_tickets"

/-- The columns; their types are what `ClickHouse.write` accepts. -/
def columns : SchemaTable → List Str
  | customers => Main.customerColumns
  | orderHistory =>
    ["order_id", "customer_id", "order_date", "status", "payment_method", "delivery_address",
     "items", "subtotal_inr", "discount_inr", "delivery_charges_inr", "final_amount_inr",
     "item_count"]
  | companyFaqs => AdminTable.companyFaqs.columns
  | companyTos => AdminTable.companyTos.columns
  | productCatalog => AdminTable.productCatalog.columns
  | callTickets =>
    ["ticket_id", "session_id", "customer_id", "caller_phone", "call_start_time", "call_end_time",
     "call_status", "full_transcript", "summary", "summary_embedding"]

def all : List SchemaTable :=
  [customers, orderHistory, companyFaqs, companyTos, productCatalog, callTickets]

/-- The tables with a vector index. -/
def indexed : List SchemaTable := [companyFaqs, productCatalog, callTickets]

/-- The table a page edits. -/
def ofAdmin : AdminTable → SchemaTable
  | .productCatalog => productCatalog
  | .companyFaqs => companyFaqs
  | .companyTos => companyTos

end SchemaTable

/-- Every statement there is; the last three leave the tables as they are. -/
inductive Command where
  | stmt (q : Stmt)
  | dropIfExists (table : Str)
  | createIfNotExists (table : Str) (columns : List Str)
  | allowVectorIndex
  | addIndex (table : Str)
  | materializeIndex (table : Str)

abbrev SqlScript (α : Type) := Prog Exn Command Table α

/-! ## The scripts -/

/-- `for command in commands: client.command(command)`. -/
def runAll : List Command → SqlScript Unit
  | [] => pure ()
  | c :: cs => do
    let _ ← Prog.perform c
    runAll cs

def createTables (reset : Bool) : SqlScript Unit := do
  let _ ← Prog.perform (.stmt .connect)
  if reset then runAll (SchemaTable.all.map fun t => .dropIfExists t.name) else pure ()
  runAll (SchemaTable.all.map fun t => .createIfNotExists t.name t.columns)

/-- A command whose failure is only logged. -/
def logged (c : Command) : SqlScript Unit :=
  (do
    let _ ← Prog.perform c
    pure () : SqlScript Unit).tryCatch fun _ => .done ()

def runLogged : List Command → SqlScript Unit
  | [] => pure ()
  | c :: cs => do
    logged c
    runLogged cs

def createIndexes : SqlScript Unit := do
  let _ ← Prog.perform (.stmt .connect)
  logged .allowVectorIndex
  runLogged (SchemaTable.indexed.map fun t => .addIndex t.name)
  runLogged (SchemaTable.indexed.map fun t => .materializeIndex t.name)

/-- The statements of `_sync_blocking_work`. -/
def insertTicket (row : Row) : Handler Unit := do
  let _ ← Prog.perform .connect
  let _ ← Prog.perform (.insert "call_tickets" [row] Main.ticketColumns)
  pure ()

/-- Whatever writes the tables, and the reads of the page. -/
inductive Party where
  | save (call : SaveCall)
  | read (table : Str)
  | load (encode : Value → Except Exn Value) (files : DataFiles)
  | ticket (row : Row)
  | deploy (reset : Bool)
  | index

def Party.script (rt : Runtime) : Party → SqlScript Unit
  | save call => (saveData rt call.encode call.data).mapCalls .stmt
  | read table => (getData table).mapCalls .stmt >>= fun _ => pure ()
  | load encode files => (ingestData rt encode files).mapCalls .stmt
  | ticket row => (insertTicket row).mapCalls .stmt
  | deploy reset => createTables reset
  | index => createIndexes

/-! ## The database -/

section
variable (ch : ClickHouse)

def execCommand (db : Database) : Command → Except Exn (Table × Database)
  | .stmt q => exec ch db q
  | .dropIfExists table => done (setTable db table none)
  | .createIfNotExists table columns => match db table with
    | some _ => done db
    | none => done (setTable db table (some ⟨columns, []⟩))
  | .allowVectorIndex => done db
  | .addIndex table | .materializeIndex table => match db table with
    | some _ => done db
    | none => .error (unknownTable table)

/-- How a command can come back, as for a statement. -/
inductive ServeCommand (db : Database) (c : Command) : Except Exn Table → Database → Prop
  | answered {a : Table} {db' : Database} : execCommand ch db c = .ok (a, db') →
      ServeCommand db c (.ok a) db'
  | refused (e : Exn) : ServeCommand db c (.error e) db
  | lost {a : Table} {db' : Database} (e : Exn) : execCommand ch db c = .ok (a, db') →
      ServeCommand db c (.error e) db'

/-- The answer of a command under a fault, and the database after it. -/
def answerCommand (fault : Fault) (db : Database) (c : Command) : Except Exn Table × Database :=
  match fault, execCommand ch db c with
  | .none, .ok (a, db') => (.ok a, db')
  | .lost e, .ok (_, db') => (.error e, db')
  | .refused e, .ok _ => (.error e, db)
  | _, .error e => (.error e, db)

theorem answerCommand_serves (fault : Fault) (db : Database) (c : Command) :
    ServeCommand ch db c (answerCommand ch fault db c).1 (answerCommand ch fault db c).2 := by
  unfold answerCommand
  split
  · exact .answered (by assumption)
  · exact .lost _ (by assumption)
  · exact .refused _
  · exact .refused _

/-- What a column can hold: its default, or something that was written. -/
def Stored (column : Str) (v : Value) : Prop := v = ch.default column ∨ ∃ w, ch.write column w = some v

/-- The table has these columns, and so has every row of it. -/
structure HasColumns (columns : List Str) (t : Table) : Prop where
  columns_eq : t.columns = columns
  rows : ∀ row ∈ t.rows, List.Forall₂ (Stored ch) columns row

/-- Each table that exists is as the schema has it, and a shadow table is as
the table it stands in for. -/
structure Sound (db : Database) : Prop where
  table : ∀ (t : SchemaTable) (table : Table), db t.name = some table →
    HasColumns ch t.columns table
  shadow : ∀ (t : AdminTable) (table : Table), db t.tempName = some table →
    HasColumns ch t.columns table

end

/-- The commands the programs send. -/
inductive Sent : Command → Prop
  | connect : Sent (.stmt .connect)
  | selectColumn (column table : Str) : Sent (.stmt (.selectColumn column table))
  | selectAll (table : Str) : Sent (.stmt (.selectAll table))
  | truncate (t : AdminTable) : Sent (.stmt (.truncate t.name))
  | createAs (t : AdminTable) : Sent (.stmt (.createAs t.tempName t.name))
  | insert (table : Str) (data : List Row) (columns : List Str) :
      Sent (.stmt (.insert table data columns))
  | exchange (t : AdminTable) : Sent (.stmt (.exchange t.name t.tempName))
  | drop (t : AdminTable) : Sent (.stmt (.drop t.tempName))
  | dropIfExists (t : SchemaTable) : Sent (.dropIfExists t.name)
  | createIfNotExists (t : SchemaTable) : Sent (.createIfNotExists t.name t.columns)
  | allowVectorIndex : Sent .allowVectorIndex
  | addIndex (t : SchemaTable) : Sent (.addIndex t.name)
  | materializeIndex (t : SchemaTable) : Sent (.materializeIndex t.name)

/-! ## What is sent -/

section
variable {rt : Runtime} {encode : Value → Except Exn Value}

/-- The statement is one of those the programs send. -/
abbrev SentStmt (q : Stmt) : Prop := Sent (.stmt q)

theorem asks_replaceTable (t : AdminTable) (rows : List (Dict Value)) :
    (replaceTable t rows).Asks SentStmt := by
  refine (Prog.Asks.perform (.createAs t)).bind fun _ => ?_
  refine (Prog.Asks.perform (.insert ..)).bind fun _ => ?_
  refine (Prog.Asks.perform (.exchange t)).bind fun _ => ?_
  exact (Prog.Asks.perform (.drop t)).bind fun _ => trivial

theorem asks_writeRows (t : AdminTable) (rows : List (Dict Value)) (idResult : Table) :
    (writeRows rt encode t rows idResult).Asks SentStmt := by
  unfold writeRows
  split
  · trivial
  · exact (Prog.Asks.perform (.truncate t)).bind fun _ => trivial
  · exact asks_replaceTable t _

theorem asks_saveData (data : SaveData) : (saveData rt encode data).Asks SentStmt := by
  refine (Prog.Asks.perform .connect).bind fun _ => ?_
  cases AdminTable.ofName? data.table with
  | none => trivial
  | some t =>
    exact (Prog.Asks.perform (.selectColumn ..)).bind fun idResult => asks_writeRows t _ idResult

theorem asks_getData (table : Str) : (getData table).Asks SentStmt := by
  refine (Prog.Asks.perform .connect).bind fun _ => ?_
  cases AdminTable.ofName? table with
  | none => trivial
  | some t => exact (Prog.Asks.perform (.selectAll ..)).bind fun _ => trivial

theorem sent_of_loads {files : DataFiles} {q : Stmt} (h : Loads rt encode files q) : SentStmt q := by
  obtain rfl | ⟨s, _, rows, _, _, rfl⟩ := h
  · exact .connect
  · exact .insert ..

theorem asks_runAll {P : Command → Prop} {commands : List Command} (h : ∀ c ∈ commands, P c) :
    (runAll commands).Asks P := by
  induction commands with
  | nil => trivial
  | cons c commands ih =>
    refine (Prog.Asks.perform (h c List.mem_cons_self)).bind fun _ => ?_
    exact ih fun c' hc' => h c' (List.mem_cons_of_mem c hc')

theorem asks_createTables (reset : Bool) : (createTables reset).Asks Sent := by
  have hdrop : (runAll (SchemaTable.all.map fun t => .dropIfExists t.name)).Asks Sent := by
    apply asks_runAll
    rw [List.forall_mem_map]
    exact fun t _ => .dropIfExists t
  have hcreate : (runAll (SchemaTable.all.map fun t => .createIfNotExists t.name t.columns)).Asks
      Sent := by
    apply asks_runAll
    rw [List.forall_mem_map]
    exact fun t _ => .createIfNotExists t
  refine (Prog.Asks.perform .connect).bind fun _ => ?_
  cases reset with
  | true => exact hdrop.bind fun _ => hcreate
  | false => exact hcreate

theorem asks_logged {P : Command → Prop} {c : Command} (h : P c) : (logged c).Asks P := by
  have hperform : (Prog.perform c >>= fun _ => pure () : SqlScript Unit).Asks P :=
    (Prog.Asks.perform h).bind fun _ => trivial
  exact hperform.tryCatch fun _ => trivial

theorem asks_runLogged {P : Command → Prop} {commands : List Command} (h : ∀ c ∈ commands, P c) :
    (runLogged commands).Asks P := by
  induction commands with
  | nil => trivial
  | cons c commands ih =>
    refine (asks_logged (h c List.mem_cons_self)).bind fun _ => ?_
    exact ih fun c' hc' => h c' (List.mem_cons_of_mem c hc')

theorem asks_createIndexes : createIndexes.Asks Sent := by
  have hadd : (runLogged (SchemaTable.indexed.map fun t => .addIndex t.name)).Asks Sent := by
    apply asks_runLogged
    rw [List.forall_mem_map]
    exact fun t _ => .addIndex t
  have hmaterialize : (runLogged (SchemaTable.indexed.map fun t => .materializeIndex t.name)).Asks
      Sent := by
    apply asks_runLogged
    rw [List.forall_mem_map]
    exact fun t _ => .materializeIndex t
  refine (Prog.Asks.perform .connect).bind fun _ => ?_
  exact (asks_logged Sent.allowVectorIndex).bind fun _ => hadd.bind fun _ => hmaterialize

theorem asks_insertTicket (row : Row) : (insertTicket row).Asks SentStmt := by
  refine (Prog.Asks.perform .connect).bind fun _ => ?_
  exact (Prog.Asks.perform (.insert ..)).bind fun _ => trivial

/-- Statements sent as commands. -/
theorem Sent.lift {α : Type} {handler : Handler α} (h : handler.Asks SentStmt) :
    (handler.mapCalls Command.stmt).Asks Sent := Prog.Asks.mapCalls h

theorem asks_script (party : Party) : (party.script rt).Asks Sent := by
  cases party with
  | save call => exact Sent.lift (asks_saveData call.data)
  | read table =>
    apply Prog.Asks.bind (Sent.lift (asks_getData table))
    exact fun _ => trivial
  | load encode files => exact Sent.lift (asks_ingestData.mono fun _ => sent_of_loads)
  | ticket row => exact Sent.lift (asks_insertTicket row)
  | deploy reset => exact asks_createTables reset
  | index => exact asks_createIndexes

end

/-! ## One command -/

section
variable {ch : ClickHouse} {db db' : Database}

theorem name_injective {t u : SchemaTable} (h : t.name = u.name) : t = u := by
  revert h
  cases t <;> cases u <;> decide

theorem name_ne_tempName (t : SchemaTable) (u : AdminTable) : t.name ≠ u.tempName := by
  cases t <;> cases u <;> decide

theorem ofAdmin_name (t : AdminTable) : (SchemaTable.ofAdmin t).name = t.name := by
  cases t <;> rfl

theorem ofAdmin_columns (t : AdminTable) : (SchemaTable.ofAdmin t).columns = t.columns := by
  cases t <;> rfl

theorem HasColumns.emptied {columns : List Str} {t : Table} (h : HasColumns ch columns t) :
    HasColumns ch columns ⟨t.columns, []⟩ :=
  ⟨h.columns_eq, fun _ hrow => absurd hrow List.not_mem_nil⟩

/-- What an insert stores fits the columns. -/
theorem forall₂_storeRow {columns insertCols : List Str} {vals row : Row}
    (h : storeRow ch columns insertCols vals = some row) :
    List.Forall₂ (Stored ch) columns row := by
  apply (forall₂_of_mapM h).imp
  intro c v hv
  split at hv
  · exact Or.inr ⟨_, hv⟩
  · exact Or.inl (Option.some.inj hv).symm

theorem HasColumns.inserted {columns insertCols : List Str} {t : Table} {data rows : List Row}
    (h : HasColumns ch columns t) (hrows : storeRows ch t.columns insertCols data = some rows) :
    HasColumns ch columns ⟨t.columns, t.rows ++ rows⟩ := by
  refine ⟨h.columns_eq, fun row hrow => ?_⟩
  cases List.mem_append.mp hrow with
  | inl hold => exact h.rows row hold
  | inr hnew =>
    obtain ⟨vals, _, hvals⟩ := mem_of_forall₂ (forall₂_of_mapM hrows) hnew
    rw [← h.columns_eq]
    exact forall₂_storeRow hvals

/-- Writing one table keeps the database sound if what is written fits. -/
theorem Sound.set (h : Sound ch db) {name : Str} {new : Option Table}
    (htable : ∀ t : SchemaTable, t.name = name → ∀ table, new = some table →
      HasColumns ch t.columns table)
    (hshadow : ∀ t : AdminTable, t.tempName = name → ∀ table, new = some table →
      HasColumns ch t.columns table) : Sound ch (setTable db name new) := by
  constructor
  · intro t table ht
    by_cases hname : t.name = name
    · rw [hname, setTable_self] at ht
      exact htable t hname table ht
    · rw [setTable_ne _ hname] at ht
      exact h.table t table ht
  · intro t table ht
    by_cases hname : t.tempName = name
    · rw [hname, setTable_self] at ht
      exact hshadow t hname table ht
    · rw [setTable_ne _ hname] at ht
      exact h.shadow t table ht

/-- A table keeps its columns. -/
theorem Sound.keep (h : Sound ch db) {name : Str} {old new : Table} (hold : db name = some old)
    (hkeep : ∀ columns, HasColumns ch columns old → HasColumns ch columns new) :
    Sound ch (setTable db name (some new)) := by
  apply h.set
  · rintro t rfl table ⟨⟩
    exact hkeep _ (h.table t old hold)
  · rintro t rfl table ⟨⟩
    exact hkeep _ (h.shadow t old hold)

theorem Sound.shadowed (h : Sound ch db) (t : AdminTable) {table : Table}
    (htable : HasColumns ch t.columns table) : Sound ch (setTable db t.tempName (some table)) := by
  apply h.set
  · intro u hname
    exact absurd hname (name_ne_tempName u t)
  · rintro u hname _ ⟨⟩
    rw [AdminTable.tempName_injective hname]
    exact htable

theorem Sound.replaced (h : Sound ch db) (t : SchemaTable) {table : Table}
    (htable : HasColumns ch t.columns table) : Sound ch (setTable db t.name (some table)) := by
  apply h.set
  · rintro u hname _ ⟨⟩
    rw [name_injective hname]
    exact htable
  · intro u hname
    exact absurd hname.symm (name_ne_tempName t u)

theorem Sound.dropped (h : Sound ch db) (name : Str) : Sound ch (setTable db name none) := by
  apply h.set
  · rintro _ _ _ ⟨⟩
  · rintro _ _ _ ⟨⟩

theorem sound_stmt (h : Sound ch db) {q : Stmt} (hq : SentStmt q) {a : Table}
    (hexec : exec ch db q = .ok (a, db')) : Sound ch db' := by
  cases q with
  | connect | selectColumn | selectAll =>
    have hsame : db' = db := funext fun table => exec_frame hexec List.not_mem_nil
    rw [hsame]
    exact h
  | truncate name =>
    simp only [exec, done] at hexec
    split at hexec
    · rename_i table htable
      cases hexec
      exact h.keep htable fun _ => HasColumns.emptied
    · cases hexec
  | createAs new source =>
    obtain ⟨_, table, htable, rfl⟩ := exec_create hexec
    cases hq with
    | createAs t =>
      rw [← ofAdmin_name] at htable
      have hfits := (h.table _ table htable).emptied
      rw [ofAdmin_columns] at hfits
      exact h.shadowed t hfits
  | insert name data columns =>
    obtain ⟨table, rows, htable, _, hrows, rfl⟩ := exec_insert hexec
    exact h.keep htable fun _ hfits => hfits.inserted hrows
  | exchange x y =>
    simp only [exec, done] at hexec
    split at hexec
    · rename_i live shadow hlive hshadow
      cases hexec
      cases hq with
      | exchange t =>
        have hfitsLive := h.table (SchemaTable.ofAdmin t) live (ofAdmin_name t ▸ hlive)
        have hfitsShadow := h.shadow t shadow hshadow
        rw [ofAdmin_columns] at hfitsLive
        rw [← ofAdmin_columns] at hfitsShadow
        have hswapped := h.replaced _ hfitsShadow
        rw [ofAdmin_name] at hswapped
        exact hswapped.shadowed t hfitsLive
    · cases hexec
  | drop name =>
    simp only [exec, done] at hexec
    split at hexec
    · cases hexec
      exact h.dropped name
    · cases hexec

theorem sound_command (h : Sound ch db) {c : Command} (hc : Sent c) {a : Table}
    (hexec : execCommand ch db c = .ok (a, db')) : Sound ch db' := by
  cases c with
  | stmt q => exact sound_stmt h hc hexec
  | dropIfExists name =>
    cases hexec
    exact h.dropped name
  | createIfNotExists name columns =>
    cases hc with
    | createIfNotExists t =>
      simp only [execCommand, done] at hexec
      split at hexec
      · cases hexec
        exact h
      · cases hexec
        exact h.replaced t ⟨rfl, fun _ hrow => absurd hrow List.not_mem_nil⟩
  | allowVectorIndex =>
    cases hexec
    exact h
  | addIndex name | materializeIndex name =>
    simp only [execCommand, done] at hexec
    split at hexec
    · cases hexec
      exact h
    · cases hexec

theorem sound_served (h : Sound ch db) {c : Command} (hc : Sent c) {ans : Except Exn Table}
    (hserve : ServeCommand ch db c ans db') : Sound ch db' := by
  cases hserve with
  | answered hexec => exact sound_command h hc hexec
  | refused e => exact h
  | lost e hexec => exact sound_command h hc hexec

theorem sound_empty (ch : ClickHouse) : Sound ch fun _ => none := by
  constructor
  · rintro _ _ ⟨⟩
  · rintro _ _ ⟨⟩

end

/-! ## Every run -/

variable {ι : Type} [DecidableEq ι]

/-- **Every row fits its table.** Any number of saves, loads, ticket inserts,
deployments and index builds, interleaved statement by statement and stopped
anywhere, keep the database sound: no table has a column the schema does not
give it, and no row a cell that its column cannot hold. -/
theorem database_sound (rt : Runtime) (ch : ClickHouse) (parties : ι → Party) {db₀ : Database}
    (hstart : Sound ch db₀) {p : Pool ι Database Exn Command Table Unit}
    (h : Pool.Reachable (ServeCommand ch) db₀ (fun i => (parties i).script rt) p) :
    Sound ch p.store := by
  have hserve (db : Database) (c : Command) (ans : Except Exn Table) (db' : Database) (hc : Sent c)
      (hserved : ServeCommand ch db c ans db') (hsound : Sound ch db) : Sound ch db' :=
    sound_served hsound hc hserved
  exact Pool.Reachable.keeps (fun i => asks_script (parties i)) hserve hstart h

/-- A deployment and, in the middle of it, a ticket. -/
def demoParties : Bool → Party
  | false => .deploy true
  | true => .ticket (Main.ticketRow (.int 1735689600)
      ⟨"TKT-1", "session", [("customer_id", .str "CUST-0001"), ("phone", .str "98450")], [], true⟩
      "User: Hi." (.str "A greeting.") (.list [.float (.finite 0)]))

def deployedStore : Pool Bool Database Exn Command Table Unit :=
  Pool.play (answerCommand typedClickHouse .none)
    (List.replicate 13 false ++ [true, true])
    ⟨fun _ => none, fun i => (demoParties i).script Runtime.ascii, []⟩

theorem database_sound_deployed : Sound typedClickHouse deployedStore.store :=
  database_sound Runtime.ascii typedClickHouse demoParties (sound_empty typedClickHouse)
    (Pool.Reachable.start.play (answerCommand_serves typedClickHouse .none) _)

end TechMart.Db
