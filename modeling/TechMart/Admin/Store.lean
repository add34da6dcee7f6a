import TechMart.Admin.Router

/-!
# ClickHouse statements

What each statement of the admin router does to the database. A statement is
atomic: it answers, or raises and changes nothing, or takes effect and raises
because its answer is lost.
-/

namespace TechMart.Admin

open Python Sql

/-- What a column makes of a Python value (`none`: the insert is rejected) and
what it holds when an insert leaves it out. -/
structure ClickHouse where
  write : (column : Str) → Value → Option Value
  default : (column : Str) → Value

/-! ## The types of the columns -/

/-- What the columns of the schema hold. A time is its seconds. -/
inductive CellType where
  | text
  | texts
  | vector
  | map
  | whole
  | real
  | date
  | time

namespace CellType

def takes : CellType → Value → Bool
  | text, .str _ => true
  | whole, .int _ | time, .int _ | real, .int _ | real, .float _ => true
  | date, .date _ _ _ => true
  | texts, .list xs => xs.all fun x => (x matches .str _)
  | vector, .list xs => xs.all fun x => (x matches .float _)
  | map, .dict kvs => kvs.all fun kv => (kv.2 matches .str _)
  | _, _ => false

def default : CellType → Value
  | text => .str []
  | texts | vector => .list []
  | map => .dict []
  | whole | time => .int 0
  | real => .float (.finite 0)
  | date => .date 1970 1 1

def ofColumn (column : Str) : CellType :=
  if column = "tags" then texts
  else if column ∈ (["embedding", "question_embedding", "summary_embedding"] : List Str) then vector
  else if column = "specs" then map
  else if column ∈ (["age", "is_active", "item_count", "stock_qty", "warranty_months", "in_stock"] :
      List Str) then whole
  else if column ∈ (["price_inr", "rating", "subtotal_inr", "discount_inr", "delivery_charges_inr",
      "final_amount_inr"] : List Str) then real
  else if column ∈ (["effective_date", "last_updated"] : List Str) then date
  else if column ∈ (["call_start_time", "call_end_time"] : List Str) then time
  else text

end CellType

/-- A ClickHouse that refuses what a column has no room for, `None` included. -/
def typedClickHouse : ClickHouse where
  write column v := if (CellType.ofColumn column).takes v then some v else none
  default column := (CellType.ofColumn column).default

theorem typedClickHouse_write {column : Str} {v w : Value}
    (h : typedClickHouse.write column v = some w) : w = v := by
  simp only [typedClickHouse] at h
  split at h
  · exact (Option.some.inj h).symm
  · cases h

/-! ## Statements -/

def setTable (db : Database) (table : Str) (t : Option Table) : Database :=
  Function.update db table t

def unknownTable (table : Str) : Exn := ⟨"Unknown table " ++ table⟩

def done (db : Database) : Except Exn (Table × Database) := .ok (⟨[], []⟩, db)

section
variable (ch : ClickHouse)

/-- The stored form of one inserted row, in the order of the table's columns. -/
def storeRow (columns insertCols : List Str) (vals : Row) : Option Row :=
  columns.mapM fun c =>
    match Dict.get? (insertCols.zip vals) c with
    | some v => ch.write c v
    | none => some (ch.default c)

/-- The stored form of a whole insert. -/
def storeRows (columns insertCols : List Str) (data : List Row) : Option (List Row) :=
  data.mapM (storeRow ch columns insertCols)

/-- The answer of a statement and the database after it. -/
def exec (db : Database) : Stmt → Except Exn (Table × Database)
  | .connect => done db
  | .selectColumn column table => match db table with
    | some t => .ok (⟨[column], t.rows.map fun r => [(t.cell r column).getD .none]⟩, db)
    | none => .error (unknownTable table)
  | .selectAll table => match db table with
    | some t => .ok (t, db)
    | none => .error (unknownTable table)
  | .truncate table => match db table with
    | some t => done (setTable db table (some ⟨t.columns, []⟩))
    | none => .error (unknownTable table)
  | .createAs table source => match db table, db source with
    | none, some t => done (setTable db table (some ⟨t.columns, []⟩))
    | some _, _ => .error ⟨"Table already exists " ++ table⟩
    | none, none => .error (unknownTable source)
  | .insert table data insertCols => match db table with
    | some t =>
      if insertCols.all (· ∈ t.columns) then
        match storeRows ch t.columns insertCols data with
        | some rows => done (setTable db table (some ⟨t.columns, t.rows ++ rows⟩))
        | none => .error ⟨"Type mismatch"⟩
      else .error ⟨"No such column"⟩
    | none => .error (unknownTable table)
  | .exchange a b => match db a, db b with
    | some ta, some tb => done (setTable (setTable db a (some tb)) b (some ta))
    | _, _ => .error (unknownTable a)
  | .drop table => match db table with
    | some _ => done (setTable db table none)
    | none => .error (unknownTable table)

/-- How a statement can come back. -/
inductive Serve (db : Database) (q : Stmt) : Except Exn Table → Database → Prop
  | answered {a : Table} {db' : Database} : exec ch db q = .ok (a, db') → Serve db q (.ok a) db'
  | refused (e : Exn) : Serve db q (.error e) db
  | lost {a : Table} {db' : Database} (e : Exn) : exec ch db q = .ok (a, db') →
      Serve db q (.error e) db'

/-- What happens to one statement on the way. -/
inductive Fault where
  | none
  | refused (e : Exn)
  | lost (e : Exn)

/-- The answer of a statement under a fault, and the database after it. -/
def answer (fault : Fault) (db : Database) (q : Stmt) : Except Exn Table × Database :=
  match fault, exec ch db q with
  | .none, .ok (a, db') => (.ok a, db')
  | .lost e, .ok (_, db') => (.error e, db')
  | .refused e, .ok _ => (.error e, db)
  | _, .error e => (.error e, db)

theorem answer_serves (fault : Fault) (db : Database) (q : Stmt) :
    Serve ch db q (answer ch fault db q).1 (answer ch fault db q).2 := by
  unfold answer
  split
  · exact .answered (by assumption)
  · exact .lost _ (by assumption)
  · exact .refused _
  · exact .refused _

end

/-- The tables a statement writes. -/
def Stmt.writes : Stmt → List Str
  | .truncate t | .createAs t _ | .insert t _ _ | .drop t => [t]
  | .exchange a b => [a, b]
  | .connect | .selectColumn .. | .selectAll _ => []

theorem setTable_self (db : Database) (table : Str) (t : Option Table) :
    setTable db table t table = t := Function.update_self ..

theorem setTable_ne (db : Database) {table other : Str} (h : other ≠ table) (t : Option Table) :
    setTable db table t other = db other := Function.update_of_ne h ..

/-- A statement leaves alone every table it does not write. -/
theorem exec_frame {ch : ClickHouse} {db db' : Database} {q : Stmt} {a : Table} {table : Str}
    (h : exec ch db q = .ok (a, db')) (hw : table ∉ q.writes) : db' table = db table := by
  cases q <;> simp only [exec, done, Stmt.writes, List.mem_cons, List.not_mem_nil, or_false,
    not_or] at h hw
  case connect => cases h; rfl
  case selectColumn | selectAll => split at h <;> cases h; rfl
  case truncate | createAs | drop =>
    split at h <;> cases h
    exact setTable_ne _ hw _
  case insert =>
    split at h
    · split at h
      · split at h <;> cases h
        exact setTable_ne _ hw _
      · cases h
    · cases h
  case exchange =>
    split at h <;> cases h
    rw [setTable_ne _ hw.2, setTable_ne _ hw.1]

/-! ## Names -/

namespace AdminTable

theorem ofName?_name (t : AdminTable) : ofName? t.name = some t := by
  cases t <;> decide

theorem name_injective {t u : AdminTable} (h : t.name = u.name) : t = u := by
  have := congrArg ofName? h
  simpa only [ofName?_name, Option.some.injEq] using this

theorem name_ne_tempName (t u : AdminTable) : t.name ≠ u.tempName := by
  cases t <;> cases u <;> decide

theorem tempName_injective {t u : AdminTable} (h : t.tempName = u.tempName) : t = u :=
  name_injective (List.append_cancel_right h)

end AdminTable

end TechMart.Admin
