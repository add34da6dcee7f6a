import TechMart.Sql.Table
import Mathlib.Data.Option.Basic

/-!
# SELECT

The meaning of a small part of SQL: unions of single-table selects with a
condition. Names and kinds are looked up before any row is read, as a `Schema`
has them: an unknown name, a comparison of unlike values and a union of unlike
columns have no meaning here, `none`, whatever rows there are.
-/

namespace TechMart.Sql

open Python

/-- A column, by its name and perhaps its table's, or a literal. -/
inductive Scalar where
  | column (table : Option Str) (name : Str)
  | literal (v : Value)

inductive Cond where
  | eq (a b : Scalar)
  | ne (a b : Scalar)
  | not (p : Cond)
  | and (p q : Cond)
  | or (p q : Cond)

inductive Items where
  | all
  | columns (names : List (Option Str × Str))

structure Select where
  items : Items
  table : Str
  condition : Option Cond

/-- `UNION ALL` of its parts. -/
abbrev Query := List Select

/-- What a column holds. -/
inductive Kind where
  | text
  | whole
  | real
  | map
  | vector
  deriving DecidableEq

/-- The columns of the tables, by name. -/
abbrev Schema := Dict (Dict Kind)

/-! ## Names and kinds -/

section
variable (schema : Schema) (table : Str) (t : Table)

def columnKind (column : Str) : Option Kind := (schema.get? table).bind (·.get? column)

/-- The kind of a column that the table has. -/
def presentKind (column : Str) : Option Kind :=
  if column ∈ t.columns then columnKind schema table column else none

def Scalar.kind : Scalar → Option Kind
  | .column qualifier name =>
    if qualifier.getD table = table then presentKind schema table t name else none
  | .literal (.str _) => some .text
  | .literal (.int _) => some .whole
  | .literal _ => none

/-- Texts are compared with texts, whole numbers with whole numbers. -/
def comparable (a b : Scalar) : Bool :=
  match a.kind schema table t, b.kind schema table t with
  | some .text, some .text | some .whole, some .whole => true
  | _, _ => false

def Cond.typed : Cond → Bool
  | .eq a b | .ne a b => comparable schema table t a b
  | .not p => p.typed
  | .and p q | .or p q => p.typed && q.typed

end

/-- The kinds of what it selects, if its names are there and its condition is typed. -/
def Select.kinds (schema : Schema) (s : Select) (t : Table) : Option (List Kind) :=
  if s.condition.all (Cond.typed schema s.table t) then
    match s.items with
    | .all => t.columns.mapM (presentKind schema s.table t)
    | .columns names => names.mapM fun name => (Scalar.column name.1 name.2).kind schema s.table t
  else none

/-! ## Rows -/

/-- Two values of one type are compared; others are not. -/
def equal : Value → Value → Option Bool
  | .str s, .str t => some (s == t)
  | .int m, .int n => some (m == n)
  | _, _ => none

section
variable (table : Str) (t : Table) (row : Row)

/-- A column of this table, in this row. -/
def columnValue (qualifier : Option Str) (name : Str) : Option Value :=
  if qualifier.getD table = table then t.cell row name else none

def Scalar.eval : Scalar → Option Value
  | .column qualifier name => columnValue table t row qualifier name
  | .literal v => some v

def Cond.eval : Cond → Option Bool
  | .eq a b => do equal (← a.eval table t row) (← b.eval table t row)
  | .ne a b => do some (!(← equal (← a.eval table t row) (← b.eval table t row)))
  | .not p => do some (!(← p.eval))
  | .and p q => do some ((← p.eval) && (← q.eval))
  | .or p q => do some ((← p.eval) || (← q.eval))

end

/-- The rows that meet the condition. -/
def Select.rows (s : Select) (t : Table) : List Row → Option (List Row)
  | [] => some []
  | row :: rest => do
    let keep ← match s.condition with
      | some p => p.eval s.table t row
      | none => some true
    let rest ← Select.rows s t rest
    some (if keep then row :: rest else rest)

def Select.columns (s : Select) (t : Table) : List Str :=
  match s.items with
  | .all => t.columns
  | .columns names => names.map Prod.snd

def Select.project (s : Select) (t : Table) (row : Row) : Option Row :=
  match s.items with
  | .all => some row
  | .columns names => names.mapM fun name => columnValue s.table t row name.1 name.2

/-- With the kinds of its columns. -/
def Select.eval (schema : Schema) (db : Database) (s : Select) : Option (List Kind × Table) := do
  let t ← db s.table
  let kinds ← s.kinds schema t
  let rows ← s.rows t t.rows
  let rows ← rows.mapM (s.project t)
  some (kinds, ⟨s.columns t, rows⟩)

/-- The parts have columns of the same kinds; the first one names them. -/
def Query.eval (schema : Schema) (db : Database) : Query → Option (List Kind × Table)
  | [] => none
  | [s] => s.eval schema db
  | s :: rest => do
    let (kinds, first) ← s.eval schema db
    let (otherKinds, others) ← Query.eval schema db rest
    if kinds = otherKinds then some (kinds, ⟨first.columns, first.rows ++ others.rows⟩) else none

end TechMart.Sql
