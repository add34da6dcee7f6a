import TechMart.Python.Json
import TechMart.Python.Prog
import TechMart.Sql.Table

/-!
# The admin router

`get_data` and `save_data` as programs over ClickHouse statements: id
assignment, the coercions of each table, and the swap through a shadow table.
-/

namespace TechMart.Admin

open Python Sql

/-- The tables the page may load and save. -/
inductive AdminTable where
  | productCatalog
  | companyFaqs
  | companyTos
  deriving DecidableEq

namespace AdminTable

def name : AdminTable → Str
  | productCatalog => "product_catalog"
  | companyFaqs => "company_faqs"
  | companyTos => "company_tos"

def ofName? (table : Str) : Option AdminTable :=
  [productCatalog, companyFaqs, companyTos].find? fun t => t.name = table

def idCol : AdminTable → Str
  | productCatalog => "product_id"
  | companyFaqs => "faq_id"
  | companyTos => "doc_id"

/-- The shadow table of a save. -/
def tempName (t : AdminTable) : Str := t.name ++ "_temp"

end AdminTable

/-- The statements sent to ClickHouse; `connect` is `get_client()`. -/
inductive Stmt where
  | connect
  | selectColumn (column table : Str)
  | selectAll (table : Str)
  | truncate (table : Str)
  | createAs (table source : Str)
  | insert (table : Str) (data : List Row) (columns : List Str)
  | exchange (a b : Str)
  | drop (table : Str)

/-- A request handler: it returns or raises, and calls ClickHouse in between. -/
abbrev Handler (α : Type) := Prog Exn Stmt Table α

structure SaveData where
  table : Str
  rows : List (Dict Value)

section
variable (rt : Runtime) (encode : Value → Except Exn Value)

/-! ## Ids -/

/-- `int(str(cell).split("-")[-1])`, `none` where that raises. -/
def idNumber (cell : Value) : Option Int := rt.intOfStr ((rt.str cell).rtakeWhile (· != '-'))

/-- The maximum after one row of the id query; a row that raises is skipped. -/
def raiseMax (m : Nat) (row : Row) : Nat :=
  match row.head?.bind (idNumber rt) with
  | some num => if (m : Int) < num then num.toNat else m
  | none => m

/-- The largest number an id in the table ends in, at least zero. -/
def currentMax (idResult : Table) : Nat := idResult.rows.foldl (raiseMax rt) 0

def catMap : Dict Str :=
  [("Laptop", "TK-LAP"), ("CPU", "TK-CPU"), ("Television", "TK-TV"), ("Phone", "TK-PHN"),
   ("Monitor", "TK-MON"), ("GPU", "TK-GPU"), ("Audio", "TK-AUD"), ("Accessories", "TK-ACC"),
   ("Tablet", "TK-TAB"), ("Console", "TK-CON"), ("Camera", "TK-CAM"), ("Smartwatch", "TK-WTC"),
   ("Printer", "TK-PRN"), ("Router", "TK-RTR")]

/-- What stands before the number of a new id. -/
def idPrefix (t : AdminTable) (r : Dict Value) : Str :=
  match t with
  | .productCatalog =>
    let cat := strip (rt.str (r.getD "category" (.str [])))
    catMap.getD cat (if cat.isEmpty then "TK-PRD" else "TK-" ++ rt.upperStr (cat.take 3))
  | .companyFaqs => "FAQ"
  | .companyTos => "TOS"

def newId (t : AdminTable) (r : Dict Value) (n : Nat) : Str :=
  idPrefix rt t r ++ '-' :: padded 3 n

/-- The id as the code compares it: missing, blank and `None` count as new. -/
def needsId (t : AdminTable) (r : Dict Value) : Bool :=
  let val := strip (rt.str (r.getD t.idCol (.str [])))
  val.isEmpty || val == ("None" : Str)

/-- One row of the id loop, with the running maximum. -/
def assignId (t : AdminTable) (m : Nat) (r : Dict Value) : Nat × Dict Value :=
  if needsId rt t r then (m + 1, r.set t.idCol (.str (newId rt t r (m + 1)))) else (m, r)

/-! ## Coercions -/

def tagsOf (text : Str) : Value :=
  .list (((text.splitOn ',').map strip).filter (fun t => !t.isEmpty) |>.map .str)

def daysInMonth (year month : Nat) : Nat :=
  match month with
  | 2 => if year % 4 = 0 ∧ (year % 100 ≠ 0 ∨ year % 400 = 0) then 29 else 28
  | 4 | 6 | 9 | 11 => 30
  | _ => 31

/-- The month field of `strptime`. -/
def monthField : Str → Option Nat
  | [c] => (asciiDigit c).filter (0 < ·)
  | ['0', c] => (asciiDigit c).filter (0 < ·)
  | ['1', c] => (asciiDigit c).bind fun d => if d ≤ 2 then some (10 + d) else none
  | _ => none

/-- The day field of `strptime`: a leading blank may stand for the zero. -/
def dayField : Str → Option Nat
  | [c] => (asciiDigit c).filter (0 < ·)
  | ['0', c] => (asciiDigit c).filter (0 < ·)
  | [' ', c] => (asciiDigit c).filter (0 < ·)
  | ['1', c] => (rt.decimal c).map (10 + ·)
  | ['2', c] => (rt.decimal c).map (20 + ·)
  | ['3', c] => (asciiDigit c).bind fun d => if d ≤ 1 then some (30 + d) else none
  | _ => none

def yearField : Str → Option Nat
  | [a, b, c, d] => do
    let a ← rt.decimal a
    let b ← rt.decimal b
    let c ← rt.decimal c
    let d ← rt.decimal d
    some (((a * 10 + b) * 10 + c) * 10 + d)
  | _ => none

/-- `datetime.strptime(text, "%Y-%m-%d").date()`, `none` for its `ValueError`. -/
def strptime (text : Str) : Option Value :=
  match text.splitOn '-' with
  | [y, m, d] => do
    let y ← yearField rt y
    let m ← monthField m
    let d ← dayField rt d
    if 1 ≤ y ∧ d ≤ daysInMonth y m then some (.date y m d) else none
  | _ => none

/-- A date string becomes a date; one that does not parse stays as it is. -/
def coerceDate (column : Str) (r : Dict Value) : Dict Value :=
  match r.get? column with
  | some (.str text) => match strptime rt text with
    | some date => r.set column date
    | none => r
  | _ => r

def coerceTags (r : Dict Value) : Dict Value :=
  match r.getD "tags" (.str []) with
  | .str text => r.set "tags" (tagsOf text)
  | _ => r

/-- `r[column] = float(r.get(column) or 0.0)`. -/
def coerceFloat (column : Str) (r : Dict Value) : Except Exn (Dict Value) :=
  (rt.float ((r.getD column .none).orElse (.float (.finite 0)))).map fun x =>
    r.set column (.float x)

/-- `r[column] = int(r.get(column) or 0)`. -/
def coerceInt (column : Str) (r : Dict Value) : Except Exn (Dict Value) :=
  (rt.int ((r.getD column .none).orElse (.int 0))).map fun n => r.set column (.int n)

def coerceSpecs (r : Dict Value) : Dict Value :=
  match r.get? "specs" with
  | some (.str text) => match Json.loads rt text with
    | .ok v => r.set "specs" v
    | .error _ => r.set "specs" (.dict [])
  | _ => r

/-- The vector of a text column, where the row carries that column. -/
def coerceEmbedding (column target : Str) (r : Dict Value) : Except Exn (Dict Value) :=
  match r.get? column with
  | some text => (encode text).map fun vector => r.set target vector
  | none => .ok r

/-- The coercions of one row. -/
def coerceRow (t : AdminTable) (r : Dict Value) : Except Exn (Dict Value) :=
  match t with
  | .productCatalog => do
    let r ← coerceFloat rt "price_inr" r
    let r ← coerceInt rt "stock_qty" r
    let r ← coerceInt rt "warranty_months" r
    let r ← coerceFloat rt "rating" r
    let r ← coerceInt rt "in_stock" r
    coerceEmbedding encode "name" "embedding" (coerceSpecs rt r)
  | .companyFaqs => coerceEmbedding encode "question" "question_embedding" (coerceTags r)
  | .companyTos => .ok (coerceDate rt "last_updated" (coerceDate rt "effective_date" (coerceTags r)))

/-- The loop over the submitted rows. -/
def prepareRows (t : AdminTable) : Nat → List (Dict Value) → Except Exn (List (Dict Value))
  | _, [] => .ok []
  | m, r :: rows => do
    let r' ← coerceRow rt encode t (assignId rt t m r).2
    let rows' ← prepareRows t (assignId rt t m r).1 rows
    .ok (r' :: rows')

/-! ## The handlers -/

/-- The columns of the insert: those of the first row. -/
def insertColumns (rows : List (Dict Value)) : List Str :=
  match rows with
  | [] => []
  | r :: _ => r.keys

def insertData (rows : List (Dict Value)) : List Row :=
  rows.map fun r => (insertColumns rows).map fun c => r.getD c .none

/-- Shadow table swap. -/
def replaceTable (t : AdminTable) (rows : List (Dict Value)) : Handler Unit := do
  let _ ← Prog.perform (.createAs t.tempName t.name)
  let _ ← Prog.perform (.insert t.tempName (insertData rows) (insertColumns rows))
  let _ ← Prog.perform (.exchange t.name t.tempName)
  let _ ← Prog.perform (.drop t.tempName)
  pure ()

/-- What `save_data` does once the ids in the table are known. -/
def writeRows (t : AdminTable) (rows : List (Dict Value)) (idResult : Table) : Handler Unit :=
  match prepareRows rt encode t (currentMax rt idResult) rows with
  | .error e => .raise e
  | .ok [] => do
    let _ ← Prog.perform (.truncate t.name)
    pure ()
  | .ok rows => replaceTable t rows

/-- `save_data`; returning is the answer `{"status": "success"}`. -/
def saveData (data : SaveData) : Handler Unit := do
  let _ ← Prog.perform .connect
  match AdminTable.ofName? data.table with
  | none => .raise ⟨"Invalid table"⟩
  | some t =>
    let idResult ← Prog.perform (.selectColumn t.idCol t.name)
    writeRows rt encode t data.rows idResult

end

/-- The answer of `get_data`. -/
structure PageData where
  columns : List Str
  data : List (Dict Value)

/-- A row as the page gets it: without its vectors. -/
def pageRow (columns : List Str) (row : Row) : Dict Value :=
  ((Dict.ofPairs (columns.zip row)).pop "embedding").pop "question_embedding"

def pageData (result : Table) : PageData :=
  let rows := result.rows.map (pageRow result.columns)
  ⟨match rows with | [] => [] | r :: _ => r.keys, rows⟩

/-- `get_data`. -/
def getData (table : Str) : Handler PageData := do
  let _ ← Prog.perform .connect
  match AdminTable.ofName? table with
  | none => .raise ⟨"Invalid table"⟩
  | some t =>
    let result ← Prog.perform (.selectAll t.name)
    pure (pageData result)

end TechMart.Admin
