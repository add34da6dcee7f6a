import TechMart.Admin.Live
import TechMart.Python.Runs

/-!
# The initial load

`ingest_data` reads five files and inserts each as one block, with the columns
of its first record. `asks_ingestData` says which statements it sends.
-/

namespace TechMart.Db

open Python Sql Admin

/-- The JSON files of `data/`; reading one may raise. -/
abbrev DataFiles := (filename : Str) → Except Exn (List (Dict Value))

def keyError (key : Str) : Exn := ⟨'\'' :: key ++ ['\'']⟩

/-- `record[key]`. -/
def item (record : Dict Value) (key : Str) : Except Exn Value :=
  match record.get? key with
  | some v => .ok v
  | none => .error (keyError key)

/-! ## The records of a file -/

section
variable (rt : Runtime) (encode : Value → Except Exn Value)

def customerRecord (c : Dict Value) : Except Exn (Dict Value) :=
  .ok (c.set "is_active" (.int (c.getD "is_active" .none).truthy.toInt))

def orderRecord (o : Dict Value) : Except Exn (Dict Value) := do
  let items ← Json.dumps rt (o.getD "items" (.list []))
  .ok (o.set "items" (.str items))

def faqRecord (f : Dict Value) : Except Exn (Dict Value) := do
  let question ← item f "question"
  let vector ← encode question
  .ok (f.set "question_embedding" vector)

/-- `t[column] = datetime.datetime.strptime(t[column], "%Y-%m-%d").date()`. -/
def parseDate (column : Str) (t : Dict Value) : Except Exn (Dict Value) := do
  match ← item t column with
  | .str text => match strptime rt text with
    | some date => .ok (t.set column date)
    | none => .error ⟨"time data does not match format '%Y-%m-%d'"⟩
  | _ => .error ⟨"strptime() argument 1 must be str"⟩

def tosRecord (t : Dict Value) : Except Exn (Dict Value) := do
  let t ← parseDate rt "effective_date" t
  parseDate rt "last_updated" t

/-- `p.get("metadata", {})`, whose `get` is called next. -/
def metadataOfRecord (p : Dict Value) : Except Exn (Dict Value) :=
  match p.getD "metadata" (.dict []) with
  | .dict fields => .ok fields
  | _ => .error ⟨"object has no attribute 'get'"⟩

def catalogRecord (p : Dict Value) : Except Exn (Dict Value) := do
  let fields ← metadataOfRecord p
  let price ← rt.float (fields.getD "price_inr" (.int 0))
  let stock ← rt.int (fields.getD "stock_qty" (.int 0))
  let warranty ← rt.int (fields.getD "warranty_months" (.int 0))
  let rating ← rt.float (fields.getD "rating" (.int 0))
  let vector ← encode (fields.getD "name" (p.getD "page_content" .none))
  .ok [("product_id", p.getD "product_id" .none), ("page_content", p.getD "page_content" .none),
    ("name", fields.getD "name" .none), ("brand", fields.getD "brand" .none),
    ("category", fields.getD "category" .none), ("price_inr", .float price),
    ("stock_qty", .int stock), ("warranty_months", .int warranty), ("rating", .float rating),
    ("in_stock", .int (fields.getD "in_stock" .none).truthy.toInt),
    ("price_tier", fields.getD "price_tier" .none), ("specs", fields.getD "specs" (.dict [])),
    ("embedding", vector)]

end

/-! ## The files -/

/-- The five files, in the order they are loaded. -/
inductive Source where
  | customers
  | orderHistory
  | companyFaqs
  | companyTos
  | productCatalog

namespace Source

def filename : Source → Str
  | customers => "customers.json"
  | orderHistory => "order_history.json"
  | companyFaqs => "company_faqs.json"
  | companyTos => "company_tos.json"
  | productCatalog => "product_catalog_rag.json"

def table : Source → Str
  | customers => "customers"
  | orderHistory => "order_history"
  | companyFaqs => "company_faqs"
  | companyTos => "company_tos"
  | productCatalog => "product_catalog"

def record (rt : Runtime) (encode : Value → Except Exn Value) :
    Source → Dict Value → Except Exn (Dict Value)
  | customers => customerRecord
  | orderHistory => orderRecord rt
  | companyFaqs => faqRecord encode
  | companyTos => tosRecord rt
  | productCatalog => catalogRecord rt encode

end Source

section
variable (rt : Runtime) (encode : Value → Except Exn Value) (files : DataFiles)

/-- The records of a file as they are inserted. -/
def records (s : Source) : Except Exn (List (Dict Value)) := do
  let loaded ← files s.filename
  loaded.mapM (s.record rt encode)

def insertRecords (table : Str) (records : List (Dict Value)) : Handler Unit := do
  let _ ← Prog.perform (.insert table (insertData records) (insertColumns records))
  pure ()

/-- One file; an empty one raises at its first record. -/
def ingestFile (s : Source) : Handler Unit := do
  match ← Prog.ofExcept (records rt encode files s) with
  | [] => .raise ⟨"list index out of range"⟩
  | rows => insertRecords s.table rows

/-- The catalog, which may be empty. -/
def ingestCatalog : Handler Unit := do
  match ← Prog.ofExcept (records rt encode files .productCatalog) with
  | [] => pure ()
  | rows => insertRecords Source.productCatalog.table rows

def ingestData : Handler Unit := do
  let _ ← Prog.perform .connect
  ingestFile rt encode files .customers
  ingestFile rt encode files .orderHistory
  ingestFile rt encode files .companyFaqs
  ingestFile rt encode files .companyTos
  ingestCatalog rt encode files

end

/-! ## What a load sends -/

section
variable {P : Stmt → Prop} {α : Type} {ch : ClickHouse}

/-- What takes effect is what the handler asks for. -/
theorem runHandler_effects {prog : Handler α} (h : prog.Asks P) (faults : ℕ → Fault)
    (db : Database) : ∀ q ∈ (runHandler ch faults db prog).effects, P q := by
  induction prog generalizing faults db with
  | done | raise => exact fun q hq => absurd hq List.not_mem_nil
  | call q k ih =>
    rcases runHandler_call faults db q k with ⟨e, hrun⟩ | ⟨a, db', -, ans, -, hrun⟩
    · rw [hrun]
      exact ih _ (h.2 _) _ _
    · rw [hrun]
      intro q' hq'
      rcases List.mem_cons.mp hq' with rfl | hq'
      · exact h.1
      · exact ih _ (h.2 _) _ _ q' hq'

/-- What every statement asked for keeps, the handler keeps, however it ends. -/
theorem runHandler_keeps {Keeps : Database → Prop} {prog : Handler α} (h : prog.Asks P)
    (hstep : ∀ db q a db', P q → exec ch db q = .ok (a, db') → Keeps db → Keeps db')
    (faults : ℕ → Fault) (db : Database) (hdb : Keeps db) :
    Keeps (runHandler ch faults db prog).db := by
  induction prog generalizing faults db with
  | done | raise => exact hdb
  | call q k ih =>
    rcases runHandler_call faults db q k with ⟨e, hrun⟩ | ⟨a, db', hexec, ans, -, hrun⟩
    · rw [hrun]
      exact ih _ (h.2 _) _ _ hdb
    · rw [hrun]
      exact ih _ (h.2 _) _ _ (hstep db q a db' h.1 hexec hdb)

end

/-- The statements of a load: the connection, and inserts of whole files. -/
def Loads (rt : Runtime) (encode : Value → Except Exn Value) (files : DataFiles) (q : Stmt) : Prop :=
  q = .connect ∨ ∃ (s : Source) (loaded rows : List (Dict Value)), files s.filename = .ok loaded ∧
    loaded.mapM (s.record rt encode) = .ok rows ∧
    q = .insert s.table (insertData rows) (insertColumns rows)

section
variable {rt : Runtime} {encode : Value → Except Exn Value} {files : DataFiles}

theorem asks_insertRecords {s : Source} {rows : List (Dict Value)}
    (h : records rt encode files s = .ok rows) :
    (insertRecords s.table rows).Asks (Loads rt encode files) := by
  obtain ⟨loaded, hloaded, hrows⟩ := bind_ok h
  have hinsert : Loads rt encode files (.insert s.table (insertData rows) (insertColumns rows)) :=
    Or.inr ⟨s, loaded, rows, hloaded, hrows, rfl⟩
  exact (Prog.Asks.perform hinsert).bind fun _ => trivial

theorem asks_ingestFile (s : Source) :
    (ingestFile rt encode files s).Asks (Loads rt encode files) := by
  rw [ingestFile]
  cases hrows : records rt encode files s with
  | error e => trivial
  | ok rows =>
    cases rows with
    | nil => trivial
    | cons r rows => exact asks_insertRecords hrows

theorem asks_ingestCatalog : (ingestCatalog rt encode files).Asks (Loads rt encode files) := by
  rw [ingestCatalog]
  cases hrows : records rt encode files .productCatalog with
  | error e => trivial
  | ok rows =>
    cases rows with
    | nil => trivial
    | cons r rows => exact asks_insertRecords hrows

/-- A load connects and inserts files, each with the columns of its first
record. -/
theorem asks_ingestData : (ingestData rt encode files).Asks (Loads rt encode files) := by
  have hconnect : (Prog.perform .connect : Handler Table).Asks (Loads rt encode files) :=
    Prog.Asks.perform (Or.inl rfl)
  refine hconnect.bind fun _ => (asks_ingestFile _).bind fun _ => (asks_ingestFile _).bind fun _ =>
    (asks_ingestFile _).bind fun _ => (asks_ingestFile _).bind fun _ => asks_ingestCatalog

end

end TechMart.Db
