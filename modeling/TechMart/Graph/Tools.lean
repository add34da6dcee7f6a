import TechMart.Graph.State
import TechMart.Sql.Table

/-!
# The context builders

`get_support_context`, `get_catalog_context`, `get_order_context` and
`get_history_context`. Whatever they call is a field of `Services` and may
raise; a query with a fixed select list answers rows of its width.
-/

namespace TechMart.Graph

open Python Sql

/-- A row of `n` columns. -/
abbrev Cells (n : ℕ) := Fin n → Value

/-- What an LLM of a context builder is asked. -/
inductive Prompt where
  | filter (catStr query : Str)
  | sql (customerId query : Str) (previousError : Option Str)

/-- The calls of one context builder. Queries and LLM calls carry the place
they are made at, so that two equal ones may be answered differently. -/
structure Services where
  getClient : Except Exn Unit
  chatGroq : Except Exn Unit
  encode : Str → Except Exn Value
  invoke : ℕ → Prompt → Except Exn Str
  select : ℕ → (width : ℕ) → (sql : Str) → (parameters : Dict Value) → Except Exn (List (Cells width))
  query : ℕ → (sql : Str) → Except Exn Table

section
variable (rt : Runtime) (svc : Services)

/-! ## Rendering -/

def truncationMarker : Str :=
  ("\n...[TRUNCATED due to context limits." : Str) ++ (" Please be more specific.]" : Str)

/-- The loop that stops at the first row over the limit. -/
def appendRows : (outStr : Str) → List Str → Str
  | outStr, [] => outStr
  | outStr, r :: rs =>
    if outStr.length + r.length > 2000 then outStr ++ truncationMarker
    else appendRows (outStr ++ r ++ "\n") rs

def renderRows (out : List Str) : Str := strip (appendRows [] out)

/-! ## Support -/

def faqSql (vector : Value) : Str :=
  ("\n        SELECT question, answer, related_tos, cosineDistance(question_embedding, " : Str) ++
    rt.str vector ++
    (") as dist\n        FROM company_faqs\n        ORDER BY dist ASC LIMIT 5\n    " : Str)

def tosSql (docId : Value) : Str :=
  ("SELECT title, content FROM company_tos WHERE doc_id = '" : Str) ++ rt.str docId ++ "'"

/-- The policy an FAQ row refers to. -/
def relatedTos (r : Cells 4) : Value := r 2

def faqLine (r : Cells 4) : Str :=
  ("FAQ: " : Str) ++ rt.str (r 0) ++ " | Answer: " ++ rt.str (r 1) ++ " | TOS Ref: " ++
    rt.str (relatedTos r)

def tosLine (docId : Value) (r : Cells 2) : Str :=
  ("TOS (" : Str) ++ rt.str docId ++ "): " ++ rt.str (r 0) ++ " - " ++ rt.str (r 1)

/-- The lines of the FAQ rows from the `n`-th on, with their policies. -/
def supportLines : (n : ℕ) → List (Cells 4) → Except Exn (List Str)
  | _, [] => .ok []
  | n, r :: rows =>
    if (relatedTos r).truthy then do
      let tosRes ← svc.select (n + 1) 2 (tosSql rt (relatedTos r)) []
      let out ← supportLines (n + 1) rows
      .ok (faqLine rt r :: (tosRes.head?.map (tosLine rt (relatedTos r))).toList ++ out)
    else do
      let out ← supportLines (n + 1) rows
      .ok (faqLine rt r :: out)

def getSupportContext (query : Str) : Except Exn Str := do
  svc.getClient
  let vector ← svc.encode query
  let rows ← svc.select 0 4 (faqSql rt vector) []
  let out ← supportLines rt svc 0 rows
  .ok (renderRows out)

/-! ## Catalog -/

def joinStrings (sep : Str) (vs : List Value) : Except Exn Str :=
  match strings vs with
  | some ss => .ok (join sep ss)
  | none => .error ⟨"sequence item: expected str instance"⟩

/-- The categories as the prompt lists them. -/
def validCategories : Except Exn Str := do
  let rows ← svc.select 0 1 "SELECT distinct category FROM product_catalog" []
  joinStrings ", " (rows.map fun r => r 0)

/-- `FilterOutput(**parsed_json)`. -/
def filterOutput : Value → Except Exn Str
  | .dict kvs => strField rt kvs "where_clause" none
  | _ => .error ⟨"FilterOutput() argument after ** must be a mapping"⟩

/-- The `WHERE` clause the LLM gave, or `1=1`. -/
def whereClause (catStr query : Str) : Str :=
  let result := do
    let rawResult ← svc.invoke 0 (.filter catStr query)
    let parsedJson ← Reply.load rt rawResult
    filterOutput rt parsedJson
  match result with
  | .ok clause =>
    let clause := strip clause
    if clause.isEmpty || startswith (rt.upperStr clause) "SELECT" then "1=1" else clause
  | .error _ => "1=1"

/-- The vector query, as it is indented in the source. -/
def vectorSql (indent : ℕ) (vector : Value) (clause limit : Str) : Str :=
  let line (n : ℕ) (text : Str) : Str := "\n" ++ List.replicate n ' ' ++ text
  line indent (("SELECT name, brand, category, price_inr, stock_qty, warranty_months, " : Str) ++
    ("rating, in_stock, price_tier, specs, " : Str)) ++
  line (indent + 7) (("cosineDistance(embedding, " : Str) ++ rt.str vector ++ ") as dist ") ++
  line indent "FROM product_catalog " ++
  line indent (("WHERE " : Str) ++ clause ++ " ") ++
  line indent "ORDER BY dist ASC " ++
  line indent (("LIMIT " : Str) ++ limit) ++
  line (indent - 4) []

def productLine (r : Cells 11) : Str :=
  ("Product: " : Str) ++ rt.str (r 0) ++ " (" ++ rt.str (r 1) ++ " " ++ rt.str (r 2) ++ "), Price: " ++
    rt.str (r 3) ++ ", Stock: " ++ rt.str (r 4) ++ ", Warranty: " ++ rt.str (r 5) ++ "mo, Rating: " ++
    rt.str (r 6) ++ ", Tier: " ++ rt.str (r 8) ++ ", Specs: " ++ rt.str (r 9)

/-- The filtered search, and the unfiltered one where it finds nothing. -/
def hybridSearch (vector : Value) (clause : Str) : Except Exn Str := do
  let rows ← svc.select 1 11 (vectorSql rt 12 vector clause "5") []
  if rows.isEmpty && clause != ("1=1" : Str) then do
    let rows ← svc.select 2 11 (vectorSql rt 16 vector "1=1" "3") []
    .ok (renderRows (rows.map (productLine rt)))
  else .ok (renderRows (rows.map (productLine rt)))

/-- The last resort, without truncation; an unbound vector raises there too. -/
def vectorFallback (vector : Option Value) : Str :=
  match vector with
  | some vector => match svc.select 3 11 (vectorSql rt 16 vector "1=1" "3") [] with
    | .ok rows => strip (rows.flatMap fun r => productLine rt r ++ "\n")
    | .error _ => []
  | none => []

/-- The search and its last resort: whatever they raise, there is a text. -/
def catalogText (query clause : Str) : Str :=
  match svc.encode query with
  | .ok vector => match hybridSearch rt svc vector clause with
    | .ok text => text
    | .error _ => vectorFallback rt svc (some vector)
  | .error _ => vectorFallback rt svc none

def getCatalogContext (query : Str) : Except Exn Str := do
  svc.getClient
  svc.chatGroq
  let catStr ← validCategories svc
  .ok (catalogText rt svc query (whereClause rt svc catStr query))

/-! ## Orders -/

/-- `SQLOutput(**parsed_json)`. -/
def sqlOutput : Value → Except Exn Str
  | .dict kvs => strField rt kvs "query" none
  | _ => .error ⟨"SQLOutput() argument after ** must be a mapping"⟩

/-- `customer_id not in sql_query` raises for a customer id that is no text. -/
def lacks (sqlQuery : Str) : Value → Except Exn Bool
  | .str customerId => .ok (!contains sqlQuery customerId)
  | _ => .error ⟨"'in <string>' requires string as left operand"⟩

/-- The statement of one reply, once it has passed the checks. -/
def checkedSql (customerId : Value) (rawResult : Str) : Except Exn Str := do
  let parsedJson ← Reply.load rt rawResult
  let result ← sqlOutput rt parsedJson
  let sqlQuery := strip result
  if !startswith (rt.upperStr sqlQuery) "SELECT" || contains sqlQuery ";" then
    .error ⟨"Only a single SELECT query is allowed."⟩
  else do
    let missing ← lacks sqlQuery customerId
    if missing then
      .error ⟨("Security violation: generated query is missing " : Str) ++
        ("the mandatory customer_id filter." : Str)⟩
    else .ok sqlQuery

def orderLine (columns : List Str) (row : Row) : Str :=
  join ", " ((columns.zip row).map fun cv => cv.1 ++ ": " ++ rt.str cv.2)

def renderOrders (res : Table) : Str :=
  if res.rows.isEmpty then ("No order records found for your account." : Str)
  else renderRows (res.rows.map (orderLine rt res.columns))

/-- The body of the `try` block in one attempt. -/
def orderAttempt (customerId : Value) (query : Str) (attempt : ℕ) (previousError : Option Str) :
    Except Exn Str := do
  let rawResult ← svc.invoke attempt (.sql (rt.str customerId) query previousError)
  let sqlQuery ← checkedSql rt customerId rawResult
  let res ← svc.query attempt sqlQuery
  .ok (renderOrders rt res)

def orderTrouble : Str :=
  ("I'm having trouble retrieving your order details right now. " : Str) ++
    ("Please try again or ask to speak to a human agent." : Str)

/-- Two attempts; the second one is told the error of the first. -/
def orderAttempts (customerId : Value) (query : Str) : Str :=
  match orderAttempt rt svc customerId query 0 none with
  | .ok text => text
  | .error e => match orderAttempt rt svc customerId query 1 (some e.text) with
    | .ok text => text
    | .error _ => orderTrouble

def getOrderContext (customerId : Value) (query : Str) : Except Exn Str := do
  svc.getClient
  svc.chatGroq
  .ok (orderAttempts rt svc customerId query)

/-! ## History -/

def historySql : Str :=
  ("SELECT ticket_id, call_start_time, summary FROM call_tickets " : Str) ++
    ("WHERE customer_id = %(cid)s ORDER BY call_start_time DESC" : Str)

def ticketLine (r : Cells 3) : Str :=
  ("Ticket: " : Str) ++ rt.str (r 0) ++ ", Date: " ++ rt.str (r 1) ++ ", Summary: " ++ rt.str (r 2)

def getHistoryContext (customerId : Value) : Except Exn Str := do
  svc.getClient
  let rows ← svc.select 0 3 historySql [("cid", customerId)]
  .ok (renderRows (rows.map (ticketLine rt)))

end

end TechMart.Graph
