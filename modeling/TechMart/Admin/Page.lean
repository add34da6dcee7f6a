import TechMart.Admin.Router
import TechMart.Web.Attribute
import TechMart.Web.Stringify
import Mathlib.Data.List.Lex

/-!
# The admin page

The script of the page: `loadData` makes an input or a select of every cell,
`saveData` collects their values. Markup is modelled by its elements, each with
the texts written between the quotes of its attributes and between its tags. The
browser reads an attribute up to the closing quote. What it makes of options with
markup in their texts is its own: it may end the select there, or find others.
-/

namespace TechMart.Admin

open Python Web.Attribute Web.Stringify

/-! ## Inputs and selects -/

inductive InputType where
  | text
  | date
  | number

/-- Where the reading of a number stands. -/
inductive NumberPart where
  | start
  | sign
  | whole
  | point
  | fraction
  | exponent
  | exponentSign
  | exponentDigits

namespace NumberPart

def next (part : NumberPart) (c : Char) : Option NumberPart :=
  match part with
  | start =>
    if c.isDigit then some whole else if c = '-' then some sign
    else if c = '.' then some point else none
  | sign => if c.isDigit then some whole else if c = '.' then some point else none
  | whole =>
    if c.isDigit then some whole else if c = '.' then some point
    else if c = 'e' ∨ c = 'E' then some exponent else none
  | point => if c.isDigit then some fraction else none
  | fraction =>
    if c.isDigit then some fraction else if c = 'e' ∨ c = 'E' then some exponent else none
  | exponent =>
    if c.isDigit then some exponentDigits else if c = '+' ∨ c = '-' then some exponentSign else none
  | exponentSign | exponentDigits => if c.isDigit then some exponentDigits else none

def complete : NumberPart → Bool
  | whole | fraction | exponentDigits => true
  | _ => false

end NumberPart

/-- A valid floating-point number. -/
def isNumber (s : Str) : Bool :=
  match s.foldlM NumberPart.next .start with
  | some part => part.complete
  | none => false

/-- A valid date: a year of four digits or more, a month and a day of two. -/
def isDate (s : Str) : Bool :=
  match s.splitOn '-' with
  | [y, m, d] =>
    (y ++ m ++ d).all Char.isDigit && 4 ≤ y.length && m.length == 2 && d.length == 2 &&
    1 ≤ natOfDigits y && 1 ≤ natOfDigits m && natOfDigits m ≤ 12 &&
    1 ≤ natOfDigits d && natOfDigits d ≤ daysInMonth (natOfDigits y) (natOfDigits m)
  | _ => false

/-- An input has no line breaks in it, nor what its type does not allow. -/
def sanitize : InputType → Str → Str
  | .text, s => s.filter fun c => c != '\n' && c != '\r'
  | .date, s => if isDate s then s else []
  | .number, s => if isNumber s then s else []

/-- An option as it is written: the text between the quotes of its value,
whether it is marked as selected, and the text between its tags. -/
structure Choice where
  val : Str
  sel : Bool
  text : Str

/-- What opens a tag or a comment after `<`. -/
def opensTag (c : Char) : Bool := c.isAlpha || c ∈ ['/', '!', '?']

def hasMarkup : Str → Bool
  | '<' :: c :: s => opensTag c || hasMarkup (c :: s)
  | _ :: s => hasMarkup s
  | [] => false

/-- A text that stays what it is in an option: nothing in it ends the value or
is read as a tag. -/
structure OptionText (s : Str) : Prop where
  noQuote : '\'' ∉ s
  noMarkup : hasMarkup s = false

instance (s : Str) : Decidable (OptionText s) :=
  decidable_of_iff ('\'' ∉ s ∧ hasMarkup s = false) ⟨fun h => ⟨h.1, h.2⟩, fun h => ⟨h.1, h.2⟩⟩

def Choice.Plain (o : Choice) : Prop := OptionText o.val ∧ OptionText o.text

/-- The value of a select is that of the last option marked. It begins with
`Select...`, whose value is empty. -/
def selectedValue (rs : References) (options : List Choice) : Str :=
  match (options.filter Choice.sel).getLast? with
  | some option => attributeValue rs option.val
  | none => []

/-- A browser: its character references, and the inputs and selects that it
finds in the markup of a select, each with its column and its value. -/
structure Browser extends References where
  found : (col : Str) → List Choice → List (Str × Str)
  found_plain : ∀ col options, (∀ o ∈ options, o.Plain) →
    found col options = [(col, selectedValue toReferences options)]

/-- An element of a row, with the text between the quotes of its value. -/
inductive Control where
  | input (type : InputType) (col val : Str)
  | select (col : Str) (options : List Choice)

namespace Control

def col : Control → Str
  | input _ col _ => col
  | select col _ => col

/-- The value of the element as it is written. -/
def value (rs : References) : Control → Str
  | input type _ val => sanitize type (attributeValue rs val)
  | select _ options => selectedValue rs options

/-- What `querySelectorAll` finds of the element. -/
def found (b : Browser) : Control → List (Str × Str)
  | input type col val => [(col, (input type col val).value b.toReferences)]
  | select col options => b.found col options

end Control

/-! ## Cells -/

/-- What the cells of the three tables are in the page. -/
inductive JsValue where
  | null
  | number (q : ℚ)
  | string (s : Str)
  | array (texts : List Str)
  | object (entries : Dict Str)

def textOf? : Value → Option Str
  | .str s => some s
  | _ => none

/-- A value as it is written to JSON and parsed by the page. There is no JSON
for a float that is not finite. -/
def JsValue.ofValue (rt : Runtime) : Value → Option JsValue
  | .none => some .null
  | .int n => some (.number n)
  | .float (.finite q) => some (.number q)
  | .str s => some (.string s)
  | .date y m d => some (.string (rt.str (.date y m d)))
  | .list xs => (xs.mapM textOf?).map .array
  | .dict kvs => (kvs.mapM fun kv => (textOf? kv.2).map fun s => (kv.1, s)).map fun entries =>
    .object (ownOrder entries)
  | .float _ | .bool _ => none

/-- A number that is the value of some numeral. -/
def IsDouble (rt : Runtime) (q : ℚ) : Prop := ∃ s, rt.floatOfStr s = some (.finite q)

/-- `String` of a number: an integer that a double holds is written as such,
and what is written is a number that reads as the same. -/
structure JavaScript (rt : Runtime) where
  numberText : ℚ → Str
  numberText_int : ∀ n : ℤ, n.natAbs ≤ 2 ^ 53 → numberText n = intStr n
  isNumber_numberText : ∀ q, IsDouble rt q → isNumber (numberText q) = true
  floatOfStr_numberText : ∀ q, IsDouble rt q → rt.floatOfStr (numberText q) = some (.finite q)

/-! ## The script -/

/-- What the page keeps between two loads. -/
structure Session where
  availableTosDocs : List Str
  dynamicCategories : List Str

def Session.initial : Session :=
  ⟨[], ["Laptop", "Monitor", "Phone", "CPU", "GPU", "Television", "Audio", "Accessories", "Tablet",
    "Console", "Camera", "Smartwatch", "Printer", "Router"]⟩

/-- The answer of `/admin/api/data`. -/
structure Loaded where
  columns : List Str
  data : List (Dict JsValue)

def Loaded.row (rt : Runtime) (row : Dict Value) : Option (Dict JsValue) :=
  row.mapM fun kv => (JsValue.ofValue rt kv.2).map fun v => (kv.1, v)

/-- The answer as the page parses it, `none` where the request fails. -/
def Loaded.ofAnswer (rt : Runtime) : Except Exn PageData → Option Loaded
  | .ok page => (page.data.mapM (Loaded.row rt)).map fun data => ⟨page.columns, data⟩
  | .error _ => none

def docId (row : Dict JsValue) : Option Str :=
  match row.get? "doc_id" with
  | some (.string id) => if id.isEmpty then none else some id
  | _ => none

def fetchTosDocs (s : Session) : Option Loaded → Session
  | some result => { s with availableTosDocs := result.data.filterMap docId }
  | none => s

/-- `dynamicCategories.add(row.category)`, of a row that has one. -/
def addCategory (categories : List Str) (row : Dict JsValue) : List Str :=
  match row.get? "category" with
  | some (.string category) =>
    if category.isEmpty ∨ category ∈ categories then categories else categories ++ [category]
  | _ => categories

/-- The code units by which strings are sorted. -/
def codeUnits (s : Str) : List ℕ :=
  s.flatMap fun c =>
    let n := c.toNat
    if n < 0x10000 then [n] else [0xD800 + (n - 0x10000) / 1024, 0xDC00 + (n - 0x10000) % 1024]

def sorted (strings : List Str) : List Str :=
  strings.mergeSort fun a b => decide (codeUnits a ≤ codeUnits b)

def getSelectHTML (col : Str) (options : List Str) (selectedVal : Str) : Control :=
  .select col (options.map fun opt => ⟨opt, opt == selectedVal, opt⟩)

/-- The options of a column that is chosen from some. -/
def selectOptions (s : Session) (t : AdminTable) (col : Str) : Option (List Str) :=
  if t = .companyFaqs ∧ col = "category" then
    some ["orders_delivery", "returns_refunds", "payments", "product_warranty", "account_security",
      "customer_support"]
  else if t = .companyFaqs ∧ col = "related_tos" then some s.availableTosDocs
  else if t = .companyTos ∧ col = "category" then
    some ["returns", "refunds", "shipping", "warranty", "privacy", "account", "loyalty", "support"]
  else if t = .productCatalog ∧ col = "category" then some (sorted s.dynamicCategories)
  else if t = .productCatalog ∧ col = "price_tier" then
    some ["flagship", "premium", "mid-range", "budget"]
  else if t = .productCatalog ∧ col = "in_stock" then some ["1", "0"]
  else none

section
variable {rt : Runtime} (js : JavaScript rt)

/-- The text of a cell. Quotes are escaped, but not those of an array. -/
def cellText : Option JsValue → Str
  | none | some .null => []
  | some (.array texts) => join ", " texts
  | some (.object entries) => escapeQuotes (stringify entries)
  | some (.number q) => escapeQuotes (js.numberText q)
  | some (.string s) => escapeQuotes s

def getInputElement (s : Session) (t : AdminTable) (col : Str) (val : Option JsValue) : Control :=
  if col = "faq_id" ∨ col = "doc_id" ∨ col = "product_id" then
    .input .text col (cellText js val)
  else if col = "effective_date" ∨ col = "last_updated" then
    .input .date col (cellText js val)
  else if col ∈ (["price_inr", "stock_qty", "warranty_months", "rating"] : List Str) then
    .input .number col (cellText js val)
  else match selectOptions s t col with
    | some options => getSelectHTML col options (cellText js val)
    | none => .input .text col (cellText js val)

/-- The page after a load: its table, what it keeps, and the rows it shows. -/
structure Page where
  table : AdminTable
  session : Session
  rows : List (List Control)

/-- What a load of the table makes of what the page keeps. -/
def Session.load (s : Session) (t : AdminTable) (docs : Option Loaded) (result : Loaded) : Session :=
  let s := fetchTosDocs s docs
  if t = .productCatalog ∧ result.columns ≠ [] then
    { s with dynamicCategories := result.data.foldl addCategory s.dynamicCategories }
  else s

/-- `loadData`, from the answers for the policies and for the table. -/
def loadData (s : Session) (t : AdminTable) (docs : Option Loaded) (result : Loaded) : Page :=
  let session := s.load t docs result
  if result.columns = [] then ⟨t, session, []⟩
  else ⟨t, session, result.data.map fun row =>
    result.columns.map fun col => getInputElement js session t col (row.get? col)⟩

end

/-- The white space that `trim` removes. -/
def isTrimmed (c : Char) : Bool :=
  let n := c.toNat
  (9 ≤ n && n ≤ 13) || n == 32 || n == 0xA0 || n == 0x1680 || (0x2000 ≤ n && n ≤ 0x200A) ||
  n == 0x2028 || n == 0x2029 || n == 0x202F || n == 0x205F || n == 0x3000 || n == 0xFEFF

/-- `val.trim() === ""`. -/
def isBlank (val : Str) : Bool := val.all isTrimmed

/-- The columns that may be left empty. -/
def mayBeEmpty (col : Str) : Bool :=
  col ∈ (["faq_id", "doc_id", "product_id", "related_tos", "page_content"] : List Str)

def rowData (inputs : List (Str × Str)) : Dict Value :=
  inputs.foldl (fun row inp => row.set inp.1 (.str inp.2)) []

/-- `saveData` of the page: the request it sends, `none` where it reports that
values are missing. -/
def Page.saveData (b : Browser) (p : Page) : Option SaveData :=
  let rows := p.rows.map fun controls => controls.flatMap (Control.found b)
  if rows.all fun inputs => inputs.all fun inp => mayBeEmpty inp.1 || !isBlank inp.2 then
    some ⟨p.table.name, rows.map rowData⟩
  else none

end TechMart.Admin
