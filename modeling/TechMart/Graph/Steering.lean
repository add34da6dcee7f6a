import TechMart.Graph.Degradation
import TechMart.Graph.Support
import TechMart.Sql.Search

/-!
# What a steered filter reads

The filter LLM's clause is spliced into the vector query if it is not empty and
does not begin with `SELECT`. A clause may close the query's own condition and
go on with a `UNION ALL`: whatever the question and the catalog, one such clause
puts a customer's phone number into the text. `catalog_never_isolated`.
-/

namespace TechMart.Graph

open Python Sql

/-! ## The statement -/

/-- The LLM replies with this, whatever it is asked. -/
def Services.steered (svc : Services) (reply : Str) : Services :=
  { svc with invoke := fun _ _ => .ok reply }

/-- Whatever the LLM replies, the answer depends only on the catalog. -/
def CatalogIsolated (rt : Runtime) (engine : Engine) (svc : Services) (query : Str)
    (catalog : Table) : Prop :=
  ∀ (reply : Str) (db₁ db₂ : Database), db₁ "product_catalog" = some catalog →
    db₂ "product_catalog" = some catalog →
      getCatalogContext rt ((svc.steered reply).reading engine db₁) query =
        getCatalogContext rt ((svc.steered reply).reading engine db₂) query

/-- What Python writes for a zero, an empty text and the floats of a vector. -/
structure WritesNumerals (rt : Runtime) (vector : List ℚ) : Prop where
  zero : rt.floatRepr (.finite 0) = "0.0"
  empty : rt.strRepr [] = "''"
  numeral : ∀ q ∈ vector, Search.isNumeral (rt.floatRepr (.finite q)) = true

def vectorValue (vector : List ℚ) : Value := .list (vector.map fun q => .float (.finite q))

/-- The services are up as far as the search. -/
structure SearchReady (svc : Services) (query : Str) (vector : List ℚ) : Prop where
  client : svc.getClient = .ok ()
  llm : svc.chatGroq = .ok ()
  categories : ∃ catStr, validCategories svc = .ok catStr
  encoded : svc.encode query = .ok (vectorValue vector)
  nonempty : vector ≠ []

/-! ## A clause that goes on with a union -/

def unionStart : Str := "1 = 0 UNION ALL SELECT "

def phoneColumns : Str := "phone, phone, phone, 0.0, 0, 0, 0.0, 0, phone, "

def unionEnd : Str := "map('', ''), 0.0 AS dist FROM customers"

def leakingClause : Str := unionStart ++ (phoneColumns ++ unionEnd)

def filterReply (clause : Str) : Str := Json.objectField "where_clause" clause

/-- The engine answers the search with this clause in it as it is meant. -/
def AnswersSearch (rt : Runtime) (engine : Engine) (vector : List ℚ) : Prop :=
  ∀ db rows,
    Search.run storeSchema db (vectorSql rt 12 (vectorValue vector) leakingClause "5") = some rows →
      ∃ columns, engine db (vectorSql rt 12 (vectorValue vector) leakingClause "5") =
        .ok ⟨columns, rows⟩

section
variable {rt : Runtime}

theorem whereClause_filterReply (svc : Services) {clause : Str} (catStr query : Str)
    (hstrip : strip clause = clause) (hne : clause.isEmpty = false)
    (hselect : startswith (rt.upperStr clause) "SELECT" = false) :
    whereClause rt (svc.steered (filterReply clause)) catStr query = clause := by
  have hload : Reply.load rt (filterReply clause) = .ok (.dict [("where_clause", .str clause)]) := by
    rw [Reply.load, filterReply, cleanReply_objectField, Json.loads_field]
  have hfilter : filterOutput rt (.dict [("where_clause", .str clause)]) = .ok clause := rfl
  simp only [whereClause, Services.steered, bind, Except.bind, hload, hfilter, hstrip, hne, hselect,
    Bool.or_false, Bool.false_eq_true, if_false]

theorem leakingClause_passes (svc : Services) (catStr query : Str) :
    whereClause rt (svc.steered (filterReply leakingClause)) catStr query = leakingClause := by
  apply whereClause_filterReply
  · have hshape : leakingClause = '1' :: leakingClause.tail.dropLast ++ ['s'] := by decide
    rw [hshape]
    exact strip_of_ends rfl rfl
  · rfl
  · have hshape : leakingClause = ("1" : Str) ++ leakingClause.tail := rfl
    have hone : rt.upperStr ("1" : Str) = "1" := rt.upperStr_ascii (by simp)
    rw [hshape, Unicode.upperStr_append, hone]
    rfl

/-! ## The text of the query, piece by piece -/

def newLine (n : ℕ) : Str := "\n" ++ List.replicate n ' '

def firstColumns : Str := "SELECT name, brand, category, price_inr, stock_qty, warranty_months, "

def lastColumns : Str := "rating, in_stock, price_tier, specs, "

def distanceStart : Str := "cosineDistance(embedding, "

def distanceEnd : Str := ") as dist "

def fromCatalog : Str := "FROM product_catalog "

def whereStart : Str := "WHERE "

def ranking : Str := "ORDER BY dist ASC "

def limitFive : Str := ("LIMIT " : Str) ++ "5"

theorem append_pieces (l₁ a b l₂ c v d l₃ f l₄ w clause sp l₅ r l₆ t l₇ : Str) :
    l₁ ++ (a ++ b) ++ (l₂ ++ (c ++ v ++ d)) ++ (l₃ ++ f) ++ (l₄ ++ (w ++ clause ++ sp)) ++
        (l₅ ++ r) ++ (l₆ ++ t) ++ l₇ =
      l₁ ++ (a ++ (b ++ (l₂ ++ (c ++ (v ++ (d ++ (l₃ ++ (f ++ (l₄ ++ (w ++ (clause ++ (sp ++ (l₅ ++
        (r ++ (l₆ ++ (t ++ l₇)))))))))))))))) := by
  simp only [List.append_assoc]

theorem vectorSql_eq (rt : Runtime) (vector : Value) (clause : Str) :
    vectorSql rt 12 vector clause "5" =
      newLine 12 ++ (firstColumns ++ (lastColumns ++ (newLine 19 ++ (distanceStart ++
        (rt.str vector ++ (distanceEnd ++ (newLine 12 ++ (fromCatalog ++ (newLine 12 ++ (whereStart ++
          (clause ++ ((" " : Str) ++ (newLine 12 ++ (ranking ++ (newLine 12 ++ (limitFive ++
            (newLine 8 ++ []))))))))))))))))) :=
  append_pieces _ _ _ _ _ _ _ _ _ _ _ _ _ _ _ _ _ _

theorem str_vectorValue (rt : Runtime) (vector : List ℚ) :
    rt.str (vectorValue vector) =
      '[' :: (join ", " (vector.map fun q => rt.floatRepr (.finite q)) ++ [']']) := by
  have hlist : rt.reprList (vector.map fun q => .float (.finite q)) =
      vector.map fun q => rt.floatRepr (.finite q) := by
    induction vector with
    | nil => rfl
    | cons q vector ih => exact congrArg (rt.floatRepr (.finite q) :: ·) ih
  show ("[" : Str) ++ join ", " (rt.reprList _) ++ "]" = _
  rw [hlist]
  rfl

open Search (Token)

/-- The tokens of names with a comma after each. -/
def nameTokens : List Str → List Token := List.flatMap fun name => [.word name, .symbol ',']

def selectTokens : List Token :=
  .word "SELECT" :: nameTokens ["name", "brand", "category", "price_inr", "stock_qty",
    "warranty_months", "rating", "in_stock", "price_tier", "specs"] ++
  [.word "cosineDistance", .symbol '(', .word "embedding", .symbol ',']

def clauseTokens : List Token :=
  [.integer 1, .symbol '=', .integer 0, .word "UNION", .word "ALL", .word "SELECT"] ++
  nameTokens ["phone", "phone", "phone"] ++
  [.decimal 0, .symbol ',', .integer 0, .symbol ',', .integer 0, .symbol ',', .decimal 0,
    .symbol ',', .integer 0, .symbol ','] ++ nameTokens ["phone"] ++
  [.word "map", .symbol '(', .string [], .symbol ',', .string [], .symbol ')', .symbol ',',
    .decimal 0, .word "AS", .word "dist", .word "FROM", .word "customers"]

def tailTokens : List Token :=
  [.symbol ')', .word "as", .word "dist", .word "FROM", .word "product_catalog", .word "WHERE"] ++
  clauseTokens ++
  [.word "ORDER", .word "BY", .word "dist", .word "ASC", .word "LIMIT", .integer 5]

theorem spells_newLine (k : ℕ) : Search.Spells (newLine k) [] (k + 1) :=
  Search.spells_newline.append (Search.spells_blanks k)

/-- Names with a comma and a blank after each. -/
theorem spells_names (names : List Str) (h : names.all Search.isWord = true) :
    Search.Spells (names.flatMap fun name => name ++ ", ") (nameTokens names) (3 * names.length) := by
  have hlist := Search.spells_list (names.map fun name => (name, Token.word name)) (by
    intro i hi
    obtain ⟨name, hname, rfl⟩ := List.mem_map.mp hi
    exact Search.reads_word (List.all_eq_true.mp h name hname))
  rw [List.flatMap_map, List.flatMap_map, List.length_map] at hlist
  exact hlist

/-- A word and the blank after it. -/
theorem spells_word {w : Str} (h : Search.isWord w = true) :
    Search.Spells (w ++ [' ']) [.word w] 2 := (Search.reads_word h).blank

theorem reads_integer {d : Char} (h : d.isDigit = true) :
    Search.Reads [d] (.integer (natOfDigits [d])) := by
  have hchar : [d].all Search.isNumberChar = true := by
    simp [Search.isNumberChar, Parse.isWordChar, Char.isAlphanum, h]
  have hnumber : Search.numberToken [d] = some (.integer (natOfDigits [d])) := by
    simp [Search.numberToken, h]
  exact Search.reads_number h hchar hnumber

theorem reads_zero : Search.Reads "0.0" (.decimal 0) := Search.reads_number rfl rfl rfl

theorem lex_firstColumns (n : ℕ) (s : Str) :
    Search.lex (n + 33) [] (newLine 12 ++ (firstColumns ++ s)) =
      Search.lex n (selectTokens.take 13).reverse s := by
  have htext : firstColumns = (("SELECT" : Str) ++ [' ']) ++ (["name", "brand", "category",
      "price_inr", "stock_qty", "warranty_months"] : List Str).flatMap
        (fun name => name ++ (", " : Str)) := by
    decide
  have hspells := ((spells_newLine 12).append (spells_word (w := "SELECT") rfl)).append
    (spells_names ["name", "brand", "category", "price_inr", "stock_qty",
      "warranty_months"] rfl)
  rw [← List.append_assoc, htext, ← List.append_assoc]
  exact hspells n [] s

theorem lex_lastColumns (n : ℕ) (s : Str) :
    Search.lex (n + 12) (selectTokens.take 13).reverse (lastColumns ++ s) =
      Search.lex n (selectTokens.take 21).reverse s := by
  have htext : lastColumns = (["rating", "in_stock", "price_tier", "specs"] : List Str).flatMap
      (fun name => name ++ (", " : Str)) := by decide
  have hspells := spells_names ["rating", "in_stock", "price_tier", "specs"] rfl
  rw [htext]
  exact hspells n _ s

theorem lex_distanceStart (n : ℕ) (s : Str) :
    Search.lex (n + 25) (selectTokens.take 21).reverse (newLine 19 ++ (distanceStart ++ s)) =
      Search.lex n selectTokens.reverse s := by
  have htext : distanceStart = (("cosineDistance" : Str) ++ ['(']) ++ (["embedding"] : List Str).flatMap
      (fun name => name ++ (", " : Str)) := by decide
  have hcall := (Search.reads_word (w := "cosineDistance") rfl).symbol (c := '(') (by simp)
  have hspells := ((spells_newLine 19).append hcall).append
    (spells_names ["embedding"] rfl)
  rw [← List.append_assoc, htext, ← List.append_assoc]
  exact hspells n _ s

theorem lex_distanceEnd (n : ℕ) (ts : List Token) (s : Str) :
    Search.lex (n + 38) ts
        (distanceEnd ++ (newLine 12 ++ (fromCatalog ++ (newLine 12 ++ (whereStart ++ s))))) =
      Search.lex n ((tailTokens.take 6).reverse ++ ts) s := by
  have hend : Search.Spells distanceEnd [.symbol ')', .word "as", .word "dist"] 6 :=
    (((Search.spells_symbol (c := ')') (by simp)).append (Search.spells_blanks 1)).append
      (spells_word (w := "as") rfl)).append (spells_word (w := "dist") rfl)
  have hfrom : Search.Spells fromCatalog [.word "FROM", .word "product_catalog"] 4 :=
    (spells_word (w := "FROM") rfl).append (spells_word (w := "product_catalog") rfl)
  have hwhere : Search.Spells whereStart [.word "WHERE"] 2 := spells_word (w := "WHERE") rfl
  have hspells := (((hend.append (spells_newLine 12)).append hfrom).append
    (spells_newLine 12)).append hwhere
  simp only [← List.append_assoc]
  exact hspells n ts s

theorem lex_unionStart (n : ℕ) (ts : List Token) (s : Str) :
    Search.lex (n + 12) ts (unionStart ++ s) =
      Search.lex n ((clauseTokens.take 6).reverse ++ ts) s := by
  have hcondition : Search.Spells "1 = 0 " [.integer 1, .symbol '=', .integer 0] 6 :=
    (((reads_integer (d := '1') rfl).blank.append (Search.spells_symbol (c := '=') (by simp))).append
      (Search.spells_blanks 1)).append (reads_integer (d := '0') rfl).blank
  have hunion : Search.Spells "UNION ALL SELECT " [.word "UNION", .word "ALL", .word "SELECT"] 6 :=
    ((spells_word (w := "UNION") rfl).append (spells_word (w := "ALL") rfl)).append
      (spells_word (w := "SELECT") rfl)
  exact (hcondition.append hunion) n ts s

theorem lex_phoneColumns (n : ℕ) (ts : List Token) (s : Str) :
    Search.lex (n + 27) ts (phoneColumns ++ s) =
      Search.lex n (((clauseTokens.drop 6).take 18).reverse ++ ts) s := by
  have hzero := reads_integer (d := '0') rfl
  have hnumbers := Search.spells_list [("0.0", .decimal 0), ("0", .integer 0),
      ("0", .integer 0), ("0.0", .decimal 0), ("0", .integer 0)] (by
    simp only [List.forall_mem_cons, List.not_mem_nil, false_imp_iff, implies_true, and_true]
    exact ⟨reads_zero, hzero, hzero, reads_zero, hzero⟩)
  have hspells := ((spells_names ["phone", "phone", "phone"] rfl).append hnumbers).append
    (spells_names ["phone"] rfl)
  exact hspells n ts s

theorem lex_unionEnd (n : ℕ) (ts : List Token) (s : Str) :
    Search.lex (n + 19) ts (unionEnd ++ ((" " : Str) ++ s)) =
      Search.lex n ((clauseTokens.drop 24).reverse ++ ts) s := by
  have hmap : Search.Spells "map('', ''), " [.word "map", .symbol '(', .string [], .symbol ',',
      .string [], .symbol ')', .symbol ','] 9 :=
    (((((Search.reads_word (w := "map") rfl).symbol (c := '(') (by simp)).append
      (Search.spells_empty (c := ',') (by simp))).append (Search.spells_blanks 1)).append
        (Search.spells_empty (c := ')') (by simp))).append
          ((Search.spells_symbol (c := ',') (by simp)).append (Search.spells_blanks 1))
  have hdist : Search.Spells "0.0 AS dist FROM customers " [.decimal 0, .word "AS", .word "dist",
      .word "FROM", .word "customers"] 10 :=
    (((reads_zero.blank.append (spells_word (w := "AS") rfl)).append
      (spells_word (w := "dist") rfl)).append (spells_word (w := "FROM") rfl)).append
        (spells_word (w := "customers") rfl)
  have htext : unionEnd ++ (" " : Str) = ("map('', ''), " : Str) ++ "0.0 AS dist FROM customers " := by
    decide
  rw [← List.append_assoc, htext]
  exact (hmap.append hdist) n ts s

theorem lex_ranking (n : ℕ) (ts : List Token) :
    Search.lex (n + 47) ts
        (newLine 12 ++ (ranking ++ (newLine 12 ++ (limitFive ++ (newLine 8 ++ []))))) =
      some ((tailTokens.drop 42).reverse ++ ts).reverse := by
  have hranking : Search.Spells ranking [.word "ORDER", .word "BY", .word "dist", .word "ASC"] 8 :=
    (((spells_word (w := "ORDER") rfl).append (spells_word (w := "BY") rfl)).append
      (spells_word (w := "dist") rfl)).append (spells_word (w := "ASC") rfl)
  have hlimit : Search.Spells "LIMIT " [.word "LIMIT"] 2 := spells_word (w := "LIMIT") rfl
  have hspells := (((spells_newLine 12).append hranking).append (spells_newLine 12)).append hlimit
  have hfive (ts : List Token) : Search.lex (n + 11) ts (("5" : Str) ++ newLine 8 ++ []) =
      Search.lex (n + 1) (.integer 5 :: ts) [] := by
    have hnumber := reads_integer (d := '5') rfl (n + 10) ts '\n' (List.replicate 8 ' ') rfl
    have hline := spells_newLine 8 (n + 1) (.integer 5 :: ts) []
    rw [List.append_nil] at hline ⊢
    exact hnumber.trans hline
  have htext : newLine 12 ++ (ranking ++ (newLine 12 ++ (limitFive ++ (newLine 8 ++ [])))) =
      newLine 12 ++ ranking ++ newLine 12 ++ ("LIMIT " : Str) ++ (("5" : Str) ++ newLine 8 ++ []) := by
    simp only [limitFive, List.append_assoc]
  rw [htext, hspells (n + 11) ts, hfive, Search.lex]
  rfl

/-- A vector of floats is one token. -/
theorem lex_vector {vector : List ℚ} (hwrites : WritesNumerals rt vector) (hne : vector ≠ [])
    (n : ℕ) (ts : List Token) (s : Str) :
    Search.lex (n + 1) ts (rt.str (vectorValue vector) ++ s) = Search.lex n (.array :: ts) s := by
  let numerals := vector.map fun q => rt.floatRepr (.finite q)
  have hnumerals : ∀ t ∈ numerals, Search.isNumeral t = true := by
    intro t ht
    obtain ⟨q, hq, rfl⟩ := List.mem_map.mp ht
    exact hwrites.numeral q hq
  have htext : rt.str (vectorValue vector) ++ s = '[' :: (join ", " numerals ++ ']' :: s) := by
    rw [str_vectorValue, List.cons_append, List.append_assoc]
    rfl
  have hlength := Search.length_le_join numerals
  have hread := Search.arrayLiteral_join (by simpa [numerals] using hne) hnumerals s
    (show numerals.length ≤ (join ", " numerals ++ ']' :: s).length + 1 by
      rw [List.length_append]
      omega)
  have hstep : Search.lex (n + 1) ts ('[' :: (join ", " numerals ++ ']' :: s)) =
      (Search.arrayLiteral ((join ", " numerals ++ ']' :: s).length + 1)
        (join ", " numerals ++ ']' :: s)).bind fun rest => Search.lex n (.array :: ts) rest := rfl
  rw [htext, hstep, hread, Option.bind_some]

/-- The query's own select, which finds nothing any more. -/
def catalogSelect : Search.Select where
  items := (["name", "brand", "category", "price_inr", "stock_qty", "warranty_months", "rating",
    "in_stock", "price_tier", "specs"].map fun name => ⟨.column name, none⟩) ++
    [⟨.cosineDistance "embedding", some "dist"⟩]
  table := "product_catalog"
  condition := some (.literal (.int 1), .literal (.int 0))

/-- The select of the clause. -/
def customerSelect : Search.Select where
  items := [⟨.column "phone", none⟩, ⟨.column "phone", none⟩, ⟨.column "phone", none⟩,
    ⟨.literal (.float (.finite 0)), none⟩, ⟨.literal (.int 0), none⟩, ⟨.literal (.int 0), none⟩,
    ⟨.literal (.float (.finite 0)), none⟩, ⟨.literal (.int 0), none⟩, ⟨.column "phone", none⟩,
    ⟨.literal (.dict [([], .str [])]), none⟩, ⟨.literal (.float (.finite 0)), some "dist"⟩]
  table := "customers"
  condition := none

def leakingSearch : Search.Statement := ⟨[catalogSelect, customerSelect], "dist", 5⟩

theorem parse_leaking {vector : List ℚ} (hwrites : WritesNumerals rt vector) (hne : vector ≠ []) :
    Search.parse (vectorSql rt 12 (vectorValue vector) leakingClause "5") =
      some leakingSearch := by
  let sql := vectorSql rt 12 (vectorValue vector) leakingClause "5"
  have hlex (n : ℕ) : Search.lex (n + 47 + 19 + 27 + 12 + 38 + 1 + 25 + 12 + 33) [] sql =
      some (selectTokens ++ .array :: tailTokens) := by
    simp only [sql, vectorSql_eq, leakingClause, List.append_assoc]
    rw [lex_firstColumns, lex_lastColumns, lex_distanceStart, lex_vector hwrites hne,
      lex_distanceEnd, lex_unionStart, lex_phoneColumns, lex_unionEnd, lex_ranking]
    rfl
  have hfuel : ∃ n, sql.length + 1 = n + 47 + 19 + 27 + 12 + 38 + 1 + 25 + 12 + 33 := by
    have hfirst : firstColumns.length = 69 := rfl
    have hlast : lastColumns.length = 37 := rfl
    have hunion : unionStart.length = 23 := rfl
    have hphones : phoneColumns.length = 47 := rfl
    have hend : unionEnd.length = 39 := rfl
    have hlength : 214 ≤ sql.length := by
      simp only [sql, vectorSql_eq, leakingClause, List.length_append, hfirst, hlast, hunion,
        hphones, hend]
      omega
    exact ⟨sql.length + 1 - 214, by omega⟩
  obtain ⟨n, hn⟩ := hfuel
  show (Search.lex (sql.length + 1) [] sql).bind (fun ts => Search.statement (ts.length + 1) ts) = _
  rw [hn, hlex, Option.bind_some]
  rfl

/-! ## A customer in the text -/

/-- A shop with this catalog and one customer. -/
def shopOf (catalog : Table) (phone : Str) : Database := fun name =>
  if name = ("product_catalog" : Str) then some catalog
  else if name = ("customers" : Str) then some ⟨columnsOf "customers", [customerOf "CUST-0001" phone]⟩
  else none

theorem shopOf_catalog (catalog : Table) (phone : Str) :
    shopOf catalog phone "product_catalog" = some catalog := rfl

def leakedRow (phone : Str) : Row :=
  [.str phone, .str phone, .str phone, .float (.finite 0), .int 0, .int 0, .float (.finite 0),
    .int 0, .str phone, .dict [([], .str [])], .float (.finite 0)]

/-- A product's line, of its parts. -/
def productText (name brand category price stock warranty rating tier specs : Str) : Str :=
  ("Product: " : Str) ++ name ++ " (" ++ brand ++ " " ++ category ++ "), Price: " ++ price ++
    ", Stock: " ++ stock ++ ", Warranty: " ++ warranty ++ "mo, Rating: " ++ rating ++ ", Tier: " ++
    tier ++ ", Specs: " ++ specs

def leakedLine (phone : Str) : Str :=
  productText phone phone phone "0.0" "0" "0" "0.0" phone "\x7b'': ''\x7d"

theorem eval_catalogSelect (catalog : Table) (phone : Str) :
    Search.Select.eval (shopOf catalog phone) catalogSelect = some [] := by
  have hrows (rows : List Row) : catalogSelect.rows catalog rows = some [] := by
    induction rows with
    | nil => rfl
    | cons row rows ih =>
      have hkeeps : catalogSelect.keeps catalog row = some false := rfl
      rw [Search.Select.rows, hkeeps, ih]
      rfl
  exact hrows catalog.rows

theorem eval_leakingSearch (catalog : Table) (phone : Str) :
    leakingSearch.eval storeSchema (shopOf catalog phone) = some [leakedRow phone] := by
  have htyped : leakingSearch.typed storeSchema = true := by decide
  have hcustomers : Search.Select.eval (shopOf catalog phone) customerSelect =
      some [leakedRow phone] := rfl
  have hparts : leakingSearch.parts.mapM (Search.Select.eval (shopOf catalog phone)) =
      some [[], [leakedRow phone]] := by
    show [catalogSelect, customerSelect].mapM (Search.Select.eval (shopOf catalog phone)) = _
    rw [List.mapM_cons, List.mapM_cons, List.mapM_nil, eval_catalogSelect, hcustomers]
    rfl
  rw [Search.Statement.eval, hparts, Option.bind_eq_bind, Option.bind_some, htyped]
  rfl

theorem productLine_eq (r : Cells 11) :
    productLine rt r = productText (rt.str (r 0)) (rt.str (r 1)) (rt.str (r 2)) (rt.str (r 3))
      (rt.str (r 4)) (rt.str (r 5)) (rt.str (r 6)) (rt.str (r 8)) (rt.str (r 9)) := rfl

/-- The customer's row reads as a product. -/
theorem productLine_leaked {vector : List ℚ} (hwrites : WritesNumerals rt vector) (phone : Str) :
    productLine rt (fun i => (leakedRow phone).getD i .none) = leakedLine phone := by
  have hreal : rt.str (.float (.finite 0)) = "0.0" := hwrites.zero
  have hwhole : rt.str (.int 0) = "0" := rfl
  have hdict : rt.str (.dict [([], .str [])]) = "\x7b'': ''\x7d" := by
    show ['\x7b'] ++ join ", " [rt.strRepr [] ++ ": " ++ rt.strRepr []] ++ ['\x7d'] = _
    rw [hwrites.empty]
    rfl
  have hparts : productLine rt (fun i => (leakedRow phone).getD i .none) =
      productText phone phone phone (rt.str (.float (.finite 0))) (rt.str (.int 0))
        (rt.str (.int 0)) (rt.str (.float (.finite 0))) phone (rt.str (.dict [([], .str [])])) :=
    productLine_eq _
  rw [hparts, hreal, hwhole, hdict, leakedLine]

theorem whereClause_reading (svc : Services) (engine : Engine) (db : Database)
    (catStr query : Str) :
    whereClause rt (svc.reading engine db) catStr query = whereClause rt svc catStr query := rfl

/-- The text of the search over a shop with one customer. -/
theorem catalogContext_leaked {engine : Engine} {vector : List ℚ}
    (hengine : AnswersSearch rt engine vector) (hwrites : WritesNumerals rt vector)
    {svc : Services} {query : Str} (hready : SearchReady svc query vector) (catalog : Table)
    (phone : Str) :
    getCatalogContext rt ((svc.steered (filterReply leakingClause)).reading engine
      (shopOf catalog phone)) query = .ok (renderRows [leakedLine phone]) := by
  obtain ⟨catStr, hcategories⟩ := hready.categories
  let steered := (svc.steered (filterReply leakingClause)).reading engine (shopOf catalog phone)
  have hclause : whereClause rt steered catStr query = leakingClause :=
    (whereClause_reading _ engine _ catStr query).trans (leakingClause_passes svc catStr query)
  have hrun : Search.run storeSchema (shopOf catalog phone)
      (vectorSql rt 12 (vectorValue vector) leakingClause "5") = some [leakedRow phone] := by
    rw [Search.run, parse_leaking hwrites hready.nonempty]
    exact eval_leakingSearch catalog phone
  obtain ⟨columns, hanswer⟩ := hengine _ _ hrun
  have hfiltered : filteredRows rt steered (vectorValue vector) leakingClause =
      .ok [fun i => (leakedRow phone).getD i .none] := by
    show (engine (shopOf catalog phone) _).map (cellsOf 11) = _
    rw [hanswer]
    rfl
  have hsearch := searchRows_of_found hfiltered (List.cons_ne_nil _ _)
  have hencoded : steered.encode query = .ok (vectorValue vector) := hready.encoded
  have htext : catalogText rt steered query leakingClause = renderRows [leakedLine phone] := by
    rw [catalogText_of_search hencoded hsearch, List.map_singleton, productLine_leaked hwrites]
  have hclient : steered.getClient = .ok () := hready.client
  have hllm : steered.chatGroq = .ok () := hready.llm
  have hcategories : validCategories steered = .ok catStr := hcategories
  show getCatalogContext rt steered query = _
  rw [getCatalogContext, hclient, hllm, hcategories]
  exact congrArg Except.ok ((congrArg _ hclause).trans htext)

end

/-- **The catalog search does not stay in the catalog.** Whatever is asked,
whatever vector it has and whatever is in the catalog, there are a reply of the
filter LLM and two databases with that catalog whose texts differ. -/
theorem catalog_never_isolated (rt : Runtime) (engine : Engine) (vector : List ℚ)
    (hengine : AnswersSearch rt engine vector) (hwrites : WritesNumerals rt vector)
    (svc : Services) (query : Str) (hready : SearchReady svc query vector) (catalog : Table) :
    ¬ CatalogIsolated rt engine svc query catalog := by
  intro hisolated
  have hsame := hisolated (filterReply leakingClause) (shopOf catalog "98450")
    (shopOf catalog "98451") (shopOf_catalog _ _) (shopOf_catalog _ _)
  rw [catalogContext_leaked hengine hwrites hready, catalogContext_leaked hengine hwrites hready]
    at hsame
  have htexts := Except.ok.inj hsame
  revert htexts
  decide +kernel

/-! ## A shop with one product -/

def searchEngine : Engine := fun db sql =>
  match Search.run storeSchema db sql with
  | some rows => .ok ⟨[], rows⟩
  | none => .error ⟨"Syntax error"⟩

theorem searchEngine_answers (rt : Runtime) (vector : List ℚ) :
    AnswersSearch rt searchEngine vector := by
  intro db rows h
  refine ⟨[], ?_⟩
  rw [searchEngine, h]

def phoneCatalog : Table :=
  ⟨columnsOf "product_catalog", [[.str "TK-PHN-001", .str "A phone", .str "Nova", .str "Acme",
    .str "Phone", .float (.finite 9999), .int 4, .int 12, .float (.finite 4), .int 1, .str "Budget",
    .dict [("ram_gb", .str "8")], .list [.float (.finite 1), .float (.finite 0)]]]⟩

def searching : Services where
  getClient := .ok ()
  chatGroq := .ok ()
  encode _ := .ok (vectorValue [1, -2])
  invoke _ _ := .error ⟨"timed out"⟩
  select _ _ _ _ := .ok []
  query _ _ := .error ⟨"no statement"⟩

theorem ascii_writes : WritesNumerals .ascii [1, -2] where
  zero := rfl
  empty := rfl
  numeral := by
    intro q hq
    rcases List.mem_cons.mp hq with rfl | hq
    · decide
    · rw [List.mem_singleton.mp hq]
      decide

theorem searching_ready (query : Str) : SearchReady searching query [1, -2] where
  client := rfl
  llm := rfl
  categories := ⟨_, rfl⟩
  encoded := rfl
  nonempty := List.cons_ne_nil _ _

theorem catalog_never_isolated_onePhone :
    ¬ CatalogIsolated .ascii searchEngine searching "A phone?" phoneCatalog :=
  catalog_never_isolated .ascii searchEngine [1, -2] (searchEngine_answers _ _) ascii_writes
    searching "A phone?" (searching_ready "A phone?") phoneCatalog

/-- One reply, and one catalog: the text is the customer's phone number. -/
theorem phone_number_in_catalog_text :
    shopOf phoneCatalog "98450" "product_catalog" = shopOf phoneCatalog "98451" "product_catalog" ∧
    getCatalogContext .ascii ((searching.steered (filterReply leakingClause)).reading searchEngine
      (shopOf phoneCatalog "98450")) "A phone?" = .ok (leakedLine "98450") ∧
    getCatalogContext .ascii ((searching.steered (filterReply leakingClause)).reading searchEngine
      (shopOf phoneCatalog "98451")) "A phone?" = .ok (leakedLine "98451") ∧
    leakedLine "98450" ≠ leakedLine "98451" := by
  have hshown (phone : Str) (h : renderRows [leakedLine phone] = leakedLine phone) :
      getCatalogContext .ascii ((searching.steered (filterReply leakingClause)).reading searchEngine
        (shopOf phoneCatalog phone)) "A phone?" = .ok (leakedLine phone) := by
    rw [catalogContext_leaked (searchEngine_answers _ _) ascii_writes (searching_ready _), h]
  have hcatalog := (shopOf_catalog phoneCatalog "98450").trans
    (shopOf_catalog phoneCatalog "98451").symm
  refine ⟨hcatalog, hshown _ ?_, hshown _ ?_, ?_⟩
  all_goals decide +kernel

end TechMart.Graph
