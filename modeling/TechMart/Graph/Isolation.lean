import TechMart.Graph.Replies
import TechMart.Sql.Parse

/-!
# Whose orders an answer is made of

The checks of `get_order_context` look at the text of a statement, not at what
it means: it has to start with `SELECT`, to have no semicolon and to have the
customer id somewhere. Every customer id without a semicolon has a statement
that passes them and reads the orders of everyone: `orders_isolated_iff`.
-/

namespace TechMart.Graph

open Python Sql Sql.Parse

/-! ## The database -/

/-- The kinds of the columns that have one of these. -/
def storeSchema : Schema :=
  [("order_history", [("order_id", .text), ("customer_id", .text), ("order_date", .text),
      ("status", .text), ("payment_method", .text), ("delivery_address", .text), ("items", .text),
      ("subtotal_inr", .real), ("discount_inr", .real), ("delivery_charges_inr", .real),
      ("final_amount_inr", .real), ("item_count", .whole)]),
    ("customers", [("customer_id", .text), ("name", .text), ("email", .text), ("phone", .text),
      ("age", .whole), ("gender", .text), ("address", .text), ("city", .text), ("state", .text),
      ("pincode", .text), ("account_created_at", .text), ("loyalty_tier", .text),
      ("preferred_payment", .text), ("is_active", .whole)]),
    ("company_tos", [("doc_id", .text), ("title", .text), ("category", .text), ("content", .text)]),
    ("product_catalog", [("product_id", .text), ("page_content", .text), ("name", .text),
      ("brand", .text), ("category", .text), ("price_inr", .real), ("stock_qty", .whole),
      ("warranty_months", .whole), ("rating", .real), ("in_stock", .whole), ("price_tier", .text),
      ("specs", .map), ("embedding", .vector)])]

def columnsOf (table : Str) : List Str := (storeSchema.getD table []).keys

/-- The client over a database. -/
abbrev Engine := Database → Str → Except Exn Table

def Services.over (svc : Services) (engine : Engine) (db : Database) : Services :=
  { svc with query := fun _ sql => engine db sql }

/-- The orders of one customer. -/
def ownOrders (customerId : Str) (db : Database) : Option Table :=
  (db "order_history").map fun t =>
    { t with rows := t.rows.filter fun row => t.text row "customer_id" = some customerId }

/-- All that a customer's question may be answered from is the same in both. -/
structure AgreeFor (customerId : Str) (db₁ db₂ : Database) : Prop where
  catalog : db₁ "product_catalog" = db₂ "product_catalog"
  orders : ownOrders customerId db₁ = ownOrders customerId db₂

/-- Whatever is asked, and whatever the LLM replies on either attempt, the
answer depends on nothing else. -/
def OrdersIsolated (rt : Runtime) (engine : Engine) (customerId : Str) : Prop :=
  ∀ (query : Str) (svc : Services) (db₁ db₂ : Database), AgreeFor customerId db₁ db₂ →
    getOrderContext rt (svc.over engine db₁) (.str customerId) query =
      getOrderContext rt (svc.over engine db₂) (.str customerId) query

section
variable {rt : Runtime} {engine : Engine} {customerId : Str}

/-! ## What passes the checks -/

theorem cleanReply_objectField (key text : Str) :
    cleanReply (Json.objectField key text) = Json.objectField key text :=
  cleanReply_object ⟨_, rfl⟩

/-- The reply that carries this statement. -/
def sqlReply (sql : Str) : Str := Json.objectField "query" sql

theorem checkedSql_sqlReply {sql : Str} (hstrip : strip sql = sql)
    (hselect : startswith (rt.upperStr sql) "SELECT" = true) (hone : contains sql ";" = false)
    (hid : contains sql customerId = true) :
    checkedSql rt (.str customerId) (sqlReply sql) = .ok sql := by
  have hload : Reply.load rt (sqlReply sql) = .ok (.dict [("query", .str sql)]) := by
    rw [Reply.load, sqlReply, cleanReply_objectField, Json.loads_field]
  have hquery : sqlOutput rt (.dict [("query", .str sql)]) = .ok sql := rfl
  simp only [checkedSql, hload, bind, Except.bind, hquery, hstrip, hselect, hone, lacks, hid]
  rfl

/-- A statement that passed the checks has no semicolon, and so has the id in it. -/
theorem no_semicolon_of_checkedSql {rawResult sql : Str}
    (h : checkedSql rt (.str customerId) rawResult = .ok sql) : ';' ∉ customerId := by
  obtain ⟨parsedJson, -, h⟩ := bind_ok h
  obtain ⟨result, -, h⟩ := bind_ok h
  dsimp only at h
  split at h
  · cases h
  · rename_i hchecks
    simp only [lacks, bind, Except.bind] at h
    split at h
    · cases h
    · rename_i hmissing
      simp only [Bool.not_eq_true, Bool.not_eq_false'] at hmissing
      intro hmem
      have hsemicolon : ';' ∈ strip result := contains_mem hmissing hmem
      have hcontains : contains (strip result) ";" = true := by
        obtain ⟨before, after, hsplit⟩ := List.append_of_mem hsemicolon
        exact contains_iff.mpr ⟨before, after, by simp [hsplit]⟩
      rw [hcontains, Bool.or_true] at hchecks
      exact hchecks rfl

/-! ## A statement for any customer -/

/-- All that stands before the id. -/
def everyOrder : Str :=
  ("SELECT order_id FROM order_history " : Str) ++ ("WHERE 1 = 1 OR customer_id = " : Str)

/-- The id as a literal, between tags that are longer than it. -/
def taggedId (customerId : Str) : Str :=
  '$' :: (List.replicate customerId.length 'a' ++ '$' ::
    (customerId ++ ('$' :: List.replicate customerId.length 'a' ++ ['$'])))

/-- It has the customer id in it, and selects the orders of everyone. -/
def leakingSql (customerId : Str) : Str := everyOrder ++ taggedId customerId

def leakingQuery (customerId : Str) : Query :=
  [⟨.columns [(none, "order_id")], "order_history",
    some (.or (.eq (.literal (.int 1)) (.literal (.int 1)))
      (.eq (.column none "customer_id") (.literal (.str customerId))))⟩]

theorem lex_everyOrder {n : ℕ} {s : Str} {ts : List Token} (h : lex n s = some ts) :
    lex (n + 22) (everyOrder ++ s) = some (.word "SELECT" :: .word "order_id" :: .word "FROM" ::
      .word "order_history" :: .word "WHERE" :: .number 1 :: .symbol '=' :: .number 1 ::
      .word "OR" :: .word "customer_id" :: .symbol '=' :: ts) := by
  have hlex : lex (n + 22) (everyOrder ++ s) =
      (((((((((((lex n s).map (.symbol '=' :: ·)).map (.word "customer_id" :: ·)).map
        (.word "OR" :: ·)).map (.number 1 :: ·)).map (.symbol '=' :: ·)).map (.number 1 :: ·)).map
        (.word "WHERE" :: ·)).map (.word "order_history" :: ·)).map (.word "FROM" :: ·)).map
        (.word "order_id" :: ·)).map (.word "SELECT" :: ·) := rfl
  rw [hlex, h]
  rfl

theorem lex_taggedId (n : ℕ) (customerId : Str) :
    lex (n + 2) (taggedId customerId) = some [.string customerId] := by
  have htagged := taggedLiteral_of_length (Nat.le_refl customerId.length) []
  rw [List.append_nil] at htagged
  have hlex : lex (n + 2) (taggedId customerId) =
      (taggedLiteral (List.replicate customerId.length 'a' ++ '$' ::
        (customerId ++ ('$' :: List.replicate customerId.length 'a' ++ ['$'])))).bind fun r =>
          (lex (n + 1) r.2).map (.string r.1 :: ·) := rfl
  rw [hlex, htagged]
  rfl

theorem parse_leakingSql (customerId : Str) :
    parse (leakingSql customerId) = some (leakingQuery customerId) := by
  have hlength : everyOrder.length = 64 := by decide
  have hfuel : (leakingSql customerId).length + 1 = (taggedId customerId).length + 41 + 2 + 22 := by
    rw [leakingSql, List.length_append, hlength]
    omega
  have hlex := lex_everyOrder (lex_taggedId ((taggedId customerId).length + 41) customerId)
  rw [parse, hfuel, leakingSql, hlex]
  rfl

theorem mem_taggedId {c : Char} (h : c ∈ taggedId customerId) :
    c = '$' ∨ c = 'a' ∨ c ∈ customerId := by
  simp only [taggedId, List.mem_cons, List.mem_append, List.mem_replicate, List.not_mem_nil] at h
  tauto

theorem leakingSql_passes (h : ';' ∉ customerId) :
    checkedSql rt (.str customerId) (sqlReply (leakingSql customerId)) =
      .ok (leakingSql customerId) := by
  apply checkedSql_sqlReply
  · have hshape : leakingSql customerId = 'S' :: (everyOrder.tail ++ '$' ::
        (List.replicate customerId.length 'a' ++ '$' ::
          (customerId ++ '$' :: List.replicate customerId.length 'a'))) ++ ['$'] := by
      have hhead : everyOrder = 'S' :: everyOrder.tail := rfl
      rw [leakingSql, hhead]
      simp [taggedId]
    rw [hshape]
    exact strip_of_ends rfl rfl
  · have hshape : leakingSql customerId =
        ("SELECT" : Str) ++ (everyOrder.drop 6 ++ taggedId customerId) := rfl
    have hselect : rt.upperStr ("SELECT" : Str) = "SELECT" := rt.upperStr_ascii (by simp)
    rw [hshape, Unicode.upperStr_append, hselect]
    exact startswith_iff.mpr (List.prefix_append ..)
  · rw [Bool.eq_false_iff, ne_eq, contains_iff]
    intro hinfix
    have hmem : ';' ∈ leakingSql customerId := hinfix.subset List.mem_cons_self
    rcases List.mem_append.mp hmem with hmem | hmem
    · revert hmem
      decide
    · rcases mem_taggedId hmem with hmem | hmem | hmem
      · cases hmem
      · cases hmem
      · exact h hmem
  · refine contains_iff.mpr ⟨everyOrder ++ '$' :: (List.replicate customerId.length 'a' ++ ['$']),
      '$' :: List.replicate customerId.length 'a' ++ ['$'], ?_⟩
    simp [leakingSql, taggedId]

/-! ## What reaches the answer -/

/-- Services whose LLM replies with this statement. -/
def replying (sql : Str) : Services where
  getClient := .ok ()
  chatGroq := .ok ()
  encode _ := .ok (.list [])
  invoke _ _ := .ok (sqlReply sql)
  select _ _ _ _ := .ok []
  query _ _ := .ok ⟨[], []⟩

/-- The answer to a statement that passes the checks. -/
theorem getOrderContext_replying {sql query : Str} {db : Database} {t : Table}
    (hchecked : checkedSql rt (.str customerId) (sqlReply sql) = .ok sql)
    (hengine : engine db sql = .ok t) :
    getOrderContext rt ((replying sql).over engine db) (.str customerId) query =
      .ok (renderOrders rt t) := by
  have hattempt : orderAttempt rt ((replying sql).over engine db) (.str customerId) query 0 none =
      .ok (renderOrders rt t) := by
    simp only [orderAttempt, Services.over, replying, bind, Except.bind, hchecked, hengine]
  simp only [getOrderContext, orderAttempts, hattempt]
  rfl

/-- With a semicolon in the id, no statement is ever run. -/
theorem orderAttempt_over (h : ';' ∈ customerId) (svc : Services) (db : Database) (query : Str)
    (attempt : ℕ) (previousError : Option Str) :
    orderAttempt rt (svc.over engine db) (.str customerId) query attempt previousError =
      orderAttempt rt svc (.str customerId) query attempt previousError := by
  simp only [orderAttempt, Services.over, bind, Except.bind]
  cases svc.invoke attempt (.sql (rt.str (.str customerId)) query previousError) with
  | error e => rfl
  | ok rawResult =>
    cases hchecked : checkedSql rt (.str customerId) rawResult with
    | error e => simp only [hchecked]
    | ok sql => exact absurd h (no_semicolon_of_checkedSql hchecked)

theorem isolated_of_semicolon (h : ';' ∈ customerId) : OrdersIsolated rt engine customerId := by
  intro query svc db₁ db₂ _
  have hover (db : Database) : getOrderContext rt (svc.over engine db) (.str customerId) query =
      getOrderContext rt svc (.str customerId) query := by
    simp only [getOrderContext, orderAttempts, orderAttempt_over h]
    rfl
  rw [hover, hover]

/-! ## A shop with one other customer -/

def orderOf (customerId : Str) : Row :=
  [.str "ORD-2", .str customerId, .str "2024-05-01", .str "Delivered", .str "UPI", .str "Mysuru",
   .str "Phone", .float (.finite 100), .float (.finite 0), .float (.finite 0), .float (.finite 100),
   .int 1]

def customerOf (customerId phone : Str) : Row :=
  [.str customerId, .str "Asha", .str "asha@example.com", .str phone, .int 31, .str "Female",
    .str "12 Lake Road", .str "Mysuru", .str "Karnataka", .str "570001", .str "2023-02-11",
    .str "Gold", .str "UPI", .int 1]

def shop (orders customers : List Row) : Database := fun name =>
  if name = ("order_history" : Str) then some ⟨columnsOf "order_history", orders⟩
  else if name = ("product_catalog" : Str) then some ⟨columnsOf "product_catalog", []⟩
  else if name = ("customers" : Str) then some ⟨columnsOf "customers", customers⟩
  else none

/-- To this customer, the orders and the records of another do not matter. -/
theorem shops_agree {other : Str} (h : other ≠ customerId) (customers : List Row) :
    AgreeFor customerId (shop [orderOf other] customers) (shop [] []) where
  catalog := rfl
  orders := by
    have htext : Table.text ⟨columnsOf "order_history", [orderOf other]⟩ (orderOf other)
        "customer_id" = some other := rfl
    have hne : ¬ some other = some customerId := fun heq => h (Option.some.inj heq)
    show some (Table.mk (columnsOf "order_history") (List.filter _ [orderOf other])) =
      some (Table.mk (columnsOf "order_history") (List.filter _ []))
    rw [List.filter_cons, htext, decide_eq_false hne]
    rfl

end

/-- The engine answers a statement as it is meant, where that is at most one row. -/
def Answers (engine : Engine) (sql : Str) : Prop :=
  ∀ db t, run storeSchema db sql = some t → t.rows.length ≤ 1 → engine db sql = .ok t

/-- **When a customer's orders are the only ones in the answer.** With any engine
that answers one statement as it is meant, a select whose condition has an `OR`,
the answers to a customer depend on nothing but the catalog and that customer's
orders if and only if no statement can pass the checks at all: the customer id
has a semicolon in it. -/
theorem orders_isolated_iff (rt : Runtime) (engine : Engine) (customerId : Str)
    (hengine : Answers engine (leakingSql customerId)) :
    OrdersIsolated rt engine customerId ↔ ';' ∈ customerId := by
  refine ⟨fun hisolated => ?_, isolated_of_semicolon⟩
  by_contra hplain
  have hpasses : checkedSql rt (.str customerId) (sqlReply (leakingSql customerId)) = _ :=
    leakingSql_passes hplain
  have hother : customerId ++ ("x" : Str) ≠ customerId := by simp
  have hleak : engine (shop [orderOf (customerId ++ "x")] []) (leakingSql customerId) =
      .ok ⟨["order_id"], [[.str "ORD-2"]]⟩ :=
    hengine _ _ (run_of_eval (parse_leakingSql customerId) rfl) (Nat.le_refl 1)
  have hnone : engine (shop [] []) (leakingSql customerId) = .ok ⟨["order_id"], []⟩ :=
    hengine _ _ (run_of_eval (parse_leakingSql customerId) rfl) (Nat.zero_le 1)
  have hsame := hisolated [] (replying (leakingSql customerId)) _ _ (shops_agree hother [])
  rw [getOrderContext_replying hpasses hleak, getOrderContext_replying hpasses hnone] at hsame
  have htexts : ("order_id: ORD-2" : Str) = "No order records found for your account." :=
    Except.ok.inj hsame
  revert htexts
  decide

/-- An engine for the plain part of SQL, and nothing else. -/
def plainEngine : Engine := fun db sql =>
  match run storeSchema db sql with
  | some t => .ok t
  | none => .error ⟨"Syntax error"⟩

theorem plainEngine_eval {db : Database} {sql : Str} {q : Query} {kinds : List Kind} {t : Table}
    (hparse : parse sql = some q) (heval : Query.eval storeSchema db q = some (kinds, t)) :
    plainEngine db sql = .ok t := by
  rw [plainEngine, run_of_eval hparse heval]

theorem orders_isolated_iff_plainEngine :
    ¬ OrdersIsolated .ascii plainEngine "CUST-0001" := by
  intro hisolated
  have hmem := (orders_isolated_iff .ascii plainEngine "CUST-0001"
    fun db t h _ => by simp only [plainEngine, h]).mp hisolated
  revert hmem
  decide

def orSql : Str :=
  ("SELECT order_id FROM order_history " : Str) ++ ("WHERE customer_id = 'CUST-0001' OR 1 = 1" : Str)

def unionSql : Str :=
  ("SELECT order_id FROM order_history WHERE customer_id = 'CUST-0001' " : Str) ++
    ("UNION ALL SELECT phone FROM customers" : Str)

/-- The query the two statements share, with `cond` for its `WHERE`. -/
def orderQuery (cond : Cond) : Select :=
  ⟨.columns [(none, "order_id")], "order_history", some cond⟩

def ofCustomer : Cond := .eq (.column none "customer_id") (.literal (.str "CUST-0001"))

theorem parse_orSql :
    parse orSql =
      some [orderQuery (.or ofCustomer (.eq (.literal (.int 1)) (.literal (.int 1))))] := by
  rfl

theorem parse_unionSql :
    parse unionSql =
      some [orderQuery ofCustomer, ⟨.columns [(none, "phone")], "customers", none⟩] := by
  rfl

theorem orSql_passes : checkedSql .ascii (.str "CUST-0001") (sqlReply orSql) = .ok orSql :=
  checkedSql_sqlReply (by decide +kernel) (by decide +kernel) (by decide +kernel) (by decide +kernel)

theorem unionSql_passes : checkedSql .ascii (.str "CUST-0001") (sqlReply unionSql) = .ok unionSql :=
  checkedSql_sqlReply (by decide +kernel) (by decide +kernel) (by decide +kernel) (by decide +kernel)

/-- Two replies that name the customer: one brings in the order of another, the
other a phone number. -/
theorem other_customers_leak :
    AgreeFor "CUST-0001" (shop [orderOf "CUST-0002"] [customerOf "CUST-0002" "98450"]) (shop [] []) ∧
    (∀ sql ∈ [orSql, unionSql],
      getOrderContext .ascii ((replying sql).over plainEngine (shop [] [])) (.str "CUST-0001") [] =
        .ok "No order records found for your account.") ∧
    getOrderContext .ascii ((replying orSql).over plainEngine
      (shop [orderOf "CUST-0002"] [customerOf "CUST-0002" "98450"])) (.str "CUST-0001") [] =
        .ok "order_id: ORD-2" ∧
    getOrderContext .ascii ((replying unionSql).over plainEngine
      (shop [orderOf "CUST-0002"] [customerOf "CUST-0002" "98450"])) (.str "CUST-0001") [] =
        .ok "order_id: 98450" := by
  have answer {sql : Str} {db : Database} {q : Query} {t : Table}
      (hpasses : checkedSql .ascii (.str "CUST-0001") (sqlReply sql) = .ok sql)
      (hparse : parse sql = some q)
      (heval : Query.eval storeSchema db q = some ([.text], t)) :
      getOrderContext .ascii ((replying sql).over plainEngine db) (.str "CUST-0001") [] =
        .ok (renderOrders .ascii t) :=
    getOrderContext_replying hpasses (plainEngine_eval hparse heval)
  refine ⟨shops_agree (by decide) _, ?_, ?_, ?_⟩
  · intro sql hsql
    rcases List.mem_cons.mp hsql with rfl | hsql
    · rw [answer (t := ⟨["order_id"], []⟩) orSql_passes parse_orSql rfl]
      rfl
    · cases List.mem_singleton.mp hsql
      rw [answer (t := ⟨["order_id"], []⟩) unionSql_passes parse_unionSql rfl]
      rfl
  · rw [answer (t := ⟨["order_id"], [[.str "ORD-2"]]⟩) orSql_passes parse_orSql rfl]
    rfl
  · rw [answer (t := ⟨["order_id"], [[.str "98450"]]⟩) unionSql_passes parse_unionSql rfl]
    rfl

end TechMart.Graph
