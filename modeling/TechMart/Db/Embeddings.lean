import TechMart.Db.Fields

/-!
# Embeddings that are stale

Products and FAQs are stored with the vector of their text. Two writers compute
it, the load and the admin save; `embeddings_fresh` is what both of them keep,
in any order and whatever befalls their statements.
-/

namespace TechMart.Db

open Python Sql Admin

/-! ## The statement -/

/-- The vector of a stored row is the one of its text. -/
def FreshRow (ch : ClickHouse) (enc : Str → Value) (columns : List Str) (target text : Str)
    (row : Row) : Prop :=
  ∃ s v, Dict.get? (columns.zip row) text = some (.str s) ∧
    Dict.get? (columns.zip row) target = some v ∧ ch.write target (enc s) = some v

/-- No product and no FAQ has a stale vector. -/
def Fresh (ch : ClickHouse) (enc : Str → Value) (db : Database) : Prop :=
  ∀ (t : AdminTable) target text, t.embedded = some (target, text) →
    ∀ table, db t.name = some table →
      ∀ row ∈ table.rows, FreshRow ch enc table.columns target text row

/-- The transformer, where it answers, gives the vector of the text. -/
def Encodes (enc : Str → Value) (encode : Value → Except Exn Value) : Prop :=
  ∀ s v, encode (.str s) = .ok v → v = enc s

/-- The columns of texts keep texts. -/
def KeepsTexts (ch : ClickHouse) : Prop :=
  ∀ (t : AdminTable) target text, t.embedded = some (target, text) →
    ∀ s w, ch.write text (.str s) = some w → w = .str s

/-- What the two writers may be asked to do. -/
inductive Event where
  | load (encode : Value → Except Exn Value) (files : DataFiles) (faults : ℕ → Fault)
  | save (r : Request)

/-- The database once a writer has come to its end. -/
def Event.after (rt : Runtime) (ch : ClickHouse) (db : Database) : Event → Database
  | load encode files faults => (runHandler ch faults db (ingestData rt encode files)).db
  | save r => (runRequest rt ch db r).db

/-- Every FAQ of the files has a question, and every product a name. -/
structure FilesComplete (files : DataFiles) : Prop where
  questions : ∀ faqs, files Source.companyFaqs.filename = .ok faqs →
    ∀ f ∈ faqs, ∃ s, f.get? "question" = some (.str s)
  names : ∀ products, files Source.productCatalog.filename = .ok products →
    ∀ p ∈ products, ∃ fields s, p.get? "metadata" = some (.dict fields) ∧
      Dict.get? fields "name" = some (.str s)

/-- Every FAQ and every product written carries its text, and one transformer
encodes all of them. -/
def Event.Complete (enc : Str → Value) : Event → Prop
  | load encode files _ => Encodes enc encode ∧ FilesComplete files
  | save r => Encodes enc r.call.encode ∧
    ∀ t target text, AdminTable.ofName? r.call.data.table = some t →
      t.embedded = some (target, text) →
      ∀ row ∈ r.call.data.rows, ∃ s, row.get? text = some (.str s)

/-! ## Rows that are written -/

/-- A row to be inserted has the vector of its text. -/
def Encoded (enc : Str → Value) (target text : Str) (r : Dict Value) : Prop :=
  ∃ s, r.get? text = some (.str s) ∧ r.get? target = some (enc s)

section
variable {ch : ClickHouse} {enc : Str → Value} {rt : Runtime}
  {encode : Value → Except Exn Value} {t : AdminTable} {target text : Str}

theorem Encoded.mem_keys {r : Dict Value} (h : Encoded enc target text r) :
    text ∈ r.keys ∧ target ∈ r.keys := by
  obtain ⟨s, htext, htarget⟩ := h
  constructor
  · rw [← Dict.get?_isSome_iff, htext]
    rfl
  · rw [← Dict.get?_isSome_iff, htarget]
    rfl

/-- Stored, such rows have fresh vectors: the first one brings both columns. -/
theorem freshRow_of_stored {columns : List Str} {rows : List (Dict Value)} {stored : List Row}
    (hkeeps : ∀ s w, ch.write text (.str s) = some w → w = .str s)
    (hrows : ∀ r ∈ rows, Encoded enc target text r)
    (hcolumns : ∀ c ∈ insertColumns rows, c ∈ columns)
    (h : storeRows ch columns (insertColumns rows) (insertData rows) = some stored) :
    ∀ row ∈ stored, FreshRow ch enc columns target text row := by
  intro row hrow
  obtain ⟨hlength, hstored⟩ := rows_of_storeRows h
  obtain ⟨i, hi, rfl⟩ := List.getElem_of_mem hrow
  have hi' : i < rows.length := hlength ▸ hi
  have hrowStored := hstored i _ _ (List.getElem?_eq_getElem hi') (List.getElem?_eq_getElem hi)
  obtain ⟨s, htext, htarget⟩ := hrows _ (List.getElem_mem hi')
  have hfirst : text ∈ insertColumns rows ∧ target ∈ insertColumns rows := by
    obtain ⟨first, rest, rfl⟩ := List.exists_cons_of_ne_nil (List.ne_nil_of_mem (List.getElem_mem hi'))
    exact (hrows first List.mem_cons_self).mem_keys
  have htextCell := cell_of_storeRow hrowStored (hcolumns _ hfirst.1)
  have htargetCell := cell_of_storeRow hrowStored (hcolumns _ hfirst.2)
  rw [if_pos hfirst.1, Dict.getD, htext, Option.getD_some] at htextCell
  rw [if_pos hfirst.2, Dict.getD, htarget, Option.getD_some] at htargetCell
  obtain ⟨w, hw, hwcell⟩ := Dict.get?_zip_mapM hrowStored (hcolumns _ hfirst.1)
  obtain ⟨v, hv, hvcell⟩ := Dict.get?_zip_mapM hrowStored (hcolumns _ hfirst.2)
  rw [hwcell] at htextCell
  rw [hvcell] at htargetCell
  have hkept := hkeeps s w htextCell.symm
  subst hkept
  exact ⟨s, v, hwcell, hvcell, htargetCell.symm⟩

/-! ## The two writers -/

theorem value_text {r : Dict Value} {s : Str} (hembedded : t.embedded = some (target, text))
    (h : r.get? text = some (.str s)) : t.value rt encode r text = some (.str s) ∧
      t.value rt encode r target = (encode (.str s)).toOption := by
  cases t with
  | productCatalog =>
    cases hembedded
    have hspecs : (coerceSpecs rt r).get? "name" = some (.str s) := by
      rw [coerceSpecs_get? (by decide), h]
    simp only [AdminTable.value, embeddedCell, hspecs, if_true]
    exact ⟨if_neg (by decide), trivial⟩
  | companyFaqs =>
    cases hembedded
    simp only [AdminTable.value, embeddedCell, h, if_true]
    exact ⟨if_neg (by decide), trivial⟩
  | companyTos => cases hembedded

theorem target_not_given (hembedded : t.embedded = some (target, text)) : target ∉ t.given := by
  cases t <;> cases hembedded <;> decide

/-- A row that a save prepares has the vector of its text. -/
theorem encoded_of_prepares (henc : Encodes enc encode)
    (hembedded : t.embedded = some (target, text)) {r r' : Dict Value} {s : Str}
    (h : r.get? text = some (.str s)) (hr : Prepares t.Carries (t.value rt encode) t.given r r') :
    Encoded enc target text r' := by
  have hkey : text ∈ r.keys := by
    rw [← Dict.get?_isSome_iff, h]
    rfl
  have hcarriesText : t.Carries r text := Or.inl hkey
  have hcarriesTarget : t.Carries r target := Or.inr (Or.inr ⟨text, hembedded, hkey⟩)
  obtain ⟨htext, htarget⟩ := @value_text rt encode t target text r s hembedded h
  obtain ⟨v, hv⟩ := Option.isSome_iff_exists.mp
    ((Dict.get?_isSome_iff r' target).mpr ((hr.keys target).mpr hcarriesTarget))
  have hvector := hr.get? target hcarriesTarget (target_not_given hembedded)
  rw [hv, htarget] at hvector
  have hanswer : encode (.str s) = .ok v := by
    cases hencode : encode (.str s) with
    | error e =>
      rw [hencode] at hvector
      cases hvector
    | ok x =>
      rw [hencode] at hvector
      cases hvector
      rfl
  rw [henc s v hanswer] at hv
  exact ⟨s, (hr.get? text hcarriesText (embedded_not_given hembedded)).trans htext, hv⟩

/-- A record that the load prepares has the vector of its text. -/
theorem encoded_of_record (henc : Encodes enc encode) {files : DataFiles}
    (hfiles : FilesComplete files) (hembedded : t.embedded = some (target, text)) {s : Source}
    (htable : s.table = t.name) {loaded : List (Dict Value)}
    (hloaded : files s.filename = .ok loaded) {r r' : Dict Value} (hr : r ∈ loaded)
    (h : s.record rt encode r = .ok r') : Encoded enc target text r' := by
  cases t with
  | productCatalog =>
    cases hembedded
    cases s with
    | productCatalog =>
      obtain ⟨fields, name, hmetadata, hname⟩ := hfiles.names loaded hloaded r hr
      obtain ⟨fields', hfields, h⟩ := bind_ok h
      simp only [metadataOfRecord, Dict.getD, hmetadata, Option.getD_some] at hfields
      cases hfields
      obtain ⟨price, -, h⟩ := bind_ok h
      obtain ⟨stock, -, h⟩ := bind_ok h
      obtain ⟨warranty, -, h⟩ := bind_ok h
      obtain ⟨rating, -, h⟩ := bind_ok h
      obtain ⟨vector, hvector, h⟩ := bind_ok h
      have hgiven (default : Value) : Dict.getD fields "name" default = .str name := by
        rw [Dict.getD, hname, Option.getD_some]
      rw [hgiven] at hvector h
      rw [henc name vector hvector] at h
      cases h
      exact ⟨name, rfl, rfl⟩
    | customers | orderHistory | companyFaqs | companyTos => exact absurd htable (by decide)
  | companyFaqs =>
    cases hembedded
    cases s with
    | companyFaqs =>
      obtain ⟨question, hquestion⟩ := hfiles.questions loaded hloaded r hr
      obtain ⟨v, hv, hrest⟩ := bind_ok h
      rw [item, hquestion] at hv
      cases hv
      obtain ⟨vector, hvector, hset⟩ := bind_ok hrest
      cases hset
      rw [henc question vector hvector]
      exact ⟨question, (Dict.get?_set_ne r (by decide) _).trans hquestion, Dict.get?_set_self r _ _⟩
    | customers | orderHistory | productCatalog | companyTos => exact absurd htable (by decide)
  | companyTos => cases hembedded

end

/-! ## Any order of loads and saves -/

section
variable {ch : ClickHouse} {enc : Str → Value} {rt : Runtime}

/-- A save, however it ends, makes no vector stale. -/
theorem fresh_after_save (hkeeps : KeepsTexts ch) {r : Request}
    (hcomplete : (Event.save r).Complete enc) {db : Database} (hdb : Fresh ch enc db) :
    Fresh ch enc (runRequest rt ch db r).db := by
  intro t target text hembedded table htable
  rcases live_after rt ch r t db with hsame | ⟨before, rows, stored, hput⟩
  · rw [hsame.same] at htable
    exact hdb t target text hembedded table htable
  · rw [hput.after] at htable
    cases htable
    have hsubmitted := hcomplete.2 t target text hput.named hembedded
    refine freshRow_of_stored (hkeeps t target text hembedded) ?_ hput.columns hput.accepted
    intro row hrow
    obtain ⟨submitted, hmem, hprepares⟩ := mem_of_forall₂ (prepareRows_prepares hput.prepared) hrow
    obtain ⟨s, hs⟩ := hsubmitted submitted hmem
    exact encoded_of_prepares hcomplete.1 hembedded hs hprepares

/-- No statement of a load makes a vector stale. -/
theorem fresh_after_statement (hkeeps : KeepsTexts ch) {encode : Value → Except Exn Value}
    (henc : Encodes enc encode) {files : DataFiles} (hfiles : FilesComplete files)
    (db : Database) (q : Stmt) (a : Table) (db' : Database) (hq : Loads rt encode files q)
    (hexec : exec ch db q = .ok (a, db')) (hdb : Fresh ch enc db) : Fresh ch enc db' := by
  rcases hq with rfl | ⟨s, loaded, rows, hloaded, hrows, rfl⟩
  · cases hexec
    exact hdb
  · intro t target text hembedded table htable
    by_cases hname : s.table = t.name
    · obtain ⟨before, stored, hbefore, hcolumns, hstored, rfl⟩ := exec_insert hexec
      rw [hname, setTable_self] at htable
      cases htable
      intro row hrow
      rcases List.mem_append.mp hrow with hold | hnew
      · rw [hname] at hbefore
        exact hdb t target text hembedded before hbefore row hold
      · refine freshRow_of_stored (hkeeps t target text hembedded) ?_ hcolumns hstored row hnew
        intro r' hr'
        obtain ⟨r, hr, hrecord⟩ := mem_of_forall₂ (mapM_ok hrows) hr'
        exact encoded_of_record henc hfiles hembedded hname hloaded hr hrecord
    · have hframe : t.name ∉ (Stmt.insert s.table (insertData rows) (insertColumns rows)).writes :=
        fun hmem => hname (List.mem_singleton.mp hmem).symm
      rw [exec_frame hexec hframe] at htable
      exact hdb t target text hembedded table htable

theorem fresh_after (hkeeps : KeepsTexts ch) {event : Event} (hcomplete : event.Complete enc)
    {db : Database} (hdb : Fresh ch enc db) : Fresh ch enc (event.after rt ch db) := by
  cases event with
  | load encode files faults =>
    have hstep := @fresh_after_statement ch enc rt hkeeps encode hcomplete.1 files hcomplete.2
    exact runHandler_keeps asks_ingestData hstep faults db hdb
  | save r => exact fresh_after_save hkeeps hcomplete hdb

/-- **Embeddings are never stale.** However often and in whatever order loads
and saves follow each other, failed and cut short ones included, every product
and every FAQ is stored with the vector of its text. -/
theorem embeddings_fresh (rt : Runtime) (ch : ClickHouse) (enc : Str → Value)
    (hkeeps : KeepsTexts ch) (db : Database)
    (hempty : ∀ (t : AdminTable) table, db t.name = some table → table.rows = [])
    (events : List Event) (hcomplete : ∀ event ∈ events, event.Complete enc) :
    Fresh ch enc (events.foldl (Event.after rt ch) db) := by
  have hstart : Fresh ch enc db := by
    intro t target text _ table htable row hrow
    rw [hempty t table htable] at hrow
    exact absurd hrow List.not_mem_nil
  induction events using List.reverseRecOn with
  | nil => exact hstart
  | append_singleton events event ih =>
    rw [List.foldl_append, List.foldl_cons, List.foldl_nil]
    have hbefore := ih fun e he => hcomplete e (List.mem_append_left _ he)
    have hevent := hcomplete event (List.mem_append_right _ List.mem_cons_self)
    exact fresh_after hkeeps hevent hbefore

end

/-! ## A load and a save -/

def shopSchema : Dict (List Str) :=
  [("customers", ["customer_id", "name", "email", "phone", "age", "gender", "address", "city", "state",
      "pincode", "account_created_at", "loyalty_tier", "preferred_payment", "is_active"]),
    ("order_history", ["order_id", "customer_id", "order_date", "status", "payment_method",
      "delivery_address", "items", "subtotal_inr", "discount_inr", "delivery_charges_inr",
      "final_amount_inr", "item_count"]),
    ("company_faqs", ["faq_id", "category", "question", "answer", "tags", "related_tos",
      "question_embedding"]),
    ("company_tos", ["doc_id", "title", "category", "tags", "effective_date", "last_updated",
      "content"]),
    ("product_catalog", Source.productCatalog.given)]

def emptyShop : Database := fun table => (shopSchema.get? table).map fun columns => ⟨columns, []⟩

def shopCustomer : Dict Value :=
  [("customer_id", .str "CUST-0001"), ("name", .str "Asha"), ("email", .str "asha@example.com"),
    ("phone", .str "98450"), ("age", .int 42), ("gender", .str "Female"),
    ("address", .str "12 Lake Road"), ("city", .str "Mysuru"), ("state", .str "Karnataka"),
    ("pincode", .str "570001"), ("account_created_at", .str "2025-07-02"),
    ("loyalty_tier", .str "Silver"), ("preferred_payment", .str "UPI"), ("is_active", .bool true)]

def shopOrder : Dict Value :=
  [("order_id", .str "ORD-000001"), ("customer_id", .str "CUST-0001"),
    ("order_date", .str "2025-03-17"), ("status", .str "Delivered"), ("payment_method", .str "UPI"),
    ("delivery_address", .str "12 Lake Road"), ("items", .list []), ("subtotal_inr", .int 9999),
    ("discount_inr", .int 0), ("delivery_charges_inr", .int 0), ("final_amount_inr", .int 9999),
    ("item_count", .int 1)]

def shopFaq : Dict Value :=
  [("faq_id", .str "FAQ-001"), ("category", .str "returns_refunds"),
    ("question", .str "How do I return it?"), ("answer", .str "Within seven days."),
    ("tags", .list [.str "return"]), ("related_tos", .str "TOS-001")]

def shopPolicy : Dict Value :=
  [("doc_id", .str "TOS-001"), ("title", .str "Returns"), ("category", .str "returns"),
    ("tags", .list [.str "return"]), ("effective_date", .str "2024-01-01"),
    ("last_updated", .str "2024-01-01"), ("content", .str "Seven days.")]

def shopProduct : Dict Value :=
  [("product_id", .str "TK-PHN-001"), ("page_content", .str "A phone."),
    ("metadata", .dict [("name", .str "Phone"), ("brand", .str "Acme"), ("category", .str "Phone"),
      ("price_inr", .int 9999), ("stock_qty", .int 4), ("warranty_months", .int 12),
      ("rating", .int 4), ("in_stock", .bool true), ("price_tier", .str "budget"),
      ("specs", .dict [("ram_gb", .str "8GB")])])]

def shopFiles : DataFiles := fun filename =>
  .ok (Dict.getD [("customers.json", [shopCustomer]), ("order_history.json", [shopOrder]),
    ("company_faqs.json", [shopFaq]), ("company_tos.json", [shopPolicy]),
    ("product_catalog_rag.json", [shopProduct])] filename [])

theorem shopFiles_complete : FilesComplete shopFiles := by
  constructor
  · intro faqs hfaqs f hf
    cases hfaqs
    rw [List.mem_singleton.mp hf]
    exact ⟨_, rfl⟩
  · intro products hproducts p hp
    cases hproducts
    rw [List.mem_singleton.mp hp]
    exact ⟨_, _, rfl, rfl⟩

/-- The submitted row brings a vector of its own. -/
def renamedPhone : SaveCall :=
  catalogSave [product "TK-PHN-001" [("name", .str "Tablet"), ("embedding", textVector "stale")]]

theorem embeddings_fresh_renamed :
    Fresh typedClickHouse textVector
      ([Event.load renamedPhone.encode shopFiles fun _ => .none,
        Event.save ⟨renamedPhone, fun _ => .none⟩].foldl
        (Event.after Runtime.ascii typedClickHouse) emptyShop) := by
  have hencodes : Encodes textVector renamedPhone.encode := by
    intro s v h
    cases h
    rfl
  refine embeddings_fresh Runtime.ascii typedClickHouse textVector ?_ emptyShop ?_ _ ?_
  · exact fun _ _ _ _ _ _ h => typedClickHouse_write h
  · intro t table htable
    obtain ⟨columns, -, rfl⟩ := Option.map_eq_some_iff.mp htable
    rfl
  · intro event hevent
    rcases List.mem_cons.mp hevent with rfl | hevent
    · exact ⟨hencodes, shopFiles_complete⟩
    · rw [List.mem_singleton.mp hevent]
      refine ⟨hencodes, ?_⟩
      intro t target text hname hembedded row hrow
      cases hname
      cases hembedded
      rw [List.mem_singleton.mp hrow]
      exact ⟨_, rfl⟩

end TechMart.Db
