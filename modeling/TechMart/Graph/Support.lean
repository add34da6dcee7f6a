import TechMart.Graph.Isolation

/-!
# FAQ answers and their policies

`get_support_context` looks up the policy of each FAQ row by its
`related_tos`, spliced between two quotes. `faq_policies_iff` says for which
references the lookup finds the policy that is meant.
-/

namespace TechMart.Graph

open Python Sql Sql.Parse

/-- A row of `company_faqs` as the vector query returns it. -/
structure Faq where
  question : Str
  answer : Str
  relatedTos : Str
  dist : Value

def Faq.cells (f : Faq) : Cells 4 := fun i =>
  [.str f.question, .str f.answer, .str f.relatedTos, f.dist].getD i .none

/-- The columns of `company_tos` a policy query reads, all of them texts. -/
def TextColumns (t : Table) : Prop :=
  (∀ c ∈ (["doc_id", "title", "content"] : List Str), c ∈ t.columns) ∧
    ∀ row ∈ t.rows, ∀ c ∈ (["doc_id", "title", "content"] : List Str),
      ∃ s, t.cell row c = some (.str s)

theorem textColumns_of_all {t : Table}
    (hcolumns : ∀ c ∈ (["doc_id", "title", "content"] : List Str), c ∈ t.columns)
    (h : (t.rows.all fun row => (["doc_id", "title", "content"] : List Str).all fun c =>
      (t.text row c).isSome) = true) : TextColumns t := by
  refine ⟨hcolumns, ?_⟩
  intro row hrow c hc
  have hsome := List.all_eq_true.mp (List.all_eq_true.mp h row hrow) c hc
  rw [Table.text] at hsome
  split at hsome
  · exact ⟨_, by assumption⟩
  · cases hsome

/-- A content of `company_tos` with unique ids. -/
structure PolicyTable where
  table : Table
  texts : TextColumns table
  unique : (table.rows.map fun row => table.text row "doc_id").Nodup

/-- The rows of the table under this id. -/
def documents (t : Table) (docId : Str) : List Row :=
  t.rows.filter fun row => t.text row "doc_id" = some docId

/-- What `SELECT title, content` shows of a row. -/
def titleAndContent (t : Table) (row : Row) : Row :=
  [(t.cell row "title").getD .none, (t.cell row "content").getD .none]

/-- The engine reads literals as SQL does: where one ends with the statement, the
answer is the rows under the id that it stands for. -/
def ReadsLiterals (rt : Runtime) (engine : Engine) : Prop :=
  ∀ (db : Database) (t : Table) (docId value : Str), db "company_tos" = some t → TextColumns t →
    stringLiteral (docId ++ ['\'']) = some (some value, []) →
    engine db (tosSql rt (.str docId)) =
      .ok ⟨["title", "content"], (documents t value).map (titleAndContent t)⟩

/-- A literal that no quote closes is no statement. -/
def RejectsUnclosed (rt : Runtime) (engine : Engine) : Prop :=
  ∀ (db : Database) (docId : Str), stringLiteral (docId ++ ['\'']) = none →
    ∃ e, engine db (tosSql rt (.str docId)) = .error e

/-- The rows of an answer, by position. -/
def cellsOf (width : ℕ) (t : Table) : List (Cells width) :=
  t.rows.map fun row i => row.getD i .none

/-- The policy queries go to an engine over a database. -/
def Services.reading (svc : Services) (engine : Engine) (db : Database) : Services :=
  { svc with
    select := fun place width sql parameters =>
      if place = 0 then svc.select place width sql parameters
      else (engine db sql).map (cellsOf width) }

section
variable (rt : Runtime)

/-- What a policy line says besides the reference. -/
def policyText (t : Table) (row : Row) : Str :=
  rt.str ((t.cell row "title").getD .none) ++ " - " ++ rt.str ((t.cell row "content").getD .none)

/-- An FAQ row's own lines: its answer, and the policy it refers to if there is one. -/
def ownLines (policies : PolicyTable) (f : Faq) : List Str :=
  faqLine rt f.cells :: (documents policies.table f.relatedTos).map fun row =>
    ("TOS (" : Str) ++ f.relatedTos ++ "): " ++ policyText rt policies.table row

/-- The policies that an answer shows: that of its first row, if there is one. -/
def shownPolicy (answer : Table) : List Str :=
  (answer.rows.head?.map fun row =>
    rt.str (row.getD 0 .none) ++ " - " ++ rt.str (row.getD 1 .none)).toList

/-- What the engine is asked for under this reference shows the policy that the
reference has, or none if it has none. An empty reference is not looked up. -/
def Resolves (engine : Engine) (db : Database) (policies : PolicyTable) (docId : Str) : Prop :=
  if docId = [] then documents policies.table [] = []
  else match stringLiteral (docId ++ ['\'']) with
    -- one whole literal, for an id that may be another
    | some (some value, []) =>
      (documents policies.table value).map (policyText rt policies.table) =
        (documents policies.table docId).map (policyText rt policies.table)
    -- the statement goes on after the literal, or has bytes that are no text in it
    | some _ => ∃ answer, engine db (tosSql rt (.str docId)) = .ok answer ∧
        shownPolicy rt answer = (documents policies.table docId).map (policyText rt policies.table)
    | none => False

variable {rt}

/-! ## Literals -/

/-- No quote and no backslash. -/
def isPlain (s : Str) : Bool := s.all fun c => c != '\'' && c != '\\'

/-- A plain text is its own literal. -/
theorem stringLiteral_plain {s : Str} (h : isPlain s = true) :
    stringLiteral (s ++ ['\'']) = some (some s, []) := by
  have hread : closing (s ++ ['\'']) = some (s, []) ∧ unescape s = some s := by
    induction s with
    | nil => exact ⟨rfl, rfl⟩
    | cons c s ih =>
      simp only [isPlain, List.all_cons, Bool.and_eq_true, bne_iff_ne, ne_eq] at h
      obtain ⟨⟨hquote, hslash⟩, hs⟩ := h
      obtain ⟨hclosing, hunescape⟩ := ih hs
      constructor
      · rw [List.cons_append, closing, hclosing, Option.map_some]
        · exact fun _ hc => absurd hc hquote
        · exact hquote
        · exact fun _ _ hc => absurd hc hslash
      · rw [unescape, hunescape, Option.map_some]
        · exact fun _ _ _ hc => absurd hc hslash
        · exact fun _ _ hc => absurd hc hslash
  rw [stringLiteral, hread.1, Option.map_some, hread.2]

/-- A reference that is its own literal resolves. -/
theorem resolves_literal {engine : Engine} {db : Database} {policies : PolicyTable} {docId : Str}
    (hne : docId ≠ []) (h : stringLiteral (docId ++ ['\'']) = some (some docId, [])) :
    Resolves rt engine db policies docId := by
  rw [Resolves, if_neg hne, h]

/-- What stands before the literal of a policy query. -/
def tosHead : Str := ("SELECT title, content FROM company_tos WHERE doc_id = '" : Str)

theorem tosSql_str (docId : Str) : tosSql rt (.str docId) = tosHead ++ (docId ++ ['\'']) :=
  List.append_assoc ..

/-- At most one row stands under an id. -/
theorem documents_length (policies : PolicyTable) (docId : Str) :
    (documents policies.table docId).length ≤ 1 := by
  have hunique := policies.unique
  have hsub : ((documents policies.table docId).map fun row =>
      policies.table.text row "doc_id").Nodup :=
    hunique.sublist (List.Sublist.map _ List.filter_sublist)
  have hconst : (documents policies.table docId).map (fun row => policies.table.text row "doc_id") =
      List.replicate (documents policies.table docId).length (some docId) := by
    rw [List.eq_replicate_iff]
    refine ⟨List.length_map .., ?_⟩
    intro id hid
    obtain ⟨row, hrow, rfl⟩ := List.mem_map.mp hid
    simpa using (List.mem_filter.mp hrow).2
  rw [hconst, List.nodup_replicate] at hsub
  exact hsub

theorem toList_head?_of_length {α : Type} {l : List α} (h : l.length ≤ 1) : l.head?.toList = l := by
  rcases l with _ | ⟨a, _ | ⟨b, l⟩⟩
  · rfl
  · rfl
  · simp at h

/-! ## The lines of one row -/

/-- The line of a policy under a reference. -/
def tosText (docId text : Str) : Str := ("TOS (" : Str) ++ docId ++ "): " ++ text

theorem ownLines_eq (policies : PolicyTable) (f : Faq) :
    ownLines rt policies f = faqLine rt f.cells ::
      ((documents policies.table f.relatedTos).map (policyText rt policies.table)).map
        (tosText f.relatedTos) := by
  rw [List.map_map]
  rfl

theorem tosLine_eq (docId : Str) (r : Cells 2) :
    tosLine rt (.str docId) r = tosText docId (rt.str (r 0) ++ " - " ++ rt.str (r 1)) := by
  have hassoc (a b c d e f : Str) :
      a ++ b ++ c ++ d ++ e ++ f = a ++ b ++ c ++ (d ++ e ++ f) := by
    simp only [List.append_assoc]
  exact hassoc ..

/-- The first of the rows under an id is shown. -/
theorem shownPolicy_documents (t : Table) (value : Str) :
    shownPolicy rt ⟨["title", "content"], (documents t value).map (titleAndContent t)⟩ =
      ((documents t value).head?.map (policyText rt t)).toList := by
  simp only [shownPolicy, List.head?_map, Option.map_map]
  rfl

/-- With unique ids that is all of them. -/
theorem shownPolicy_unique (policies : PolicyTable) (value : Str) :
    shownPolicy rt ⟨["title", "content"],
        (documents policies.table value).map (titleAndContent policies.table)⟩ =
      (documents policies.table value).map (policyText rt policies.table) := by
  rw [shownPolicy_documents, ← List.head?_map]
  apply toList_head?_of_length
  rw [List.length_map]
  exact documents_length policies value

theorem reading_select (svc : Services) (engine : Engine) (db : Database) (n width : ℕ) (sql : Str)
    (parameters : Dict Value) :
    (svc.reading engine db).select (n + 1) width sql parameters =
      (engine db sql).map (cellsOf width) := rfl

theorem truthy_relatedTos {f : Faq} (hne : f.relatedTos ≠ []) :
    (relatedTos f.cells).truthy = true := by
  show (Value.str f.relatedTos).truthy = true
  simpa [Value.truthy] using hne

/-- One FAQ row whose policy query is answered. -/
theorem supportLines_answered {svc : Services} {engine : Engine} {db : Database} {f : Faq}
    {answer : Table} (hne : f.relatedTos ≠ [])
    (hanswer : engine db (tosSql rt (.str f.relatedTos)) = .ok answer) (n : ℕ)
    (rows : List (Cells 4)) :
    supportLines rt (svc.reading engine db) n (f.cells :: rows) =
      (supportLines rt (svc.reading engine db) (n + 1) rows).map fun out =>
        faqLine rt f.cells :: (shownPolicy rt answer).map (tosText f.relatedTos) ++ out := by
  have hrel : relatedTos f.cells = .str f.relatedTos := rfl
  have hline : (cellsOf 2 answer).head?.map (tosLine rt (.str f.relatedTos)) =
      (answer.rows.head?.map fun row =>
        rt.str (row.getD 0 .none) ++ " - " ++ rt.str (row.getD 1 .none)).map
          (tosText f.relatedTos) := by
    rw [cellsOf, List.head?_map, Option.map_map, Option.map_map]
    exact congrArg (fun g => Option.map g answer.rows.head?) (funext fun row => tosLine_eq ..)
  have hlines : (shownPolicy rt answer).map (tosText f.relatedTos) =
      ((cellsOf 2 answer).head?.map (tosLine rt (.str f.relatedTos))).toList := by
    rw [hline, shownPolicy]
    cases answer.rows.head? <;> rfl
  rw [supportLines, if_pos (truthy_relatedTos hne), hrel, reading_select, hanswer, hlines]
  rfl

/-- One FAQ row whose policy query is refused. -/
theorem supportLines_refused {svc : Services} {engine : Engine} {db : Database} {f : Faq} {e : Exn}
    (hne : f.relatedTos ≠ []) (hrefused : engine db (tosSql rt (.str f.relatedTos)) = .error e)
    (n : ℕ) (rows : List (Cells 4)) :
    supportLines rt (svc.reading engine db) n (f.cells :: rows) = .error e := by
  have hrel : relatedTos f.cells = .str f.relatedTos := rfl
  rw [supportLines, if_pos (truthy_relatedTos hne), hrel, reading_select, hrefused]
  rfl

/-- A plain reference shows the first row under it. -/
theorem supportLines_plain {svc : Services} {engine : Engine} (hengine : ReadsLiterals rt engine)
    {db : Database} {t : Table} (hdb : db "company_tos" = some t) (htexts : TextColumns t) {f : Faq}
    (hne : f.relatedTos ≠ []) (hplain : isPlain f.relatedTos = true) :
    supportLines rt (svc.reading engine db) 0 [f.cells] =
      .ok (faqLine rt f.cells ::
        ((documents t f.relatedTos).head?.map fun row =>
          ("TOS (" : Str) ++ f.relatedTos ++ "): " ++ policyText rt t row).toList) := by
  have hanswer := hengine db t f.relatedTos _ hdb htexts (stringLiteral_plain hplain)
  rw [supportLines_answered hne hanswer, shownPolicy_documents, supportLines]
  cases (documents t f.relatedTos).head? <;> rfl

/-- One FAQ row without a reference. -/
theorem supportLines_none {svc : Services} {f : Faq} (hempty : f.relatedTos = []) (n : ℕ)
    (rows : List (Cells 4)) :
    supportLines rt svc n (f.cells :: rows) =
      (supportLines rt svc (n + 1) rows).map fun out => faqLine rt f.cells :: out := by
  have htruthy : (relatedTos f.cells).truthy = false := by
    show (Value.str f.relatedTos).truthy = false
    rw [hempty]
    rfl
  rw [supportLines, htruthy, if_neg Bool.false_ne_true]
  simp only [bind, Except.bind]
  cases supportLines rt svc (n + 1) rows <;> rfl

/-! ## Both directions -/

/-- The first letter tells policy lines from FAQ lines. -/
def isTosLine (line : Str) : Bool := line.head? = some 'T'

theorem isTosLine_tosText {docId line : Str} {texts : List Str}
    (h : line ∈ texts.map (tosText docId)) : isTosLine line = true := by
  obtain ⟨text, -, rfl⟩ := List.mem_map.mp h
  rfl

theorem isTosLine_faqLine (r : Cells 4) : isTosLine (faqLine rt r) = false := rfl

theorem supportLines_head {svc : Services} {n : ℕ} {rows : List (Cells 4)} {out : List Str}
    (h : supportLines rt svc n rows = .ok out) : out.takeWhile isTosLine = [] := by
  cases rows with
  | nil =>
    cases h
    rfl
  | cons r rows =>
    rw [supportLines] at h
    split at h
    · obtain ⟨tosRes, -, h⟩ := bind_ok h
      obtain ⟨rest, -, h⟩ := bind_ok h
      cases h
      rw [List.cons_append, List.takeWhile_cons, isTosLine_faqLine]
      rfl
    · obtain ⟨rest, -, h⟩ := bind_ok h
      cases h
      rw [List.takeWhile_cons, isTosLine_faqLine]
      rfl

theorem ownLines_head (policies : PolicyTable) (faqs : List Faq) :
    (faqs.flatMap (ownLines rt policies)).takeWhile isTosLine = [] := by
  cases faqs with
  | nil => rfl
  | cons f faqs =>
    rw [List.flatMap_cons, ownLines_eq, List.cons_append, List.takeWhile_cons, isTosLine_faqLine]
    rfl

/-- The policy lines that begin two equal lists are the same. -/
theorem split_tosLines {tos tos' out out' : List Str} (htos : ∀ line ∈ tos, isTosLine line = true)
    (htos' : ∀ line ∈ tos', isTosLine line = true) (hout : out.takeWhile isTosLine = [])
    (hout' : out'.takeWhile isTosLine = []) (h : tos ++ out = tos' ++ out') :
    tos = tos' ∧ out = out' := by
  have hfront := congrArg (List.takeWhile isTosLine) h
  rw [List.takeWhile_append_of_pos htos, List.takeWhile_append_of_pos htos', hout, hout',
    List.append_nil, List.append_nil] at hfront
  rw [hfront] at h
  exact ⟨hfront, List.append_cancel_left h⟩

/-- A reference resolves if its query is answered and shows the policy it has. -/
theorem resolves_iff_shown {engine : Engine} (hengine : ReadsLiterals rt engine)
    (hunclosed : RejectsUnclosed rt engine) {db : Database} {policies : PolicyTable}
    (hdb : db "company_tos" = some policies.table) {docId : Str} (hne : docId ≠ []) :
    Resolves rt engine db policies docId ↔
      ∃ answer, engine db (tosSql rt (.str docId)) = .ok answer ∧
        shownPolicy rt answer =
          (documents policies.table docId).map (policyText rt policies.table) := by
  rw [Resolves, if_neg hne]
  split
  · rename_i value hwhole
    rw [hengine db policies.table docId value hdb policies.texts hwhole, ← shownPolicy_unique]
    exact ⟨fun hsame => ⟨_, rfl, hsame⟩, fun ⟨_, hanswer, hsame⟩ => Except.ok.inj hanswer ▸ hsame⟩
  · exact Iff.rfl
  · rename_i hnone
    obtain ⟨e, hrefused⟩ := hunclosed db docId hnone
    rw [hrefused]
    exact ⟨False.elim, fun ⟨_, hanswer, _⟩ => by cases hanswer⟩

/-- **One row.** Its lines are its own, and so are those of the rows after it, if
and only if its reference resolves and the others' are. -/
theorem supportLines_own_iff {svc : Services} {engine : Engine} (hengine : ReadsLiterals rt engine)
    (hunclosed : RejectsUnclosed rt engine) {db : Database} {policies : PolicyTable}
    (hdb : db "company_tos" = some policies.table) (f : Faq) (faqs : List Faq) (n : ℕ) :
    supportLines rt (svc.reading engine db) n (f.cells :: faqs.map Faq.cells) =
        .ok (ownLines rt policies f ++ faqs.flatMap (ownLines rt policies)) ↔
      Resolves rt engine db policies f.relatedTos ∧
        supportLines rt (svc.reading engine db) (n + 1) (faqs.map Faq.cells) =
          .ok (faqs.flatMap (ownLines rt policies)) := by
  -- after the FAQ line, what is shown of the policy ends where the next FAQ line begins
  have hsplit (shown : List Str) :
      (supportLines rt (svc.reading engine db) (n + 1) (faqs.map Faq.cells)).map
            (fun out => faqLine rt f.cells :: shown.map (tosText f.relatedTos) ++ out) =
          .ok (ownLines rt policies f ++ faqs.flatMap (ownLines rt policies)) ↔
        shown = (documents policies.table f.relatedTos).map (policyText rt policies.table) ∧
          supportLines rt (svc.reading engine db) (n + 1) (faqs.map Faq.cells) =
            .ok (faqs.flatMap (ownLines rt policies)) := by
    have hinj : Function.Injective (tosText f.relatedTos) := fun _ _ h => List.append_cancel_left h
    constructor
    · intro h
      obtain ⟨out, hout, hlines⟩ := map_ok h
      rw [ownLines_eq] at hlines
      obtain ⟨hsame, hrest⟩ := split_tosLines (fun _ => isTosLine_tosText)
        (fun _ => isTosLine_tosText) (supportLines_head hout) (ownLines_head policies faqs)
        (List.cons.inj hlines).2
      exact ⟨List.map_injective_iff.mpr hinj hsame, by rw [hout, hrest]⟩
    · rintro ⟨rfl, hrest⟩
      rw [hrest, ownLines_eq]
      rfl
  by_cases hempty : f.relatedTos = []
  · rw [supportLines_none hempty, Resolves, if_pos hempty]
    have hnone := hsplit []
    rw [hempty, eq_comm (a := ([] : List Str)), List.map_eq_nil_iff] at hnone
    exact hnone
  · rw [resolves_iff_shown hengine hunclosed hdb hempty]
    cases hquery : engine db (tosSql rt (.str f.relatedTos)) with
    | error e =>
      rw [supportLines_refused hempty hquery]
      constructor
      · intro h
        cases h
      · rintro ⟨⟨_, hanswer, _⟩, _⟩
        cases hanswer
    | ok answer =>
      rw [supportLines_answered hempty hquery, hsplit]
      refine and_congr_left fun _ => ?_
      exact ⟨fun hsame => ⟨_, rfl, hsame⟩, fun ⟨_, hanswer, hsame⟩ => Except.ok.inj hanswer ▸ hsame⟩

end

/-! ## Plain SQL reads literals -/

def underId (value : Str) : Cond := .eq (.column none "doc_id") (.literal (.str value))

def policySelect (value : Str) : Select :=
  ⟨.columns [(none, "title"), (none, "content")], "company_tos", some (underId value)⟩

theorem lex_tosHead (n : ℕ) (s : Str) :
    lex (n + 17) (tosHead ++ s) = (lex n ('\'' :: s)).map fun ts =>
      .word "SELECT" :: .word "title" :: .symbol ',' :: .word "content" :: .word "FROM" ::
        .word "company_tos" :: .word "WHERE" :: .word "doc_id" :: .symbol '=' :: ts := by
  have hlex : lex (n + 17) (tosHead ++ s) =
      (((((((((lex n ('\'' :: s)).map (.symbol '=' :: ·)).map (.word "doc_id" :: ·)).map
        (.word "WHERE" :: ·)).map (.word "company_tos" :: ·)).map (.word "FROM" :: ·)).map
        (.word "content" :: ·)).map (.symbol ',' :: ·)).map (.word "title" :: ·)).map
        (.word "SELECT" :: ·) := rfl
  rw [hlex]
  cases lex n ('\'' :: s) <;> rfl

/-- The tokens of a policy query: those before its literal, and what the literal is. -/
theorem parse_tosSql (rt : Runtime) (docId : Str) :
    parse (tosSql rt (.str docId)) =
      ((lex (docId.length + 40) ('\'' :: (docId ++ ['\'']))).map fun ts =>
        .word "SELECT" :: .word "title" :: .symbol ',' :: .word "content" :: .word "FROM" ::
          .word "company_tos" :: .word "WHERE" :: .word "doc_id" :: .symbol '=' :: ts).bind
        fun ts => union (3 * ts.length + 3) ts := by
  have hlength : tosHead.length = 55 := by decide
  have hfuel : (tosHead ++ (docId ++ ['\''])).length + 1 = docId.length + 40 + 17 := by
    rw [List.length_append, List.length_append, hlength]
    simp only [List.length_cons, List.length_nil]
    omega
  rw [parse, tosSql_str, hfuel, lex_tosHead]
  rfl

theorem lex_quote (n : ℕ) (s : Str) :
    lex (n + 1) ('\'' :: s) = (stringLiteral s).bind fun r => r.1.bind fun text =>
      (lex n r.2).map (.string text :: ·) := rfl

theorem parse_whole (rt : Runtime) {docId value : Str}
    (h : stringLiteral (docId ++ ['\'']) = some (some value, [])) :
    parse (tosSql rt (.str docId)) = some [policySelect value] := by
  rw [parse_tosSql, lex_quote, h]
  rfl

theorem parse_unclosed (rt : Runtime) {docId : Str} (h : stringLiteral (docId ++ ['\'']) = none) :
    parse (tosSql rt (.str docId)) = none := by
  rw [parse_tosSql, lex_quote, h]
  rfl

theorem policyColumn (t : Table) (row : Row) (c : Str) :
    columnValue "company_tos" t row none c = t.cell row c := if_pos rfl

theorem policySelect_rows {t : Table} (value : Str) {rows : List Row}
    (h : ∀ row ∈ rows, ∃ s, t.cell row "doc_id" = some (.str s)) :
    (policySelect value).rows t rows =
      some (rows.filter fun row => t.text row "doc_id" = some value) := by
  induction rows with
  | nil => rfl
  | cons row rows ih =>
    have hrest := ih fun r hr => h r (List.mem_cons_of_mem row hr)
    obtain ⟨s, hs⟩ := h row List.mem_cons_self
    have htext : t.text row "doc_id" = some s := by rw [Table.text, hs]
    have hcond : Cond.eval "company_tos" t row (underId value) = some (s == value) := by
      simp only [underId, Cond.eval, Scalar.eval, policyColumn, hs]
      rfl
    rw [Select.rows, hrest]
    show ((Cond.eval "company_tos" t row (underId value)).bind fun keep =>
      some (if keep then row :: _ else _)) = _
    rw [hcond, Option.bind_some, List.filter_cons, htext]
    by_cases hv : s = value
    · simp [hv]
    · simp [hv]

theorem policySelect_project {t : Table} (value : Str) {rows : List Row}
    (h : ∀ row ∈ rows, ∀ c ∈ (["title", "content"] : List Str), ∃ v, t.cell row c = some v) :
    rows.mapM ((policySelect value).project t) = some (rows.map (titleAndContent t)) := by
  induction rows with
  | nil => rfl
  | cons row rows ih =>
    have hrest := ih fun r hr => h r (List.mem_cons_of_mem row hr)
    obtain ⟨title, htitle⟩ := h row List.mem_cons_self "title" (by simp)
    obtain ⟨content, hcontent⟩ := h row List.mem_cons_self "content" (by simp)
    have hproject : (policySelect value).project t row = some (titleAndContent t row) := by
      simp only [Select.project, policySelect, List.mapM_cons, List.mapM_nil, policyColumn,
        htitle,
        hcontent, titleAndContent, Option.getD_some]
      rfl
    rw [List.mapM_cons, hproject, hrest]
    rfl

theorem policySelect_kinds {t : Table} (value : Str)
    (h : ∀ c ∈ (["doc_id", "title", "content"] : List Str), c ∈ t.columns) :
    (policySelect value).kinds storeSchema t = some [.text, .text] := by
  have hpresent (c : Str) (hc : c ∈ (["doc_id", "title", "content"] : List Str)) :
      presentKind storeSchema "company_tos" t c = columnKind storeSchema "company_tos" c :=
    if_pos (h c hc)
  have hkind (c : Str) (hc : c ∈ (["doc_id", "title", "content"] : List Str)) :
      (Scalar.column none c).kind storeSchema "company_tos" t = some .text := by
    rw [Scalar.kind, Option.getD_none, if_pos rfl, hpresent c hc]
    revert c
    decide
  have hliteral : (Scalar.literal (.str value)).kind storeSchema "company_tos" t = some .text := rfl
  have htyped : (underId value).typed storeSchema "company_tos" t = true := by
    rw [underId, Cond.typed, comparable, hkind "doc_id" (by simp), hliteral]
  have hcondition : (policySelect value).condition.all
      (Cond.typed storeSchema (policySelect value).table t) = true := htyped
  rw [Select.kinds, if_pos hcondition]
  show [((none : Option Str), ("title" : Str)), (none, "content")].mapM _ = _
  simp only [policySelect, List.mapM_cons, List.mapM_nil, hkind "title" (by simp),
    hkind "content" (by simp)]
  rfl

/-- The engine for plain SQL reads the literals of policy queries. -/
theorem plainEngine_reads (rt : Runtime) : ReadsLiterals rt plainEngine := by
  intro db t docId value hdb htexts hliteral
  have hids : ∀ row ∈ t.rows, ∃ s, t.cell row "doc_id" = some (.str s) :=
    fun row hrow => htexts.2 row hrow "doc_id" (by simp)
  have hshown : ∀ row ∈ documents t value, ∀ c ∈ (["title", "content"] : List Str),
      ∃ v, t.cell row c = some v := by
    intro row hrow c hc
    obtain ⟨s, hs⟩ := htexts.2 row (List.mem_filter.mp hrow).1 c (List.mem_cons_of_mem _ hc)
    exact ⟨_, hs⟩
  have hkinds := policySelect_kinds value htexts.1
  have hrows : (policySelect value).rows t t.rows = some (documents t value) :=
    policySelect_rows value hids
  have hproject := policySelect_project value hshown
  apply plainEngine_eval (parse_whole rt hliteral)
  show Select.eval storeSchema db (policySelect value) = _
  have htable : db (policySelect value).table = some t := hdb
  simp only [Select.eval, htable, hkinds, hrows, hproject, bind, Option.bind_some]
  rfl

theorem plainEngine_rejects (rt : Runtime) : RejectsUnclosed rt plainEngine := by
  intro db docId hnone
  refine ⟨⟨"Syntax error"⟩, ?_⟩
  have hrun : run storeSchema db (tosSql rt (.str docId)) = none := by
    rw [run, parse_unclosed rt hnone]
    rfl
  rw [plainEngine, hrun]

/-! ## A reference with an apostrophe -/

def storePolicies : PolicyTable where
  table := ⟨["doc_id", "title", "content"],
    [[.str "TOS-001", .str "Returns", .str "Seven days."],
      [.str "TOS-B'LORE", .str "Stores", .str "Open daily."]]⟩
  texts := textColumns_of_all (by decide) (by decide)
  unique := by decide

def storeDatabase : Database := fun name =>
  if name = ("company_tos" : Str) then some storePolicies.table else none

def faqWith (relatedTos : Str) : Faq := ⟨"When are you open?", "Every day.", relatedTos, .int 0⟩

end TechMart.Graph
