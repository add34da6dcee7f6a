import TechMart.Sql.Parse

/-!
# Ranked searches

The part of SQL a vector search is written in: unions of selects of columns,
literals, `map` and `cosineDistance`, ordered by a column and limited. It is
typed as `schema` says. Only answers of at most one row have a meaning here, so
nothing is assumed of distances or of how rows are ordered.
-/

namespace TechMart.Sql.Search

open Python Parse

/-! ## Tokens -/

inductive Token where
  | word (s : Str)
  | string (s : Str)
  | integer (n : ℕ)
  | decimal (n : ℕ)
  | array
  | symbol (c : Char)

def digits (s : Str) : Bool := !s.isEmpty && s.all Char.isDigit

def mantissa (s : Str) : Bool :=
  match s.splitOn '.' with
  | [whole] => digits whole
  | [whole, fraction] => digits whole && digits fraction
  | _ => false

def exponent : Str → Bool
  | '-' :: s | '+' :: s => digits s
  | s => digits s

def unsigned : Str → Str
  | '-' :: s => s
  | s => s

def isNumeralChar (c : Char) : Bool := c.isDigit || c ∈ ['.', '-', '+', 'e']

/-- The text of a finite float. -/
def isNumeral (s : Str) : Bool :=
  s.all isNumeralChar && match (unsigned s).splitOn 'e' with
  | [m] => mantissa m
  | [m, x] => mantissa m && exponent x
  | _ => false

/-- The rest of an array of numerals, after its closing bracket. -/
def arrayLiteral : ℕ → Str → Option Str
  | 0, _ => none
  | n + 1, s =>
    if isNumeral (s.takeWhile isNumeralChar) then
      match s.dropWhile isNumeralChar with
      | ']' :: rest => some rest
      | ',' :: ' ' :: rest => arrayLiteral n rest
      | _ => none
    else none

/-- A natural number, or a digit with a fraction of zero. -/
def numberToken : Str → Option Token
  | [d, '.', '0'] => if d.isDigit then some (.decimal (natOfDigits [d])) else none
  | s => if s.all Char.isDigit then some (.integer (natOfDigits s)) else none

def isNumberChar (c : Char) : Bool := isWordChar c || c == '.'

/-- The tokens read so far are in reverse. -/
def lex : ℕ → List Token → Str → Option (List Token)
  | 0, _, _ => none
  | _ + 1, ts, [] => some ts.reverse
  | n + 1, ts, c :: s =>
    if isBlank c then lex n ts s
    else if c == '\'' then do
      let (text, rest) ← stringLiteral s
      let text ← text
      lex n (.string text :: ts) rest
    else if c == '[' then do
      let rest ← arrayLiteral (s.length + 1) s
      lex n (.array :: ts) rest
    else if c ∈ [',', '=', '(', ')'] then lex n (.symbol c :: ts) s
    else if c.isDigit then do
      let token ← numberToken ((c :: s).takeWhile isNumberChar)
      lex n (token :: ts) ((c :: s).dropWhile isNumberChar)
    else if isWordStart c then
      lex n (.word ((c :: s).takeWhile isWordChar) :: ts) ((c :: s).dropWhile isWordChar)
    else none

/-! ## Grammar -/

inductive Expr where
  | column (name : Str)
  | literal (v : Value)
  | cosineDistance (column : Str)

structure Item where
  expr : Expr
  label : Option Str

structure Select where
  items : List Item
  table : Str
  condition : Option (Expr × Expr)

structure Statement where
  parts : List Select
  order : Str
  limit : ℕ

def keyword (k : Str) : List Token → Option (List Token)
  | .word w :: ts => if w.map Char.toUpper = k then some ts else none
  | _ => none

def reserved : List Str :=
  ["SELECT", "FROM", "WHERE", "AND", "OR", "NOT", "UNION", "ALL", "AS", "ORDER", "BY", "ASC",
    "LIMIT"]

def name : List Token → Option (Str × List Token)
  | .word w :: ts => if w.map Char.toUpper ∈ reserved then none else some (w, ts)
  | _ => none

/-- The arguments of a function. -/
def call (function : Str) : List Token → Option (Expr × List Token)
  | .string k :: .symbol ',' :: .string v :: .symbol ')' :: ts =>
    if function = "map" then some (.literal (.dict [(k, .str v)]), ts) else none
  | .word column :: .symbol ',' :: .array :: .symbol ')' :: ts =>
    if function = "cosineDistance" then some (.cosineDistance column, ts) else none
  | _ => none

def expr : List Token → Option (Expr × List Token)
  | .string s :: ts => some (.literal (.str s), ts)
  | .integer n :: ts => some (.literal (.int n), ts)
  | .decimal n :: ts => some (.literal (.float (.finite n)), ts)
  | .word function :: .symbol '(' :: ts => call function ts
  | ts => (name ts).map fun r => (.column r.1, r.2)

def item (ts : List Token) : Option (Item × List Token) := do
  let (e, ts) ← expr ts
  match keyword "AS" ts with
  | some ts => (name ts).map fun r => (⟨e, some r.1⟩, r.2)
  | none => some (⟨e, none⟩, ts)

def items : ℕ → List Token → Option (List Item × List Token)
  | 0, _ => none
  | n + 1, ts => do
    let (i, ts) ← item ts
    match ts with
    | .symbol ',' :: ts => (items n ts).map fun r => (i :: r.1, r.2)
    | _ => some ([i], ts)

def condition (ts : List Token) : Option ((Expr × Expr) × List Token) := do
  let (a, ts) ← expr ts
  match ts with
  | .symbol '=' :: ts => (expr ts).map fun r => ((a, r.1), r.2)
  | _ => none

def select (n : ℕ) (ts : List Token) : Option (Select × List Token) := do
  let ts ← keyword "SELECT" ts
  let (is, ts) ← items n ts
  let ts ← keyword "FROM" ts
  let (table, ts) ← name ts
  match keyword "WHERE" ts with
  | some ts => (condition ts).map fun r => (⟨is, table, some r.1⟩, r.2)
  | none => some (⟨is, table, none⟩, ts)

def union : ℕ → List Token → Option (List Select × List Token)
  | 0, _ => none
  | n + 1, ts => do
    let (s, ts) ← select n ts
    match keyword "UNION" ts with
    | some ts => do
      let ts ← keyword "ALL" ts
      (union n ts).map fun r => (s :: r.1, r.2)
    | none => some ([s], ts)

def statement (n : ℕ) (ts : List Token) : Option Statement := do
  let (parts, ts) ← union n ts
  let ts ← keyword "ORDER" ts
  let ts ← keyword "BY" ts
  let (order, ts) ← name ts
  let ts ← keyword "ASC" ts
  let ts ← keyword "LIMIT" ts
  match ts with
  | [.integer limit] => some ⟨parts, order, limit⟩
  | _ => none

def parse (sql : Str) : Option Statement := do
  let ts ← lex (sql.length + 1) [] sql
  statement (ts.length + 1) ts

/-! ## Meaning -/

section
variable (schema : Schema)

def Expr.kind (table : Str) : Expr → Option Kind
  | .column name => columnKind schema table name
  | .literal (.str _) => some .text
  | .literal (.int _) => some .whole
  | .literal (.float _) => some .real
  | .literal (.dict _) => some .map
  | .literal _ => none
  | .cosineDistance name => if columnKind schema table name = some .vector then some .real else none

def Select.kinds (s : Select) : Option (List Kind) := s.items.mapM fun i => i.expr.kind schema s.table

/-- The two sides of the condition are of one kind. -/
def Select.comparable (s : Select) : Bool :=
  match s.condition with
  | some (a, b) => (a.kind schema s.table).isSome && a.kind schema s.table = b.kind schema s.table
  | none => true

def Item.name (i : Item) : Option Str :=
  match i.label, i.expr with
  | some label, _ => some label
  | none, .column name => some name
  | none, _ => none

/-- The parts have columns of the same kinds, and each has the one the rows
are ordered by. -/
def Statement.typed (s : Statement) : Bool :=
  match s.parts with
  | [] => false
  | p :: ps => (p.kinds schema).isSome && ps.all (fun q => q.kinds schema = p.kinds schema) &&
    (p :: ps).all fun q => q.comparable schema && q.items.any fun i => i.name = some s.order

end

def Expr.eval (t : Table) (row : Row) : Expr → Option Value
  | .column name => t.cell row name
  | .literal v => some v
  | .cosineDistance _ => none

def Item.eval (t : Table) (row : Row) (i : Item) : Option Value := i.expr.eval t row

def Select.keeps (s : Select) (t : Table) (row : Row) : Option Bool :=
  match s.condition with
  | some (a, b) => do equal (← a.eval t row) (← b.eval t row)
  | none => some true

def Select.rows (s : Select) (t : Table) : List Row → Option (List Row)
  | [] => some []
  | row :: rest => do
    let keep ← s.keeps t row
    let rest ← Select.rows s t rest
    if keep then (s.items.mapM (Item.eval t row)).map (· :: rest) else some rest

def Select.eval (db : Database) (s : Select) : Option (List Row) := do
  let t ← db s.table
  s.rows t t.rows

/-- The rows of the answer, if there is at most one. -/
def Statement.eval (schema : Schema) (db : Database) (s : Statement) :
    Option (List Row) := do
  let parts ← s.parts.mapM (Select.eval db)
  if s.typed schema && parts.flatten.length ≤ 1 && 1 ≤ s.limit then some parts.flatten else none

/-- The answer to a search that has a meaning here. -/
def run (schema : Schema) (db : Database) (sql : Str) : Option (List Row) := do
  (← parse sql).eval schema db

/-! ## Texts of known tokens -/

/-- A text is read as these tokens, in so many steps, whatever comes after it. -/
def Spells (text : Str) (tokens : List Token) (steps : ℕ) : Prop :=
  ∀ n ts rest, lex (n + steps) ts (text ++ rest) = lex n (tokens.reverse ++ ts) rest

/-- A text is read as one token where no word or number goes on after it. -/
def Reads (text : Str) (token : Token) : Prop :=
  ∀ n ts c rest, isNumberChar c = false → lex (n + 1) ts (text ++ c :: rest) =
    lex n (token :: ts) (c :: rest)

theorem Spells.append {text more : Str} {tokens others : List Token} {k m : ℕ}
    (h : Spells text tokens k) (hmore : Spells more others m) :
    Spells (text ++ more) (tokens ++ others) (m + k) := by
  intro n ts rest
  rw [List.append_assoc, ← Nat.add_assoc, h, hmore, List.reverse_append, List.append_assoc]

theorem lex_cons_blank {c : Char} (hc : isBlank c = true) (n : ℕ) (ts : List Token) (s : Str) :
    lex (n + 1) ts (c :: s) = lex n ts s := by
  rw [lex, if_pos hc]

theorem lex_cons_symbol {c : Char} (hc : c ∈ ([',', '=', '(', ')'] : List Char)) (n : ℕ)
    (ts : List Token) (s : Str) : lex (n + 1) ts (c :: s) = lex n (.symbol c :: ts) s := by
  simp only [List.mem_cons, List.not_mem_nil, or_false] at hc
  rcases hc with rfl | rfl | rfl | rfl <;> rfl

theorem spells_blanks (k : ℕ) : Spells (List.replicate k ' ') [] k := by
  induction k with
  | zero => exact fun _ _ _ => rfl
  | succ k ih =>
    intro n ts rest
    rw [List.replicate_succ, List.cons_append, ← Nat.add_assoc, lex_cons_blank rfl]
    exact ih n ts rest

theorem spells_newline : Spells ['\n'] [] 1 := fun n ts rest => lex_cons_blank rfl n ts rest

theorem spells_symbol {c : Char} (hc : c ∈ ([',', '=', '(', ')'] : List Char)) :
    Spells [c] [.symbol c] 1 := fun n ts rest => lex_cons_symbol hc n ts rest

theorem not_isNumberChar_of_symbol {c : Char} (hc : c ∈ ([',', '=', '(', ')'] : List Char)) :
    isNumberChar c = false := by
  have hall : ([',', '=', '(', ')'] : List Char).all (fun d => !isNumberChar d) = true := by decide
  simpa using List.all_eq_true.mp hall c hc

/-- A token and the blank after it. -/
theorem Reads.blank {text : Str} {token : Token} (h : Reads text token) :
    Spells (text ++ [' ']) [token] 2 := by
  intro n ts rest
  rw [List.append_assoc, List.singleton_append, h (n + 1) ts ' ' rest rfl, lex_cons_blank rfl]
  rfl

/-- A token and the symbol after it. -/
theorem Reads.symbol {text : Str} {token : Token} (h : Reads text token) {c : Char}
    (hc : c ∈ ([',', '=', '(', ')'] : List Char)) :
    Spells (text ++ [c]) [token, .symbol c] 2 := by
  intro n ts rest
  rw [List.append_assoc, List.singleton_append,
    h (n + 1) ts c rest (not_isNumberChar_of_symbol hc), lex_cons_symbol hc]
  rfl

/-- Tokens with a comma and a blank after each. -/
theorem spells_list (items : List (Str × Token)) (h : ∀ i ∈ items, Reads i.1 i.2) :
    Spells (items.flatMap fun i => i.1 ++ ", ") (items.flatMap fun i => [i.2, .symbol ','])
      (3 * items.length) := by
  induction items with
  | nil => exact fun _ _ _ => rfl
  | cons i items ih =>
    have hitem : Spells (i.1 ++ ", ") [i.2, .symbol ','] 3 := by
      have hcomma := ((h i List.mem_cons_self).symbol (c := ',') (by simp)).append (spells_blanks 1)
      rw [List.append_assoc, List.append_nil] at hcomma
      exact hcomma
    have hall := hitem.append (ih fun j hj => h j (List.mem_cons_of_mem i hj))
    rw [List.flatMap_cons, List.flatMap_cons, List.length_cons]
    exact hall

/-! ### Words and numbers -/

def isWord (w : Str) : Bool := w.head?.any isWordStart && w.all isWordChar

/-- The characters that begin, or are, another token than a word or a number. -/
theorem not_other_start {p : Char → Bool} {c : Char} (h : p c = true)
    (hp : ([' ', '\t', '\n', '\r', '\'', '[', ',', '=', '(', ')'] : List Char).any p = false) :
    isBlank c = false ∧ (c == '\'') = false ∧ (c == '[') = false ∧
      c ∉ ([',', '=', '(', ')'] : List Char) := by
  have hne : ∀ d ∈ ([' ', '\t', '\n', '\r', '\'', '[', ',', '=', '(', ')'] : List Char), c ≠ d := by
    rintro d hd rfl
    exact List.any_eq_false.mp hp c hd h
  simp only [List.forall_mem_cons, List.not_mem_nil, false_imp_iff, implies_true, and_true] at hne
  obtain ⟨hspace, htab, hline, hreturn, hquote, harray, hcomma, hequal, hopen, hclose⟩ := hne
  refine ⟨?_, beq_eq_false_iff_ne.mpr hquote, beq_eq_false_iff_ne.mpr harray, ?_⟩
  · simp [isBlank, hspace, htab, hline, hreturn]
  · simp [hcomma, hequal, hopen, hclose]

theorem not_isDigit_of_isWordStart {c : Char} (h : isWordStart c = true) : c.isDigit = false := by
  rw [Bool.eq_false_iff]
  intro hdigit
  have hrange := Char.isDigit_iff_toNat.mp hdigit
  have habove {d : Char} (hd : '9'.toNat < d.toNat) (hc : d.val ≤ c.val) : False := by
    have hle : d.toNat ≤ c.toNat := UInt32.le_iff_toNat_le.mp hc
    omega
  have hcases : ((c.isUpper || c.isLower) || c == '_') = true := h
  rw [Bool.or_eq_true, Bool.or_eq_true] at hcases
  rcases hcases with (hupper | hlower) | hmark
  · have hbounds : decide ('A'.val ≤ c.val ∧ c.val ≤ 'Z'.val) = true := hupper
    exact habove (by decide) (of_decide_eq_true hbounds).1
  · have hbounds : (decide ('a'.val ≤ c.val) && decide (c.val ≤ 'z'.val)) = true := hlower
    exact habove (by decide) (of_decide_eq_true (Bool.and_eq_true_iff.mp hbounds).1)
  · rw [beq_iff_eq.mp hmark] at hdigit
    cases hdigit

theorem span_append {p : Char → Bool} {s : Str} (hs : s.all p = true) {c : Char}
    (hc : p c = false) (rest : Str) :
    (s ++ c :: rest).takeWhile p = s ∧ (s ++ c :: rest).dropWhile p = c :: rest := by
  rw [List.all_eq_true] at hs
  constructor
  · rw [List.takeWhile_append_of_pos hs, List.takeWhile_cons_of_neg (by simp [hc]), List.append_nil]
  · rw [List.dropWhile_append_of_pos hs, List.dropWhile_cons_of_neg (by simp [hc])]

theorem reads_word {w : Str} (h : isWord w = true) : Reads w (.word w) := by
  intro n ts c rest hc
  cases w with
  | nil => cases h
  | cons d w =>
    obtain ⟨hstart, hall⟩ := Bool.and_eq_true_iff.mp h
    have hstart : isWordStart d = true := hstart
    obtain ⟨hblank, hquote, harray, hsymbol⟩ := not_other_start hstart (by decide)
    have hchar : isWordChar c = false := (Bool.or_eq_false_iff.mp hc).1
    obtain ⟨htake, hdrop⟩ := span_append hall hchar rest
    rw [List.cons_append] at htake hdrop
    rw [List.cons_append, lex]
    simp only [hblank, hquote, harray, hsymbol, not_isDigit_of_isWordStart hstart, hstart,
      Bool.false_eq_true, if_false, if_true, htake, hdrop]

theorem reads_number {s : Str} {token : Token} (hstart : s.head?.any Char.isDigit = true)
    (hall : s.all isNumberChar = true) (htoken : numberToken s = some token) : Reads s token := by
  intro n ts c rest hc
  cases s with
  | nil => cases hstart
  | cons d s =>
    have hdigit : d.isDigit = true := hstart
    obtain ⟨hblank, hquote, harray, hsymbol⟩ := not_other_start hdigit (by decide)
    obtain ⟨htake, hdrop⟩ := span_append hall hc rest
    rw [List.cons_append] at htake hdrop
    rw [List.cons_append, lex]
    simp only [hblank, hquote, harray, hsymbol, hdigit, Bool.false_eq_true, if_false, if_true,
      htake, hdrop, htoken]
    rfl

/-- The empty text, and a symbol after it. -/
theorem spells_empty {c : Char} (hc : c ∈ ([',', '=', '(', ')'] : List Char)) :
    Spells ['\'', '\'', c] [.string [], .symbol c] 2 := by
  intro n ts rest
  have hempty : lex (n + 2) ts ('\'' :: '\'' :: c :: rest) =
      lex (n + 1) (.string [] :: ts) (c :: rest) := by
    simp only [List.mem_cons, List.not_mem_nil, or_false] at hc
    rcases hc with rfl | rfl | rfl | rfl <;> rfl
  exact hempty.trans (lex_cons_symbol hc n _ rest)

/-! ## Arrays -/

theorem isNumeralChar_of_mem {s : Str} (h : isNumeral s = true) : ∀ c ∈ s, isNumeralChar c = true := by
  rw [isNumeral, Bool.and_eq_true] at h
  exact List.all_eq_true.mp h.1

theorem length_le_join (parts : List Str) : parts.length ≤ (join ", " parts).length + 1 := by
  induction parts with
  | nil => simp
  | cons s parts ih =>
    cases parts with
    | nil => simp
    | cons t parts =>
      have hjoin : join ", " (s :: t :: parts) = s ++ (", " ++ join ", " (t :: parts)) := by
        simp [join, List.intercalate]
      have hseparator : (", " : Str).length = 2 := rfl
      rw [hjoin, List.length_append, List.length_append, hseparator]
      simp only [List.length_cons] at ih ⊢
      omega

/-- An array of numerals, as a list of floats is written, is read to its end. -/
theorem arrayLiteral_join {numerals : List Str} (hne : numerals ≠ [])
    (h : ∀ s ∈ numerals, isNumeral s = true) (rest : Str) {n : ℕ} (hn : numerals.length ≤ n) :
    arrayLiteral n (join ", " numerals ++ ']' :: rest) = some rest := by
  induction numerals generalizing n with
  | nil => exact absurd rfl hne
  | cons s numerals ih =>
    obtain ⟨n, rfl⟩ : ∃ m, n = m + 1 := ⟨n - 1, by simp at hn; omega⟩
    have hs := h s List.mem_cons_self
    have hchars := isNumeralChar_of_mem hs
    have htake (c : Char) (hc : isNumeralChar c = false) (more : Str) :=
      span_append (List.all_eq_true.mpr hchars) hc more
    cases numerals with
    | nil =>
      have htext : join ", " [s] ++ ']' :: rest = s ++ ']' :: rest := by simp [join]
      obtain ⟨hitem, hmore⟩ := htake ']' rfl rest
      rw [htext, arrayLiteral, hitem, if_pos hs, hmore]
      rfl
    | cons s' numerals =>
      have htext : join ", " (s :: s' :: numerals) ++ ']' :: rest =
          s ++ ',' :: ' ' :: (join ", " (s' :: numerals) ++ ']' :: rest) := by
        simp [join, List.intercalate]
      obtain ⟨hitem, hmore⟩ := htake ',' rfl (' ' :: (join ", " (s' :: numerals) ++ ']' :: rest))
      rw [htext, arrayLiteral, hitem, if_pos hs, hmore]
      have hlength : (s' :: numerals).length ≤ n := by
        simp only [List.length_cons] at hn ⊢
        omega
      exact ih (by simp) (fun t ht => h t (List.mem_cons_of_mem s ht)) hlength

end TechMart.Sql.Search
