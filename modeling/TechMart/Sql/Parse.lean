import TechMart.Python.Json
import TechMart.Sql.Select

/-!
# The text of a SELECT

Lexer and parser of the part of SQL that `Query` covers: string literals with
doubled quotes and backslash escapes, literals between `$tag$` marks, line and block
comments, `AND`, `OR`, `NOT`, parentheses and `UNION ALL`. Any other text is
outside it.
-/

namespace TechMart.Sql

open Python

namespace Parse

/-! ## Tokens -/

inductive Token where
  | word (s : Str)
  | string (s : Str)
  | number (n : Nat)
  | symbol (c : Char)
  | notEqual
  deriving DecidableEq

def isWordStart (c : Char) : Bool := c.isAlpha || c == '_'

def isWordChar (c : Char) : Bool := c.isAlphanum || c == '_'

def isBlank (c : Char) : Bool := c == ' ' || c == '\t' || c == '\n' || c == '\r'

/-- The body of a string literal, up to the quote that closes it, and the text
after it. A doubled quote is one in the body. -/
def closing : Str → Option (Str × Str)
  | '\'' :: '\'' :: s => (closing s).map fun r => ('\'' :: r.1, r.2)
  | '\'' :: s => some ([], s)
  | '\\' :: c :: s => (closing s).map fun r => ('\\' :: c :: r.1, r.2)
  | c :: s => (closing s).map fun r => (c :: r.1, r.2)
  | [] => none

/-- What a backslash with this character after it stands for. It stays before a
character that it does not escape. -/
def escape : Char → Option Str
  | 'x' => none
  | 'N' => some []
  | 'a' => some ['\x07']
  | 'b' => some ['\x08']
  | 'e' => some ['\x1b']
  | 'f' => some ['\x0c']
  | 'n' => some ['\n']
  | 'r' => some ['\r']
  | 't' => some ['\t']
  | 'v' => some ['\x0b']
  | '0' => some ['\x00']
  | c =>
    if c.toNat < 32 || c ∈ ['\\', '\'', '"', Char.ofNat 0x60, '/', '='] then some [c]
    else some ['\\', c]

/-- `\xHH`, where the byte is a character. -/
def hexEscape (high low : Char) : Option Str := do
  let byte := 16 * (← Json.hexDigit high) + (← Json.hexDigit low)
  if byte < 128 then some [Char.ofNat byte] else none

/-- The text that the body of a literal stands for; `none` where it has bytes
that are no characters by themselves. -/
def unescape : Str → Option Str
  | '\\' :: 'x' :: high :: low :: s => do some ((← hexEscape high low) ++ (← unescape s))
  | '\\' :: c :: s => do some ((← escape c) ++ (← unescape s))
  | c :: s => (unescape s).map (c :: ·)
  | [] => some []

/-- The text of a string literal and what comes after it; `none` where no quote
closes it. -/
def stringLiteral (s : Str) : Option (Option Str × Str) :=
  (closing s).map fun r => (unescape r.1, r.2)

/-- The text before the first `mark`, and the text after it. -/
def splitAtMark (mark : Str) : Str → Option (Str × Str)
  | [] => if mark.isPrefixOf [] then some ([], []) else none
  | c :: s =>
    if mark.isPrefixOf (c :: s) then some ([], (c :: s).drop mark.length)
    else (splitAtMark mark s).map fun r => (c :: r.1, r.2)

/-- The rest of a literal that a `$tag$` opened and the same `$tag$` closes. -/
def taggedLiteral (s : Str) : Option (Str × Str) := do
  let (tag, body) ← splitAtMark ['$'] s
  if tag.all isWordChar then splitAtMark ('$' :: tag ++ ['$']) body else none

/-- The rest of a block comment; nested ones are outside. -/
def blockComment : Str → Option Str
  | '*' :: '/' :: s => some s
  | '/' :: '*' :: _ => none
  | _ :: s => blockComment s
  | [] => none

/-- A number that has a type of its own; a greater one would be read as a float. -/
def numberToken (s : Str) : Option Token :=
  if s.all Char.isDigit && natOfDigits s < 2 ^ 63 then some (.number (natOfDigits s)) else none

def lex : ℕ → Str → Option (List Token)
  | 0, _ => none
  | _ + 1, [] => some []
  | n + 1, c :: s =>
    if isBlank c then lex n s
    else if c == '\'' then do
      let (text, rest) ← stringLiteral s
      let text ← text
      (lex n rest).map (.string text :: ·)
    else if c == '$' then do
      let (text, rest) ← taggedLiteral s
      (lex n rest).map (.string text :: ·)
    else if c == '-' then match s with
      | '-' :: rest => lex n (rest.dropWhile (· != '\n'))
      | _ => none
    else if c == '/' then match s with
      | '*' :: rest => do lex n (← blockComment rest)
      | _ => none
    else if c == '!' then match s with
      | '=' :: rest => (lex n rest).map (.notEqual :: ·)
      | _ => none
    else if c ∈ [',', '.', '=', '(', ')', '*'] then (lex n s).map (.symbol c :: ·)
    else if c.isDigit then do
      let token ← numberToken ((c :: s).takeWhile isWordChar)
      (lex n ((c :: s).dropWhile isWordChar)).map (token :: ·)
    else if isWordStart c then
      (lex n ((c :: s).dropWhile isWordChar)).map (.word ((c :: s).takeWhile isWordChar) :: ·)
    else none

/-- What comes first is the text up to the first `mark`. -/
theorem splitAtMark_append {mark s r : Str}
    (h : ∀ t u, s = t ++ u → u ≠ [] → ¬ mark <+: u ++ (mark ++ r)) :
    splitAtMark mark (s ++ (mark ++ r)) = some (s, r) := by
  induction s with
  | nil =>
    have hmark : mark.isPrefixOf (mark ++ r) = true := by simp
    cases mark with
    | nil =>
      cases r <;> simp [splitAtMark]
    | cons c mark =>
      rw [List.nil_append, List.cons_append, splitAtMark, ← List.cons_append, if_pos hmark]
      simp
  | cons c s ih =>
    have hne : ¬ mark.isPrefixOf (c :: (s ++ (mark ++ r))) = true := by
      rw [List.isPrefixOf_iff_prefix]
      exact h [] (c :: s) rfl (by simp)
    rw [List.cons_append, splitAtMark, if_neg hne, ih fun t u hs => h (c :: t) u (by rw [hs]; rfl)]
    rfl

/-- A tag longer than the text does not close before the end of the text. -/
theorem taggedLiteral_of_length {s : Str} {n : ℕ} (h : s.length ≤ n) (r : Str) :
    taggedLiteral (List.replicate n 'a' ++ '$' :: (s ++ ('$' :: List.replicate n 'a' ++ ['$']) ++ r)) =
      some (s, r) := by
  have htag := @splitAtMark_append ['$'] (List.replicate n 'a')
    (s ++ ('$' :: List.replicate n 'a' ++ ['$']) ++ r) (by
      intro t u htu hu hprefix
      obtain ⟨c, u, rfl⟩ := List.exists_cons_of_ne_nil hu
      have hc : c ∈ List.replicate n 'a' := by simp [htu]
      rw [List.eq_of_mem_replicate hc] at hprefix
      simp at hprefix)
  have hbody : splitAtMark ('$' :: List.replicate n 'a' ++ ['$'])
      (s ++ (('$' :: List.replicate n 'a' ++ ['$']) ++ r)) = some (s, r) := by
    apply splitAtMark_append
    intro t u hs hu hprefix
    -- the mark would have a dollar sign where its tag is
    have hlen : u.length ≤ n := by
      have := congrArg List.length hs
      simp only [List.length_append] at this
      omega
    have hpos : 0 < u.length := List.length_pos_iff.mpr hu
    obtain ⟨i, hi⟩ : ∃ i, u.length = i + 1 := ⟨u.length - 1, by omega⟩
    have hmark : ('$' :: List.replicate n 'a' ++ ['$'])[u.length]? = some 'a' := by
      rw [hi, List.cons_append, List.getElem?_cons_succ, List.getElem?_append_left (by simp; omega),
        List.getElem?_replicate, if_pos (by omega)]
    have := List.prefix_iff_getElem?.mp hprefix u.length (by simp; omega)
    rw [← List.getElem?_eq_getElem, hmark] at this
    simp at this
  simp only [taggedLiteral, Option.bind_eq_bind]
  have hshape : List.replicate n 'a' ++ '$' :: (s ++ ('$' :: List.replicate n 'a' ++ ['$']) ++ r) =
    List.replicate n 'a' ++ (['$'] ++ (s ++ ('$' :: List.replicate n 'a' ++ ['$']) ++ r)) := by simp
  have hword : (List.replicate n 'a').all isWordChar = true := by
    rw [List.all_eq_true]
    intro c hc
    rw [List.eq_of_mem_replicate hc]
    rfl
  rw [hshape, htag, Option.bind_some]
  simp only [hword, if_true]
  rw [List.append_assoc, hbody]

/-! ## Grammar -/

/-- The tokens after the keyword, if it comes next. -/
def keyword (k : Str) : List Token → Option (List Token)
  | .word w :: ts => if w.map Char.toUpper = k then some ts else none
  | _ => none

def reserved : List Str := ["SELECT", "FROM", "WHERE", "AND", "OR", "NOT", "UNION", "ALL"]

def name : List Token → Option (Str × List Token)
  | .word w :: ts => if w.map Char.toUpper ∈ reserved then none else some (w, ts)
  | _ => none

def column (ts : List Token) : Option ((Option Str × Str) × List Token) := do
  let (first, ts) ← name ts
  match ts with
  | .symbol '.' :: ts =>
    let (second, ts) ← name ts
    some ((some first, second), ts)
  | _ => some ((none, first), ts)

def scalar : List Token → Option (Scalar × List Token)
  | .string s :: ts => some (.literal (.str s), ts)
  | .number n :: ts => some (.literal (.int n), ts)
  | ts => (column ts).map fun r => (.column r.1.1 r.1.2, r.2)

def comparison (ts : List Token) : Option (Cond × List Token) := do
  let (a, ts) ← scalar ts
  match ts with
  | .symbol '=' :: ts =>
    let (b, ts) ← scalar ts
    some (.eq a b, ts)
  | .notEqual :: ts =>
    let (b, ts) ← scalar ts
    some (.ne a b, ts)
  | _ => none

mutual

def disjunction : ℕ → List Token → Option (Cond × List Token)
  | 0, _ => none
  | n + 1, ts => do
    let (p, ts) ← conjunction n ts
    match keyword "OR" ts with
    | some ts => (disjunction n ts).map fun r => (.or p r.1, r.2)
    | none => some (p, ts)

def conjunction : ℕ → List Token → Option (Cond × List Token)
  | 0, _ => none
  | n + 1, ts => do
    let (p, ts) ← negation n ts
    match keyword "AND" ts with
    | some ts => (conjunction n ts).map fun r => (.and p r.1, r.2)
    | none => some (p, ts)

def negation : ℕ → List Token → Option (Cond × List Token)
  | 0, _ => none
  | n + 1, ts => match keyword "NOT" ts with
    | some ts => (negation n ts).map fun r => (.not r.1, r.2)
    | none => match ts with
      | .symbol '(' :: ts => do
        let (p, ts) ← disjunction n ts
        match ts with
        | .symbol ')' :: ts => some (p, ts)
        | _ => none
      | _ => comparison ts

end

def columnList : ℕ → List Token → Option (List (Option Str × Str) × List Token)
  | 0, _ => none
  | n + 1, ts => do
    let (c, ts) ← column ts
    match ts with
    | .symbol ',' :: ts => (columnList n ts).map fun r => (c :: r.1, r.2)
    | _ => some ([c], ts)

def items (n : ℕ) : List Token → Option (Items × List Token)
  | .symbol '*' :: ts => some (.all, ts)
  | ts => (columnList n ts).map fun r => (.columns r.1, r.2)

def select (n : ℕ) (ts : List Token) : Option (Select × List Token) := do
  let ts ← keyword "SELECT" ts
  let (items, ts) ← items n ts
  let ts ← keyword "FROM" ts
  let (table, ts) ← name ts
  match keyword "WHERE" ts with
  | some ts => (disjunction n ts).map fun r => (⟨items, table, some r.1⟩, r.2)
  | none => some (⟨items, table, none⟩, ts)

def union : ℕ → List Token → Option Query
  | 0, _ => none
  | n + 1, ts => do
    let (s, ts) ← select n ts
    match ts with
    | [] => some [s]
    | ts => do
      let ts ← keyword "UNION" ts
      let ts ← keyword "ALL" ts
      (union n ts).map (s :: ·)

end Parse

def parse (sql : Str) : Option Query := do
  let ts ← Parse.lex (sql.length + 1) sql
  Parse.union (3 * ts.length + 3) ts

/-- The answer to a statement of this part of SQL. -/
def run (schema : Schema) (db : Database) (sql : Str) : Option Table :=
  (parse sql).bind fun q => (Query.eval schema db q).map Prod.snd

theorem run_of_eval {schema : Schema} {db : Database} {sql : Str} {q : Query} {kinds : List Kind}
    {t : Table} (hparse : parse sql = some q) (h : Query.eval schema db q = some (kinds, t)) :
    run schema db sql = some t := by
  rw [run, hparse, Option.bind_some, h]
  rfl

end TechMart.Sql
