import TechMart.Python.Value

/-!
# JSON

`json.loads` as a recursive descent over the text, and `json.dumps` of a
string. `string_quote` is the round trip of strings and `loads_field` that of
an object with one string field. A `\u` escape of half a surrogate pair, which
no `Char` can hold, reads as the replacement character.
-/

namespace TechMart.Python.Json

def isWs (c : Char) : Bool := c == ' ' || c == '\t' || c == '\n' || c == '\r'

def skipWs (s : Str) : Str := s.dropWhile isWs

def hexDigit (c : Char) : Option Nat :=
  if c.isDigit then some (c.toNat - '0'.toNat)
  else if 'a' ≤ c ∧ c ≤ 'f' then some (c.toNat - 'a'.toNat + 10)
  else if 'A' ≤ c ∧ c ≤ 'F' then some (c.toNat - 'A'.toNat + 10)
  else none

def hex4 (a b c d : Char) : Option Nat := do
  let a ← hexDigit a
  let b ← hexDigit b
  let c ← hexDigit c
  let d ← hexDigit d
  some (((a * 16 + b) * 16 + c) * 16 + d)

/-- The character after a backslash, other than `u`. -/
def simpleEscape : Char → Option Char
  | '"' => some '"'
  | '\\' => some '\\'
  | '/' => some '/'
  | 'b' => some '\x08'
  | 'f' => some '\x0c'
  | 'n' => some '\n'
  | 'r' => some '\r'
  | 't' => some '\t'
  | _ => none

def consUnit (n : Nat) (rest : Option (List Nat × Str)) : Option (List Nat × Str) :=
  rest.map fun r => (n :: r.1, r.2)

/-- The code units up to the closing quote, and the text after it. -/
def stringUnits : Str → Option (List Nat × Str)
  | [] => none
  | '"' :: s => some ([], s)
  | '\\' :: 'u' :: a :: b :: c :: d :: s => (hex4 a b c d).bind fun n => consUnit n (stringUnits s)
  | '\\' :: c :: s => (simpleEscape c).bind fun e => consUnit e.toNat (stringUnits s)
  | c :: s => if c.toNat < 32 then none else consUnit c.toNat (stringUnits s)

def isHigh (n : Nat) : Bool := 0xD800 ≤ n && n ≤ 0xDBFF

def isLow (n : Nat) : Bool := 0xDC00 ≤ n && n ≤ 0xDFFF

def unitChar (n : Nat) : Char :=
  if isHigh n || isLow n then '\uFFFD' else Char.ofNat n

/-- Surrogate pairs become one character. -/
def joinUnits : List Nat → Str
  | [] => []
  | [n] => [unitChar n]
  | m :: n :: rest =>
    if isHigh m && isLow n then
      Char.ofNat (0x10000 + (m - 0xD800) * 0x400 + (n - 0xDC00)) :: joinUnits rest
    else unitChar m :: joinUnits (n :: rest)

/-- A string literal after its opening quote. -/
def string (s : Str) : Option (Str × Str) :=
  (stringUnits s).map fun r => (joinUnits r.1, r.2)

/-- The longest numeral at the head of the text. -/
def number (rt : Runtime) (s : Str) : Option (Value × Str) :=
  let sign := s.takeWhile (· == '-') |>.take 1
  let body := s.drop sign.length
  let whole := match body with
    | '0' :: _ => ['0']
    | _ => body.takeWhile Char.isDigit
  let afterWhole := body.drop whole.length
  let frac := match afterWhole with
    | '.' :: t => match t.takeWhile Char.isDigit with
      | [] => []
      | ds => '.' :: ds
    | _ => []
  let afterFrac := afterWhole.drop frac.length
  let expo := match afterFrac with
    | e :: t =>
      if e == 'e' || e == 'E' then
        let expoSign := match t with
          | c :: _ => if c == '+' || c == '-' then [c] else []
          | [] => []
        match (t.drop expoSign.length).takeWhile Char.isDigit with
        | [] => []
        | ds => e :: (expoSign ++ ds)
      else []
    | [] => []
  if whole.isEmpty then none
  else if frac.isEmpty && expo.isEmpty then
    let n := natOfDigits whole
    some (.int (if sign.isEmpty then (n : Int) else -(n : Int)), afterWhole)
  else (rt.floatOfStr (sign ++ whole ++ frac ++ expo)).map fun x =>
    (.float x, afterFrac.drop expo.length)

/-- A literal name, else a numeral. -/
def atom (rt : Runtime) (s : Str) : Option (Value × Str) :=
  let names : List (Str × Value) := [("null", .none), ("true", .bool true), ("false", .bool false),
    ("NaN", .float .nan), ("Infinity", .float (.inf false)), ("-Infinity", .float (.inf true))]
  match names.find? fun nv => nv.1.isPrefixOf s with
  | some (name, v) => some (v, s.drop name.length)
  | none => number rt s

mutual

/-- A value at the head of the text. The fuel bounds the nesting and the
number of members, so the length of the text is enough. -/
def value (rt : Runtime) : Nat → Str → Option (Value × Str)
  | 0, _ => none
  | n + 1, s => match s with
    | '"' :: t => (string t).map fun r => (.str r.1, r.2)
    | '[' :: t => match skipWs t with
      | ']' :: r => some (.list [], r)
      | t => (elements rt n t).map fun r => (.list r.1, r.2)
    | '\x7b' :: t => match skipWs t with
      | '\x7d' :: r => some (.dict [], r)
      | t => (members rt n t).map fun r => (.dict (Dict.ofPairs r.1), r.2)
    | s => atom rt s

def elements (rt : Runtime) : Nat → Str → Option (List Value × Str)
  | 0, _ => none
  | n + 1, s => (value rt n s).bind fun (v, s) => match skipWs s with
    | ',' :: s => (elements rt n (skipWs s)).map fun r => (v :: r.1, r.2)
    | ']' :: s => some ([v], s)
    | _ => none

def members (rt : Runtime) : Nat → Str → Option (List (Str × Value) × Str)
  | 0, _ => none
  | n + 1, s => match s with
    | '"' :: s => (string s).bind fun (k, s) => match skipWs s with
      | ':' :: s => (value rt n (skipWs s)).bind fun (v, s) => match skipWs s with
        | ',' :: s => (members rt n (skipWs s)).map fun r => ((k, v) :: r.1, r.2)
        | '\x7d' :: s => some ([(k, v)], s)
        | _ => none
      | _ => none
    | _ => none

end

/-- `json.loads(s)`. -/
def loads (rt : Runtime) (s : Str) : Except Exn Value :=
  match value rt (s.length + 1) (skipWs s) with
  | some (v, r) => if (skipWs r).isEmpty then .ok v else .error ⟨rt.jsonError s⟩
  | none => .error ⟨rt.jsonError s⟩

/-! ## Writing strings -/

def hexChar (n : Nat) : Char := Nat.digitChar (n % 16)

def quoteChar (c : Char) : Str :=
  if c = '"' then ['\\', '"']
  else if c = '\\' then ['\\', '\\']
  else if c.toNat < 32 then ['\\', 'u', '0', '0', hexChar (c.toNat / 16), hexChar c.toNat]
  else [c]

/-- The literal `json.dumps` writes for a string, after its opening quote. -/
def quoteTail (s : Str) : Str := s.flatMap quoteChar ++ ['"']

/-- `json.dumps(s, ensure_ascii=False)`. -/
def quote (s : Str) : Str := '"' :: quoteTail s

/-! ## Writing values -/

/-- `\uXXXX` of one code unit. -/
def unitEscape (n : Nat) : Str :=
  ['\\', 'u', hexChar (n / 4096), hexChar (n / 256), hexChar (n / 16), hexChar n]

/-- A character as `json.dumps` writes it with `ensure_ascii`. -/
def asciiChar (c : Char) : Str :=
  let n := c.toNat
  if c = '"' then ['\\', '"']
  else if c = '\\' then ['\\', '\\']
  else if c = '\n' then ['\\', 'n']
  else if c = '\r' then ['\\', 'r']
  else if c = '\t' then ['\\', 't']
  else if n = 8 then ['\\', 'b']
  else if n = 12 then ['\\', 'f']
  else if 32 ≤ n ∧ n ≤ 126 then [c]
  else if n < 0x10000 then unitEscape n
  else unitEscape (0xD800 + (n - 0x10000) / 1024) ++ unitEscape (0xDC00 + (n - 0x10000) % 1024)

def asciiQuote (s : Str) : Str := '"' :: s.flatMap asciiChar ++ ['"']

def floatText (rt : Runtime) : PyFloat → Str
  | .nan => "NaN"
  | .inf false => "Infinity"
  | .inf true => "-Infinity"
  | x => rt.floatRepr x

mutual

/-- `json.dumps(v)`. -/
def dumps (rt : Runtime) : Value → Except Exn Str
  | .none => .ok "null"
  | .bool true => .ok "true"
  | .bool false => .ok "false"
  | .int n => .ok (intStr n)
  | .float x => .ok (floatText rt x)
  | .str s => .ok (asciiQuote s)
  | .list xs => (dumpsList rt xs).map fun texts => "[" ++ join ", " texts ++ "]"
  | .dict kvs => (dumpsPairs rt kvs).map fun texts => ['\x7b'] ++ join ", " texts ++ ['\x7d']
  | .date .. => .error ⟨"Object of type date is not JSON serializable"⟩

def dumpsList (rt : Runtime) : List Value → Except Exn (List Str)
  | [] => .ok []
  | v :: vs => do
    let text ← dumps rt v
    let texts ← dumpsList rt vs
    .ok (text :: texts)

def dumpsPairs (rt : Runtime) : List (Str × Value) → Except Exn (List Str)
  | [] => .ok []
  | (k, v) :: kvs => do
    let text ← dumps rt v
    let texts ← dumpsPairs rt kvs
    .ok ((asciiQuote k ++ ": " ++ text) :: texts)

end

theorem hex4_control : ∀ n < 32, hex4 '0' '0' (hexChar (n / 16)) (hexChar n) = some n := by
  decide

theorem stringUnits_quoteChar (c : Char) (s : Str) :
    stringUnits (quoteChar c ++ s) = consUnit c.toNat (stringUnits s) := by
  unfold quoteChar
  split
  · rename_i h
    subst h
    rfl
  · split
    · rename_i h
      subst h
      rfl
    · split
      · rename_i hcontrol
        simp only [List.cons_append, List.nil_append, stringUnits, hex4_control _ hcontrol,
          Option.bind_some]
      · rename_i hquote hback hcontrol
        simp only [List.cons_append, List.nil_append]
        rw [stringUnits.eq_def]
        split <;> simp_all

theorem stringUnits_quoteTail (s r : Str) :
    stringUnits (quoteTail s ++ r) = some (s.map Char.toNat, r) := by
  induction s with
  | nil => rfl
  | cons c s ih =>
    have : quoteTail (c :: s) ++ r = quoteChar c ++ (quoteTail s ++ r) := by
      simp [quoteTail, List.append_assoc]
    rw [this, stringUnits_quoteChar, ih]
    rfl

theorem not_surrogate (c : Char) : isHigh c.toNat = false ∧ isLow c.toNat = false := by
  have h := c.valid
  simp only [UInt32.isValidChar, Nat.isValidChar] at h
  have hn : c.toNat = c.val.toNat := rfl
  simp only [isHigh, isLow, Bool.and_eq_false_iff, decide_eq_false_iff_not, hn]
  omega

theorem unitChar_toNat (c : Char) : unitChar c.toNat = c := by
  simp [unitChar, not_surrogate c]

theorem joinUnits_map (s : Str) : joinUnits (s.map Char.toNat) = s := by
  induction s with
  | nil => rfl
  | cons c s ih =>
    cases s with
    | nil => simp [joinUnits, unitChar_toNat]
    | cons d s =>
      simp only [List.map_cons] at ih ⊢
      rw [joinUnits, (not_surrogate c).1, Bool.false_and, if_neg Bool.false_ne_true,
        unitChar_toNat, ih]

/-- Reading back a written string gives the string. -/
theorem string_quote (s r : Str) : string (quoteTail s ++ r) = some (s, r) := by
  simp [string, stringUnits_quoteTail, joinUnits_map]

/-- The object `{"key": "text"}`. -/
def objectField (key text : Str) : Str :=
  '\x7b' :: quote key ++ [':', ' '] ++ quote text ++ ['\x7d']

theorem value_string (rt : Runtime) (n : Nat) (s r : Str) :
    value rt (n + 1) ('"' :: (quoteTail s ++ r)) = some (.str s, r) := by
  simp [value, string_quote]

theorem members_last (rt : Runtime) (n : Nat) (key text r : Str) :
    members rt (n + 2) ('"' :: (quoteTail key ++ ':' :: ' ' :: '"' :: (quoteTail text ++ '\x7d' :: r))) =
      some ([(key, .str text)], r) := by
  have hcolon (t : Str) : skipWs (':' :: t) = ':' :: t := rfl
  have hspace (t : Str) : skipWs (' ' :: '"' :: t) = '"' :: t := rfl
  have hclose : skipWs ('\x7d' :: r) = '\x7d' :: r := rfl
  rw [members]
  simp only [string_quote, Option.bind_some, hcolon, hspace, value_string, hclose]

theorem value_object (rt : Runtime) (n : Nat) (t : Str) :
    value rt (n + 1) ('\x7b' :: '"' :: t) =
      (members rt n ('"' :: t)).map fun r => (.dict (Dict.ofPairs r.1), r.2) := by
  rw [value]
  rfl

theorem value_field (rt : Runtime) (n : Nat) (key text : Str) :
    value rt (n + 3) (objectField key text) = some (.dict [(key, .str text)], []) := by
  have hshape : objectField key text =
      '\x7b' :: '"' :: (quoteTail key ++ (':' :: ' ' :: '"' :: (quoteTail text ++ ['\x7d']))) := by
    simp [objectField, quote, List.append_assoc]
  rw [hshape, value_object, members_last]
  rfl

/-- An object with one string field, written out, loads as that object. -/
theorem loads_field (rt : Runtime) (key text : Str) :
    loads rt (objectField key text) = .ok (.dict [(key, .str text)]) := by
  have hlen : ∃ n, (objectField key text).length + 1 = n + 3 :=
    ⟨(objectField key text).length - 2, by simp [objectField, quote]⟩
  obtain ⟨n, hn⟩ := hlen
  have hws : skipWs (objectField key text) = objectField key text := rfl
  simp only [loads, hws, hn, value_field]
  rfl

end TechMart.Python.Json
