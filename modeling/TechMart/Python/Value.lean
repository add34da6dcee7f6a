import TechMart.Python.Text
import Mathlib.Data.Rat.Floor
import Mathlib.Data.List.Nodup

/-!
# Python values

The values that travel through JSON bodies, query results and the graph state.
A dict is an association list in insertion order with one entry per key.
Floats are exact rationals and the three special values; where a computation
would round, the rounding is the `Runtime`'s.
-/

namespace TechMart.Python

/-- An exception that is a subclass of `Exception`, by its text `str(e)`. -/
structure Exn where
  text : Str
  deriving DecidableEq, Repr

/-! ## Calls that may raise -/

theorem bind_ok {α β : Type} {x : Except Exn α} {f : α → Except Exn β} {b : β}
    (h : (x >>= f) = .ok b) : ∃ a, x = .ok a ∧ f a = .ok b := by
  cases x with
  | error e => cases h
  | ok a => exact ⟨a, rfl, h⟩

theorem map_ok {α β : Type} {x : Except Exn α} {f : α → β} {b : β} (h : x.map f = .ok b) :
    ∃ a, x = .ok a ∧ f a = b := by
  cases x with
  | error e => cases h
  | ok a =>
    cases h
    exact ⟨a, rfl, rfl⟩

theorem bind_isOk {α β : Type} {x : Except Exn α} {f : α → Except Exn β} :
    (x >>= f).isOk = true ↔ ∃ a, x = .ok a ∧ (f a).isOk = true := by
  cases x with
  | error e => simp [bind, Except.bind, Except.isOk, Except.toBool]
  | ok a => simp [bind, Except.bind]

theorem mapM_ok {α β : Type} {f : α → Except Exn β} {xs : List α} {ys : List β}
    (h : xs.mapM f = .ok ys) : List.Forall₂ (fun x y => f x = .ok y) xs ys := by
  induction xs generalizing ys with
  | nil =>
    cases h
    exact .nil
  | cons x xs ih =>
    rw [List.mapM_cons] at h
    obtain ⟨y, hy, h⟩ := bind_ok h
    obtain ⟨rest, hrest, h⟩ := bind_ok h
    cases h
    exact .cons hy (ih hrest)

theorem exists_mapM_ok {α β : Type} {f : α → Except Exn β} {xs : List α}
    (h : ∀ x ∈ xs, ∃ y, f x = .ok y) : ∃ ys, xs.mapM f = .ok ys := by
  induction xs with
  | nil => exact ⟨[], rfl⟩
  | cons x xs ih =>
    obtain ⟨y, hy⟩ := h x List.mem_cons_self
    obtain ⟨ys, hys⟩ := ih fun x' hx' => h x' (List.mem_cons_of_mem _ hx')
    refine ⟨y :: ys, ?_⟩
    rw [List.mapM_cons, hy, hys]
    rfl

theorem isOk_iff {α : Type} {x : Except Exn α} : x.isOk = true ↔ ∃ a, x = .ok a := by
  cases x <;> simp [Except.isOk, Except.toBool]

@[simp]
theorem ok_isOk {α : Type} (a : α) : (.ok a : Except Exn α).isOk = true := rfl

/-! ## Lists, element by element -/

theorem forall₂_of_mapM {α β : Type} {f : α → Option β} {as : List α} {bs : List β}
    (h : as.mapM f = some bs) : List.Forall₂ (fun a b => f a = some b) as bs := by
  induction as generalizing bs with
  | nil =>
    cases h
    exact .nil
  | cons a as ih =>
    simp only [List.mapM_cons, Option.bind_eq_bind, Option.bind_eq_some_iff, Option.pure_def,
      Option.some.injEq] at h
    obtain ⟨b, hb, rest, hrest, rfl⟩ := h
    exact .cons hb (ih hrest)

theorem exists_mapM_some {α β : Type} {f : α → Option β} {xs : List α}
    (h : ∀ x ∈ xs, (f x).isSome = true) : ∃ ys, xs.mapM f = some ys := by
  induction xs with
  | nil => exact ⟨[], rfl⟩
  | cons x xs ih =>
    obtain ⟨y, hy⟩ := Option.isSome_iff_exists.mp (h x List.mem_cons_self)
    obtain ⟨ys, hys⟩ := ih fun x' hx' => h x' (List.mem_cons_of_mem _ hx')
    refine ⟨y :: ys, ?_⟩
    rw [List.mapM_cons, hy, hys]
    rfl

theorem mem_of_forall₂ {α β : Type} {R : α → β → Prop} {as : List α} {bs : List β}
    (h : List.Forall₂ R as bs) {b : β} (hb : b ∈ bs) : ∃ a ∈ as, R a b := by
  induction h with
  | nil => cases hb
  | cons hab _ ih =>
    rcases List.mem_cons.mp hb with rfl | hb
    · exact ⟨_, List.mem_cons_self, hab⟩
    · obtain ⟨a, ha, hR⟩ := ih hb
      exact ⟨a, List.mem_cons_of_mem _ ha, hR⟩

theorem forall₂_comp {α β γ : Type} {R : α → β → Prop} {S : β → γ → Prop} {as : List α}
    {bs : List β} {cs : List γ} (h : List.Forall₂ R as bs) (h' : List.Forall₂ S bs cs) :
    List.Forall₂ (fun a c => ∃ b, R a b ∧ S b c) as cs := by
  induction h generalizing cs with
  | nil =>
    cases h'
    exact .nil
  | cons hR _ ih =>
    cases h' with
    | cons hS hrest => exact .cons ⟨_, hR, hS⟩ (ih hrest)

/-! ## Dicts -/

abbrev Dict (α : Type) := List (Str × α)

namespace Dict

variable {α : Type}

/-- `d.get(k)`, with `none` for a missing key. -/
def get? : Dict α → Str → Option α
  | [], _ => none
  | (k, v) :: d, key => if k = key then some v else get? d key

def getD (d : Dict α) (key : Str) (default : α) : α := (d.get? key).getD default

/-- `d[key] = v`: a present key keeps its place, a new one goes last. -/
def set : Dict α → Str → α → Dict α
  | [], key, v => [(key, v)]
  | (k, w) :: d, key, v => if k = key then (k, v) :: d else (k, w) :: set d key v

/-- `d.pop(key)`, without the value. -/
def pop (d : Dict α) (key : Str) : Dict α := d.filter fun kv => kv.1 ≠ key

def keys (d : Dict α) : List Str := d.map Prod.fst

/-- `dict(pairs)`: the last pair of a key wins. -/
def ofPairs (pairs : List (Str × α)) : Dict α := pairs.foldl (fun d kv => d.set kv.1 kv.2) []

@[simp]
theorem get?_set_self (d : Dict α) (key : Str) (v : α) : (d.set key v).get? key = some v := by
  induction d with
  | nil => simp [set, get?]
  | cons kv d ih =>
    simp only [set]
    split
    · simp_all [get?]
    · rename_i h
      simpa only [get?, if_neg h] using ih

@[simp]
theorem get?_set_ne (d : Dict α) {key other : Str} (h : key ≠ other) (v : α) :
    (d.set key v).get? other = d.get? other := by
  induction d with
  | nil => simp [set, get?, h]
  | cons kv d ih =>
    simp only [set]
    split
    · rename_i hk
      have : kv.1 ≠ other := hk ▸ h
      simp [get?, this]
    · simp only [get?, ih]

@[simp]
theorem keys_nil : keys ([] : Dict α) = [] := rfl

@[simp]
theorem keys_cons (kv : Str × α) (d : Dict α) : keys (kv :: d) = kv.1 :: keys d := rfl

theorem get?_isSome_iff (d : Dict α) (key : Str) : (d.get? key).isSome ↔ key ∈ d.keys := by
  induction d with
  | nil => simp [get?]
  | cons kv d ih =>
    simp only [get?, keys_cons, List.mem_cons]
    split
    · rename_i h
      simp [h]
    · rename_i h
      simp [ih, Ne.symm h]

theorem get?_of_mem {d : Dict α} (h : d.keys.Nodup) {kv : Str × α} (hkv : kv ∈ d) :
    d.get? kv.1 = some kv.2 := by
  induction d with
  | nil => cases hkv
  | cons e d ih =>
    rw [keys_cons, List.nodup_cons] at h
    rw [get?]
    rcases List.mem_cons.mp hkv with rfl | hkv
    · rw [if_pos rfl]
    · have hne : e.1 ≠ kv.1 := by
        intro heq
        exact h.1 (heq ▸ List.mem_map_of_mem hkv)
      rw [if_neg hne, ih h.2 hkv]

/-- Looking up every key of a dict goes through its entries. -/
theorem map_keys_get? {β : Type} {d : Dict α} (h : d.keys.Nodup) (f : Str → Option α → β) :
    d.keys.map (fun c => f c (d.get? c)) = d.map fun kv => f kv.1 (some kv.2) := by
  rw [keys, List.map_map]
  refine List.map_congr_left fun kv hkv => ?_
  rw [Function.comp_apply, get?_of_mem h hkv]

theorem ofPairs_append (pairs : List (Str × α)) (kv : Str × α) :
    ofPairs (pairs ++ [kv]) = (ofPairs pairs).set kv.1 kv.2 := by
  simp only [ofPairs, List.foldl_append, List.foldl_cons, List.foldl_nil]

theorem set_of_not_mem {d : Dict α} {key : Str} (h : key ∉ d.keys) (v : α) :
    d.set key v = d ++ [(key, v)] := by
  induction d with
  | nil => rfl
  | cons kv d ih =>
    rw [keys_cons, List.mem_cons, not_or] at h
    rw [set, if_neg (Ne.symm h.1), ih h.2, List.cons_append]

/-- A dict made of pairs with different keys is those pairs. -/
theorem ofPairs_of_nodup {pairs : List (Str × α)} (h : (keys pairs).Nodup) :
    ofPairs pairs = pairs := by
  induction pairs using List.reverseRecOn with
  | nil => rfl
  | append_singleton pairs kv ih =>
    rw [keys, List.map_append, List.nodup_append] at h
    obtain ⟨hpairs, -, hdisjoint⟩ := h
    have hnew : kv.1 ∉ keys pairs := fun hmem => hdisjoint _ hmem _ (List.mem_singleton_self _) rfl
    rw [ofPairs_append, ih hpairs, set_of_not_mem hnew]

/-- A dict made of pairs holds the last one of each key. -/
theorem get?_ofPairs (pairs : List (Str × α)) (key : Str) :
    (ofPairs pairs).get? key = (pairs.reverse.find? fun kv => kv.1 = key).map Prod.snd := by
  induction pairs using List.reverseRecOn with
  | nil => rfl
  | append_singleton pairs kv ih =>
    rw [ofPairs_append, List.reverse_append, List.reverse_singleton, List.singleton_append, List.find?_cons]
    by_cases hk : kv.1 = key
    · subst hk
      simp
    · rw [get?_set_ne _ hk, ih]
      simp [hk]

theorem get?_ofPairs_of_not_mem {pairs : List (Str × α)} {key : Str}
    (h : key ∉ pairs.map Prod.fst) : (ofPairs pairs).get? key = none := by
  rw [get?_ofPairs, Option.map_eq_none_iff, List.find?_eq_none]
  intro kv hkv hkey
  exact h (List.mem_map.mpr ⟨kv, List.mem_reverse.mp hkv, by simpa using hkey⟩)

/-- What a dict holds is one of the pairs it was made of. -/
theorem mem_of_get?_ofPairs {pairs : List (Str × α)} {key : Str} {v : α}
    (h : (ofPairs pairs).get? key = some v) : (key, v) ∈ pairs := by
  rw [get?_ofPairs, Option.map_eq_some_iff] at h
  obtain ⟨kv, hfind, rfl⟩ := h
  have hkey : kv.1 = key := by simpa using List.find?_some hfind
  rw [← hkey]
  exact List.mem_reverse.mp (List.mem_of_find?_eq_some hfind)

theorem keys_pop (d : Dict α) (key : Str) : (d.pop key).keys = d.keys.filter fun k => k ≠ key := by
  rw [pop, keys, keys, List.filter_map]
  rfl

@[simp]
theorem get?_pop_self (d : Dict α) (key : Str) : (d.pop key).get? key = none := by
  rw [← Option.not_isSome_iff_eq_none, get?_isSome_iff]
  simp [pop, keys]

theorem get?_pop_ne (d : Dict α) {key other : Str} (h : key ≠ other) :
    (d.pop key).get? other = d.get? other := by
  induction d with
  | nil => rfl
  | cons kv d ih =>
    simp only [pop] at ih ⊢
    by_cases hk : kv.1 = key
    · have hother : kv.1 ≠ other := fun heq => h (hk.symm.trans heq)
      rw [List.filter_cons_of_neg (by simpa using hk), ih, get?, if_neg hother]
    · rw [List.filter_cons_of_pos (by simpa using hk), get?, get?, ih]

theorem mem_keys_set (d : Dict α) (key other : Str) (v : α) :
    other ∈ (d.set key v).keys ↔ other = key ∨ other ∈ d.keys := by
  rw [← get?_isSome_iff, ← get?_isSome_iff]
  by_cases h : key = other
  · subst h
    simp
  · rw [get?_set_ne d h]
    simp [Ne.symm h]

theorem keys_zip {cols : List Str} {values : List α} (h : values.length = cols.length) :
    keys (cols.zip values) = cols :=
  List.map_fst_zip (Nat.le_of_eq h.symm)

/-- Pairing keys with what a function makes of them looks the function up. -/
theorem get?_zip_map {keys : List Str} (f : Str → α) {key : Str} (h : key ∈ keys) :
    get? (keys.zip (keys.map f)) key = some (f key) := by
  induction keys with
  | nil => cases h
  | cons k keys ih =>
    simp only [List.map_cons, List.zip_cons_cons, get?]
    split
    · rename_i hk
      rw [hk]
    · rename_i hk
      exact ih ((List.mem_cons.mp h).resolve_left (Ne.symm hk))

theorem get?_zip_mapM {keys : List Str} {f : Str → Option α} {vals : List α}
    (hvals : keys.mapM f = some vals) {key : Str} (h : key ∈ keys) :
    ∃ v, f key = some v ∧ get? (keys.zip vals) key = some v := by
  induction keys generalizing vals with
  | nil => cases h
  | cons k keys ih =>
    simp only [List.mapM_cons, Option.bind_eq_bind, Option.bind_eq_some_iff, Option.pure_def,
      Option.some.injEq] at hvals
    obtain ⟨v, hv, rest, hrest, rfl⟩ := hvals
    simp only [List.zip_cons_cons, get?]
    split
    · rename_i hk
      exact ⟨v, hk ▸ hv, rfl⟩
    · rename_i hk
      exact ih hrest ((List.mem_cons.mp h).resolve_left (Ne.symm hk))

end Dict

/-! ## Values -/

inductive PyFloat where
  | finite (q : ℚ)
  | inf (negative : Bool)
  | nan
  deriving DecidableEq

inductive Value where
  | none
  | bool (b : Bool)
  | int (n : Int)
  | float (x : PyFloat)
  | str (s : Str)
  | list (xs : List Value)
  | dict (kvs : List (Str × Value))
  | date (year month day : Nat)

namespace Value

/-- `bool(v)`. -/
def truthy : Value → Bool
  | none => false
  | bool b => b
  | int n => n ≠ 0
  | float x => x ≠ .finite 0
  | str s => !s.isEmpty
  | list xs => !xs.isEmpty
  | dict kvs => !kvs.isEmpty
  | date .. => true

/-- `v or w`. -/
def orElse (v w : Value) : Value := if v.truthy then v else w

end Value

/-! ## Text of a value -/

/-- `str(n)` of a natural number. -/
def natStr (n : Nat) : Str := Nat.toDigits 10 n

def intStr : Int → Str
  | .ofNat n => natStr n
  | .negSucc n => '-' :: natStr (n + 1)

/-- The format `{n:0wd}` of a natural number. -/
def padded (width n : Nat) : Str :=
  List.replicate (width - (natStr n).length) '0' ++ natStr n

theorem isDigit_of_mem_natStr {n : Nat} {c : Char} (h : c ∈ natStr n) : c.isDigit = true :=
  Nat.isDigit_of_mem_toDigits (by decide) (by decide) h

theorem isDigit_of_mem_padded {w n : Nat} {c : Char} (h : c ∈ padded w n) : c.isDigit = true := by
  rcases List.mem_append.mp h with h | h
  · rw [List.eq_of_mem_replicate h]
    rfl
  · exact isDigit_of_mem_natStr h

theorem padded_ne_nil (w n : Nat) : padded w n ≠ [] := by
  simp [padded, natStr, Nat.toDigits_ne_nil]

/-- The value a decimal numeral denotes, leading zeros included. -/
def natOfDigits (s : Str) : Nat := Nat.ofDigitChars 10 s 0

@[simp]
theorem natOfDigits_padded (w n : Nat) : natOfDigits (padded w n) = n := by
  simp [natOfDigits, padded, natStr, Nat.ofDigitChars_append, Nat.ofDigitChars_replicate_zero]

theorem padded_injective {w m n : Nat} (h : padded w m = padded w n) : m = n := by
  have := congrArg natOfDigits h
  simpa using this

/-- What the code takes from the interpreter besides the language itself: the
Unicode tables, the text of a float and of a quoted string, the rounding of a
numeral to a float, and the texts of the errors of `json.loads` and of a
pydantic validation. -/
structure Runtime extends Unicode where
  floatRepr : PyFloat → Str
  strRepr : Str → Str
  floatOfStr : Str → Option PyFloat
  floatOfInt : Int → Option PyFloat
  jsonError : Str → Str
  validationError : Value → Str

namespace Runtime

variable (rt : Runtime)

mutual

/-- `repr(v)`. -/
def repr : Value → Str
  | .none => "None"
  | .bool true => "True"
  | .bool false => "False"
  | .int n => intStr n
  | .float x => rt.floatRepr x
  | .str s => rt.strRepr s
  | .list xs => "[" ++ join ", " (reprList xs) ++ "]"
  | .dict kvs => ['\x7b'] ++ join ", " (reprPairs kvs) ++ ['\x7d']
  | .date y m d => "datetime.date(" ++ join ", " [natStr y, natStr m, natStr d] ++ ")"

def reprList : List Value → List Str
  | [] => []
  | v :: vs => repr v :: reprList vs

def reprPairs : List (Str × Value) → List Str
  | [] => []
  | (k, v) :: kvs => (rt.strRepr k ++ ": " ++ repr v) :: reprPairs kvs

end

/-- `str(v)`. -/
def str : Value → Str
  | .str s => s
  | .date y m d => padded 4 y ++ "-" ++ padded 2 m ++ "-" ++ padded 2 d
  | v => rt.repr v

@[simp]
theorem str_str (s : Str) : rt.str (.str s) = s := rfl

@[simp]
theorem str_none : rt.str .none = "None" := rfl

/-- The digits of an `int` numeral: single underscores may separate them. -/
def intDigits : (acc : Nat) → (afterDigit : Bool) → Str → Option Nat
  | acc, afterDigit, [] => if afterDigit then some acc else none
  | acc, afterDigit, c :: s =>
    match rt.decimal c with
    | some d => intDigits (10 * acc + d) true s
    | none => if c = '_' && afterDigit then intDigits acc false s else none

/-- `int(s)` of a string, `none` for its `ValueError`. The interpreter's limit on
the number of digits, which can be configured, is left out. -/
def intOfStr (s : Str) : Option Int :=
  match strip s with
  | '+' :: t => (rt.intDigits 0 false t).map Int.ofNat
  | '-' :: t => (rt.intDigits 0 false t).map fun n => -Int.ofNat n
  | t => (rt.intDigits 0 false t).map Int.ofNat

/-- `int(v)`. -/
def int : Value → Except Exn Int
  | .bool b => .ok b.toInt
  | .int n => .ok n
  | .float (.finite q) => .ok (if q < 0 then -⌊-q⌋ else ⌊q⌋)
  | .float _ => .error ⟨"cannot convert float to integer"⟩
  | .str s => match rt.intOfStr s with
    | some n => .ok n
    | none => .error ⟨"invalid literal for int() with base 10: " ++ rt.strRepr s⟩
  | _ => .error ⟨"int() argument must be a string or a real number"⟩

/-- `float(v)`. -/
def float : Value → Except Exn PyFloat
  | .bool b => .ok (.finite b.toInt)
  | .int n => match rt.floatOfInt n with
    | some x => .ok x
    | none => .error ⟨"int too large to convert to float"⟩
  | .float x => .ok x
  | .str s => match rt.floatOfStr s with
    | some x => .ok x
    | none => .error ⟨"could not convert string to float: " ++ rt.strRepr s⟩
  | _ => .error ⟨"float() argument must be a string or a real number"⟩

theorem intDigits_digits {s : Str} (h : ∀ c ∈ s, c.isDigit = true) (acc : Nat) (afterDigit : Bool)
    (hs : s ≠ [] ∨ afterDigit = true) :
    rt.intDigits acc afterDigit s = some (Nat.ofDigitChars 10 s acc) := by
  induction s generalizing acc afterDigit with
  | nil => simpa [intDigits] using hs
  | cons c s ih =>
    have hc := h c List.mem_cons_self
    have hascii : c.toNat < 128 := by
      have := Char.isDigit_iff_toNat.mp hc
      simp only [Char.reduceToNat] at this
      omega
    have hdecimal : rt.decimal c = some (c.toNat - '0'.toNat) := by
      simp [rt.decimal_ascii c hascii, asciiDigit, hc]
    simp only [intDigits, hdecimal, Nat.ofDigitChars_cons]
    exact ih (fun d hd => h d (List.mem_cons_of_mem c hd)) _ true (Or.inr rfl)

/-- `int` reads back a padded number. -/
theorem intOfStr_padded (w n : Nat) : rt.intOfStr (padded w n) = some n := by
  have hdigit : ∀ c ∈ padded w n, c.isDigit = true := fun _ => isDigit_of_mem_padded
  have hspace : ∀ c ∈ padded w n, isspace c = false := fun c hc => isspace_of_isDigit (hdigit c hc)
  have hread := rt.intDigits_digits hdigit 0 false (Or.inl (padded_ne_nil w n))
  have hvalue : Nat.ofDigitChars 10 (padded w n) 0 = n := natOfDigits_padded w n
  rw [hvalue] at hread
  rw [intOfStr, strip_of_forall hspace]
  split
  · rename_i t heq
    have := hdigit '+' (heq ▸ List.mem_cons_self)
    cases this
  · rename_i t heq
    have := hdigit '-' (heq ▸ List.mem_cons_self)
    cases this
  · rw [hread]
    rfl

/-- A runtime for ASCII text, whole floats and quotes without escapes. -/
def ascii : Runtime where
  toUnicode := Unicode.ascii
  floatRepr
    | .finite q => intStr q.num ++ ".0"
    | .inf negative => if negative then "-inf" else "inf"
    | .nan => "nan"
  strRepr s := '\'' :: s ++ ['\'']
  floatOfStr s := if s.isEmpty || !s.all Char.isDigit then none else some (.finite (natOfDigits s))
  floatOfInt n := some (.finite n)
  jsonError _ := "Expecting value: line 1 column 1 (char 0)"
  validationError _ := "validation error"

end Runtime

end TechMart.Python
