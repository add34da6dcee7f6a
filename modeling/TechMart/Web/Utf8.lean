import TechMart.Python.Text

/-!
# UTF-8

`str.encode()` and `bytes.decode("utf-8", "replace")`. The decoder is a machine
over the bytes; where a character breaks off, the bytes read of it become one
replacement character.
-/

namespace TechMart.Web.Utf8

open Python

def replacement : Char := '\uFFFD'

def encode (s : Str) : List UInt8 := s.flatMap String.utf8EncodeChar

/-- A character begun: its value so far, how many bytes it is owed, and the
bounds of the next one. -/
structure Begun where
  value : Nat
  owed : Nat
  low : Nat
  high : Nat

/-- The least second byte: a lower one would encode a shorter character anew. -/
def lowAfter (b : Nat) : Nat := if b = 0xE0 then 0xA0 else if b = 0xF0 then 0x90 else 0x80

/-- Above the greatest second byte lie the surrogates and the end of Unicode. -/
def highAfter (b : Nat) : Nat := if b = 0xED then 0xA0 else if b = 0xF4 then 0x90 else 0xC0

def first (b : Nat) : Str × Option Begun :=
  if b < 0x80 then ([Char.ofNat b], none)
  else if b < 0xC2 then ([replacement], none)
  else if b < 0xE0 then ([], some ⟨b - 0xC0, 1, 0x80, 0xC0⟩)
  else if b < 0xF0 then ([], some ⟨b - 0xE0, 2, lowAfter b, highAfter b⟩)
  else if b < 0xF5 then ([], some ⟨b - 0xF0, 3, lowAfter b, highAfter b⟩)
  else ([replacement], none)

def next (begun : Begun) (b : Nat) : Str × Option Begun :=
  let value := 64 * begun.value + (b - 0x80)
  if begun.owed = 1 then ([Char.ofNat value], none)
  else ([], some ⟨value, begun.owed - 1, 0x80, 0xC0⟩)

def step : Option Begun → Nat → Str × Option Begun
  | none, b => first b
  | some begun, b =>
    if begun.low ≤ b ∧ b < begun.high then next begun b
    else (replacement :: (first b).1, (first b).2)

def decodeFrom : Option Begun → List UInt8 → Str
  | none, [] => []
  | some _, [] => [replacement]
  | begun, b :: bytes => (step begun b.toNat).1 ++ decodeFrom (step begun b.toNat).2 bytes

def decode (bytes : List UInt8) : Str := decodeFrom none bytes

@[simp]
theorem encode_nil : encode [] = [] := rfl

theorem char_bounds (c : Char) : c.toNat < 0xD800 ∨ 0xDFFF < c.toNat ∧ c.toNat < 0x110000 := by
  rcases c.valid with h | ⟨h, h'⟩
  · exact Or.inl h
  · exact Or.inr ⟨h, h'⟩

theorem first_two {b : Nat} (h : 0xC2 ≤ b ∧ b < 0xE0) :
    first b = ([], some ⟨b - 0xC0, 1, 0x80, 0xC0⟩) := by
  rw [first, if_neg (by omega), if_neg (by omega), if_pos h.2]

theorem first_three {b : Nat} (h : 0xE0 ≤ b ∧ b < 0xF0) :
    first b = ([], some ⟨b - 0xE0, 2, lowAfter b, highAfter b⟩) := by
  rw [first, if_neg (by omega), if_neg (by omega), if_neg (by omega), if_pos h.2]

theorem first_four {b : Nat} (h : 0xF0 ≤ b ∧ b < 0xF5) :
    first b = ([], some ⟨b - 0xF0, 3, lowAfter b, highAfter b⟩) := by
  rw [first, if_neg (by omega), if_neg (by omega), if_neg (by omega), if_neg (by omega), if_pos h.2]

theorem decodeFrom_cons (begun : Option Begun) (b : UInt8) (bytes : List UInt8) :
    decodeFrom begun (b :: bytes) =
      (step begun b.toNat).1 ++ decodeFrom (step begun b.toNat).2 bytes := by
  cases begun <;> rfl

/-- A byte within the bounds adds its six bits to the character begun. -/
theorem decodeFrom_more {value owed low high n : Nat} (h : low ≤ n ∧ n < high) (hn : n < 256)
    (howed : owed ≠ 1) (bytes : List UInt8) :
    decodeFrom (some ⟨value, owed, low, high⟩) (UInt8.ofNat n :: bytes) =
      decodeFrom (some ⟨64 * value + (n - 0x80), owed - 1, 0x80, 0xC0⟩) bytes := by
  have hbyte : (UInt8.ofNat n).toNat = n := UInt8.toNat_ofNat_of_lt' hn
  rw [decodeFrom_cons, hbyte, step, if_pos h, next, if_neg howed]
  rfl

/-- The last byte completes it. -/
theorem decodeFrom_last {value low high n : Nat} (h : low ≤ n ∧ n < high) (hn : n < 256)
    (bytes : List UInt8) :
    decodeFrom (some ⟨value, 1, low, high⟩) (UInt8.ofNat n :: bytes) =
      Char.ofNat (64 * value + (n - 0x80)) :: decodeFrom none bytes := by
  have hbyte : (UInt8.ofNat n).toNat = n := UInt8.toNat_ofNat_of_lt' hn
  rw [decodeFrom_cons, hbyte, step, if_pos h, next, if_pos rfl]
  rfl

theorem decodeFrom_first {n : Nat} {begun : Begun} (hn : n < 256)
    (h : first n = ([], some begun)) (bytes : List UInt8) :
    decodeFrom none (UInt8.ofNat n :: bytes) = decodeFrom (some begun) bytes := by
  have hbyte : (UInt8.ofNat n).toNat = n := UInt8.toNat_ofNat_of_lt' hn
  rw [decodeFrom_cons, hbyte, step, h]
  rfl

/-- A character is read back from its bytes, whatever follows them. -/
theorem decodeFrom_encodeChar (c : Char) (bytes : List UInt8) :
    decodeFrom none (String.utf8EncodeChar c ++ bytes) = c :: decodeFrom none bytes := by
  have hbounds := char_bounds c
  have hchar : Char.ofNat c.toNat = c := c.ofNat_toNat
  unfold String.utf8EncodeChar
  generalize hv : c.val.toNat = v
  rw [show c.toNat = v from hv] at *
  by_cases h1 : v ≤ 0x7f
  · rw [if_pos h1, List.singleton_append, decodeFrom_cons,
      UInt8.toNat_ofNat_of_lt' (by simp only [UInt8.size]; omega), step, first, if_pos (by omega),
      hchar]
    rfl
  by_cases h2 : v ≤ 0x7ff
  · rw [if_neg h1, if_pos h2]
    simp only [List.cons_append, List.nil_append]
    rw [decodeFrom_first (by omega) (first_two (by omega)),
      decodeFrom_last (by omega) (by omega)]
    refine congrArg (· :: decodeFrom none bytes) ((congrArg Char.ofNat ?_).trans hchar)
    omega
  by_cases h3 : v ≤ 0xffff
  · rw [if_neg h1, if_neg h2, if_pos h3]
    simp only [List.cons_append, List.nil_append]
    rw [decodeFrom_first (by omega) (first_three (by omega)),
      decodeFrom_more (by unfold lowAfter highAfter; split_ifs <;> omega) (by omega)
        (by decide), decodeFrom_last (by omega) (by omega)]
    refine congrArg (· :: decodeFrom none bytes) ((congrArg Char.ofNat ?_).trans hchar)
    omega
  · rw [if_neg h1, if_neg h2, if_neg h3]
    simp only [List.cons_append, List.nil_append]
    rw [decodeFrom_first (by omega) (first_four (by omega)),
      decodeFrom_more (by unfold lowAfter highAfter; split_ifs <;> omega) (by omega)
        (by decide), decodeFrom_more (by omega) (by omega) (by decide),
      decodeFrom_last (by omega) (by omega)]
    refine congrArg (· :: decodeFrom none bytes) ((congrArg Char.ofNat ?_).trans hchar)
    omega

theorem decode_encode (s : Str) : decode (encode s) = s := by
  induction s with
  | nil => rfl
  | cons c s ih =>
    rw [encode, List.flatMap_cons]
    exact (decodeFrom_encodeChar c _).trans (congrArg (c :: ·) ih)

theorem length_first (b : Nat) : (first b).1.length + (first b).2.isSome.toNat ≤ 1 := by
  unfold first
  repeat' split
  all_goals exact Nat.le_refl 1

theorem length_next (begun : Begun) (b : Nat) :
    (next begun b).1.length + (next begun b).2.isSome.toNat ≤ 1 := by
  unfold next
  split <;> exact Nat.le_refl 1

/-- A byte that breaks a character off can give two: the replacement, and itself. -/
theorem length_step (begun : Option Begun) (b : Nat) :
    (step begun b).1.length + (step begun b).2.isSome.toNat ≤ 1 + begun.isSome.toNat := by
  have hfirst := length_first b
  cases begun with
  | none => exact hfirst
  | some begun =>
    rw [step]
    split
    · exact (length_next begun b).trans (Nat.le_add_right 1 _)
    · simp only [List.length_cons, Option.isSome_some, Bool.toNat_true]
      omega

theorem length_decodeFrom (begun : Option Begun) (bytes : List UInt8) :
    (decodeFrom begun bytes).length ≤ bytes.length + begun.isSome.toNat := by
  induction bytes generalizing begun with
  | nil => cases begun <;> simp [decodeFrom]
  | cons b bytes ih =>
    have hstep := length_step begun b.toNat
    have hrest := ih (step begun b.toNat).2
    simp only [decodeFrom, List.length_append, List.length_cons]
    omega

/-- No character is read from less than one byte. -/
theorem length_decode (bytes : List UInt8) : (decode bytes).length ≤ bytes.length :=
  length_decodeFrom none bytes

end TechMart.Web.Utf8
