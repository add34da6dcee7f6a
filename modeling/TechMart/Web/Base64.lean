import TechMart.Python.Text

/-!
# Base64

`base64.b64encode`, and the two decoders. `atob`, as browsers have it, drops
white space and padding first, then reads four letters at a time;
`base64.b64decode` reads letter by letter and skips what is none.
-/

namespace TechMart.Web.Base64

open Python

/-- The letter of six bits. -/
def letter (n : Nat) : Char :=
  if n < 26 then Char.ofNat (65 + n)
  else if n < 52 then Char.ofNat (97 + (n - 26))
  else if n < 62 then Char.ofNat (48 + (n - 52))
  else if n = 62 then '+' else '/'

def value (c : Char) : Option Nat :=
  if 'A' ≤ c ∧ c ≤ 'Z' then some (c.toNat - 65)
  else if 'a' ≤ c ∧ c ≤ 'z' then some (c.toNat - 97 + 26)
  else if '0' ≤ c ∧ c ≤ '9' then some (c.toNat - 48 + 52)
  else if c = '+' then some 62
  else if c = '/' then some 63
  else none

/-- The letters of some bytes, without padding. -/
def letters : List UInt8 → List Nat
  | [] => []
  | [a] => [a.toNat / 4, a.toNat % 4 * 16]
  | [a, b] => [a.toNat / 4, a.toNat % 4 * 16 + b.toNat / 16, b.toNat % 16 * 4]
  | a :: b :: c :: rest =>
    a.toNat / 4 :: (a.toNat % 4 * 16 + b.toNat / 16) :: (b.toNat % 16 * 4 + c.toNat / 64) ::
      c.toNat % 64 :: letters rest

/-- How many padding characters follow the letters. -/
def padding : List UInt8 → Nat
  | [] => 0
  | [_] => 2
  | [_, _] => 1
  | _ :: _ :: _ :: rest => padding rest

def b64encode (bytes : List UInt8) : Str :=
  (letters bytes).map letter ++ List.replicate (padding bytes) '='

def isAsciiSpace (c : Char) : Bool :=
  c == ' ' || c == '\t' || c == '\n' || c == '\x0c' || c == '\r'

/-- Up to two padding characters at the end of full groups are dropped. -/
def dropPadding (s : Str) : Str :=
  if s.length % 4 = 0 then
    if endswith s "==" then sliceDropLast s 2
    else if endswith s "=" then sliceDropLast s 1
    else s
  else s

/-- The bytes of these groups of six bits; a single one is no byte. -/
def bytesOf : List Nat → Option (List UInt8)
  | [] => some []
  | [_] => none
  | [a, b] => some [UInt8.ofNat (a * 4 + b / 16)]
  | [a, b, c] => some [UInt8.ofNat (a * 4 + b / 16), UInt8.ofNat (b % 16 * 16 + c / 4)]
  | a :: b :: c :: d :: rest => (bytesOf rest).map fun bytes =>
    UInt8.ofNat (a * 4 + b / 16) :: UInt8.ofNat (b % 16 * 16 + c / 4) ::
      UInt8.ofNat (c % 4 * 64 + d) :: bytes

/-- The numbers of the letters; anything else is an error. -/
def values : Str → Option (List Nat)
  | [] => some []
  | c :: s => (value c).bind fun n => (values s).map (n :: ·)

def atob (s : Str) : Option (List UInt8) :=
  (values (dropPadding (s.filter fun c => !isAsciiSpace c))).bind bytesOf

/-- `binascii.a2b_base64`, where it is not strict: the place in the group of four,
the bits left over from the letter before, and the padding seen. -/
def a2b (quad left pads : Nat) : Str → Option (List UInt8)
  | [] => if quad = 0 then some [] else none
  | c :: s =>
    if c = '=' then
      -- enough padding ends the data, whatever follows
      if 2 ≤ quad then if 4 ≤ quad + (pads + 1) then some [] else a2b quad left (pads + 1) s
      else a2b quad left pads s
    else
      match value c with
      | none => a2b quad left pads s
      | some n =>
        if quad = 0 then a2b 1 n 0 s
        else if quad = 1 then
          (a2b 2 (n % 16) 0 s).map fun bytes => UInt8.ofNat (left * 4 + n / 16) :: bytes
        else if quad = 2 then
          (a2b 3 (n % 4) 0 s).map fun bytes => UInt8.ofNat (left * 16 + n / 4) :: bytes
        else (a2b 0 0 0 s).map fun bytes => UInt8.ofNat (left * 64 + n) :: bytes

/-- `base64.b64decode(s)`, which takes ASCII only. -/
def b64decode (s : Str) : Option (List UInt8) :=
  if s.all fun c => c.toNat < 128 then a2b 0 0 0 s else none

/-! ## Letters -/

theorem value_letter {n : Nat} (h : n < 64) : value (letter n) = some n := by
  have hall : ∀ n : Fin 64, value (letter n) = some n.val := by decide
  exact hall ⟨n, h⟩

theorem letter_plain {n : Nat} (h : n < 64) : isAsciiSpace (letter n) = false ∧ letter n ≠ '=' := by
  have hall : ∀ n : Fin 64, isAsciiSpace (letter n) = false ∧ letter n ≠ '=' := by decide
  exact hall ⟨n, h⟩

theorem letters_lt (bytes : List UInt8) : ∀ n ∈ letters bytes, n < 64 := by
  fun_induction letters bytes with
  | case1 => simp
  | case2 a =>
    have ha := a.toNat_lt
    simp only [List.mem_cons, List.not_mem_nil, or_false]
    omega
  | case3 a b =>
    have ha := a.toNat_lt
    have hb := b.toNat_lt
    simp only [List.mem_cons, List.not_mem_nil, or_false]
    omega
  | case4 a b c rest ih =>
    have ha := a.toNat_lt
    have hb := b.toNat_lt
    have hc := c.toNat_lt
    intro n hn
    simp only [List.mem_cons] at hn
    rcases hn with hn | hn | hn | hn | hn
    · omega
    · omega
    · omega
    · omega
    · exact ih n hn

theorem values_letters {ns : List Nat} (h : ∀ n ∈ ns, n < 64) :
    values (ns.map letter) = some ns := by
  induction ns with
  | nil => rfl
  | cons n ns ih =>
    have hn := value_letter (h n List.mem_cons_self)
    have hns := ih fun m hm => h m (List.mem_cons_of_mem n hm)
    simp only [List.map_cons, values, hn, hns, Option.bind_some, Option.map_some]

/-- Three bytes are four letters, and what is left over is padded. -/
theorem length_letters (bytes : List UInt8) : ((letters bytes).length + padding bytes) % 4 = 0 := by
  fun_induction letters bytes with
  | case1 => rfl
  | case2 | case3 => simp [padding]
  | case4 a b c rest ih =>
    simp only [List.length_cons, padding]
    omega

theorem padding_le (bytes : List UInt8) : padding bytes ≤ 2 := by
  fun_induction padding bytes with
  | case1 | case2 | case3 => omega
  | case4 _ _ _ _ ih => exact ih

/-! ## The round trip -/

theorem ofNat_eq {a : UInt8} {n : Nat} (h : n = a.toNat) : UInt8.ofNat n = a := by
  rw [h, UInt8.ofNat_toNat]

theorem bytesOf_letters (bytes : List UInt8) : bytesOf (letters bytes) = some bytes := by
  fun_induction letters bytes with
  | case1 => rfl
  | case2 a =>
    have ha : UInt8.ofNat (a.toNat / 4 * 4 + a.toNat % 4 * 16 / 16) = a := ofNat_eq (by omega)
    rw [bytesOf, ha]
  | case3 a b =>
    have hbyte := b.toNat_lt
    have ha : UInt8.ofNat (a.toNat / 4 * 4 + (a.toNat % 4 * 16 + b.toNat / 16) / 16) = a :=
      ofNat_eq (by omega)
    have hb : UInt8.ofNat ((a.toNat % 4 * 16 + b.toNat / 16) % 16 * 16 + b.toNat % 16 * 4 / 4) = b :=
      ofNat_eq (by omega)
    rw [bytesOf, ha, hb]
  | case4 a b c rest ih =>
    have hbyte := b.toNat_lt
    have hcbyte := c.toNat_lt
    have ha : UInt8.ofNat (a.toNat / 4 * 4 + (a.toNat % 4 * 16 + b.toNat / 16) / 16) = a :=
      ofNat_eq (by omega)
    have hb : UInt8.ofNat ((a.toNat % 4 * 16 + b.toNat / 16) % 16 * 16 +
        (b.toNat % 16 * 4 + c.toNat / 64) / 4) = b := ofNat_eq (by omega)
    have hc : UInt8.ofNat ((b.toNat % 16 * 4 + c.toNat / 64) % 4 * 64 + c.toNat % 64) = c :=
      ofNat_eq (by omega)
    rw [bytesOf, ih, ha, hb, hc, Option.map_some]

theorem filter_b64encode (bytes : List UInt8) :
    ((b64encode bytes).filter fun c => !isAsciiSpace c) = b64encode bytes := by
  rw [List.filter_eq_self]
  intro c hc
  rcases List.mem_append.mp hc with hc | hc
  · obtain ⟨n, hn, rfl⟩ := List.mem_map.mp hc
    simp [(letter_plain (letters_lt bytes n hn)).1]
  · rw [List.eq_of_mem_replicate hc]
    rfl

/-- No padding character is a letter. -/
theorem not_endswith_letters {ns : List Nat} (h : ∀ n ∈ ns, n < 64) :
    ¬ endswith (ns.map letter) "=" = true := by
  rw [endswith_iff]
  intro hsuffix
  obtain ⟨n, hn, heq⟩ := List.mem_map.mp (hsuffix.subset List.mem_cons_self)
  exact (letter_plain (h n hn)).2 heq

theorem dropPadding_append {s : Str} {n : Nat} (hs : ¬ endswith s "=" = true) (hn : n ≤ 2)
    (hlength : (s ++ List.replicate n '=').length % 4 = 0) :
    dropPadding (s ++ List.replicate n '=') = s := by
  have hone : ¬ ['='] <:+ s := fun h => hs (endswith_iff.mpr h)
  match n with
  | 0 =>
    have htwo : ¬ endswith s "==" = true := by
      rw [endswith_iff]
      exact fun h => hone ((List.suffix_cons '=' ['=']).trans h)
    rw [List.replicate_zero, List.append_nil] at hlength ⊢
    rw [dropPadding, if_pos hlength, if_neg htwo, if_neg hs]
  | 1 =>
    have hpad : endswith (s ++ ['=']) "=" = true := endswith_iff.mpr (List.suffix_append ..)
    have htwo : ¬ endswith (s ++ ['=']) "==" = true := by
      rw [endswith_iff]
      rintro ⟨front, hfront⟩
      have hcut : front ++ ['='] ++ ['='] = s ++ ['='] := by
        rw [← hfront]
        simp
      exact hone ⟨front, List.append_cancel_right hcut⟩
    rw [show List.replicate 1 '=' = ['='] from rfl] at hlength ⊢
    rw [dropPadding, if_pos hlength, if_neg htwo, if_pos hpad]
    exact sliceDropLast_append s ['=']
  | 2 =>
    have htwo : endswith (s ++ ['=', '=']) "==" = true := endswith_iff.mpr (List.suffix_append ..)
    rw [show List.replicate 2 '=' = ['=', '='] from rfl] at hlength ⊢
    rw [dropPadding, if_pos hlength, if_pos htwo]
    exact sliceDropLast_append s ['=', '=']

theorem dropPadding_b64encode (bytes : List UInt8) :
    dropPadding (b64encode bytes) = (letters bytes).map letter := by
  apply dropPadding_append (not_endswith_letters (letters_lt bytes)) (padding_le bytes)
  rw [List.length_append, List.length_map, List.length_replicate, length_letters]

theorem atob_b64encode (bytes : List UInt8) : atob (b64encode bytes) = some bytes := by
  rw [atob, filter_b64encode, dropPadding_b64encode, values_letters (letters_lt bytes),
    Option.bind_some, bytesOf_letters]

/-! ## Letter by letter -/

theorem a2b_letter {n : Nat} (h : n < 64) (quad left pads : Nat) (s : Str) :
    a2b quad left pads (letter n :: s) =
      if quad = 0 then a2b 1 n 0 s
      else if quad = 1 then
        (a2b 2 (n % 16) 0 s).map fun bytes => UInt8.ofNat (left * 4 + n / 16) :: bytes
      else if quad = 2 then
        (a2b 3 (n % 4) 0 s).map fun bytes => UInt8.ofNat (left * 16 + n / 4) :: bytes
      else (a2b 0 0 0 s).map fun bytes => UInt8.ofNat (left * 64 + n) :: bytes := by
  rw [a2b, if_neg (letter_plain h).2, value_letter h]

theorem a2b_letters (bytes : List UInt8) (left pads : Nat) :
    a2b 0 left pads ((letters bytes).map letter ++ List.replicate (padding bytes) '=') =
      some bytes := by
  fun_induction letters bytes generalizing left pads with
  | case1 => rfl
  | case2 a =>
    have hbyte := a.toNat_lt
    have ha : UInt8.ofNat (a.toNat / 4 * 4 + a.toNat % 4 * 16 / 16) = a := ofNat_eq (by omega)
    simp only [List.map_cons, List.map_nil, List.cons_append, List.nil_append]
    rw [a2b_letter (by omega), if_pos rfl, a2b_letter (by omega), if_neg (by decide), if_pos rfl, ha]
    rfl
  | case3 a b =>
    have habyte := a.toNat_lt
    have hbyte := b.toNat_lt
    have ha : UInt8.ofNat (a.toNat / 4 * 4 + (a.toNat % 4 * 16 + b.toNat / 16) / 16) = a :=
      ofNat_eq (by omega)
    have hb : UInt8.ofNat ((a.toNat % 4 * 16 + b.toNat / 16) % 16 * 16 + b.toNat % 16 * 4 / 4) = b :=
      ofNat_eq (by omega)
    simp only [List.map_cons, List.map_nil, List.cons_append, List.nil_append]
    rw [a2b_letter (by omega), if_pos rfl, a2b_letter (by omega), if_neg (by decide), if_pos rfl,
      a2b_letter (by omega), if_neg (by decide), if_neg (by decide), if_pos rfl, ha, hb]
    rfl
  | case4 a b c rest ih =>
    have habyte := a.toNat_lt
    have hbyte := b.toNat_lt
    have hcbyte := c.toNat_lt
    have ha : UInt8.ofNat (a.toNat / 4 * 4 + (a.toNat % 4 * 16 + b.toNat / 16) / 16) = a :=
      ofNat_eq (by omega)
    have hb : UInt8.ofNat ((a.toNat % 4 * 16 + b.toNat / 16) % 16 * 16 +
        (b.toNat % 16 * 4 + c.toNat / 64) / 4) = b := ofNat_eq (by omega)
    have hc : UInt8.ofNat ((b.toNat % 16 * 4 + c.toNat / 64) % 4 * 64 + c.toNat % 64) = c :=
      ofNat_eq (by omega)
    simp only [List.map_cons, List.cons_append, padding]
    rw [a2b_letter (by omega), if_pos rfl, a2b_letter (by omega), if_neg (by decide), if_pos rfl,
      a2b_letter (by omega), if_neg (by decide), if_neg (by decide), if_pos rfl,
      a2b_letter (by omega), if_neg (by decide), if_neg (by decide), if_neg (by decide), ih, ha, hb,
      hc]
    rfl

theorem toNat_letter {n : Nat} (h : n < 64) : (letter n).toNat < 128 := by
  have hall : ∀ n : Fin 64, (letter n).toNat < 128 := by decide
  exact hall ⟨n, h⟩

theorem b64decode_b64encode (bytes : List UInt8) : b64decode (b64encode bytes) = some bytes := by
  have hascii : ((b64encode bytes).all fun c => c.toNat < 128) = true := by
    rw [List.all_eq_true]
    intro c hc
    apply decide_eq_true
    rcases List.mem_append.mp hc with hc | hc
    · obtain ⟨n, hn, rfl⟩ := List.mem_map.mp hc
      exact toNat_letter (letters_lt bytes n hn)
    · rw [List.eq_of_mem_replicate hc]
      decide
  rw [b64decode, if_pos hascii, b64encode, a2b_letters]

end TechMart.Web.Base64
