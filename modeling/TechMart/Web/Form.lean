import TechMart.Web.Utf8
import TechMart.Python.Json

/-!
# Percent-encoding and form data

`quote`, `unquote` and `parse_qsl` of `urllib.parse`, and the query of a URL.
`unquote_quote` is the round trip. Reading never lengthens a text, and keeps its
length only where it changes nothing but `+`: `formValue_of_length`.
-/

namespace TechMart.Web

open Python

/-- The characters `quote` leaves alone. -/
def unreserved (c : Char) : Bool := c.isAlphanum || c == '_' || c == '.' || c == '-' || c == '~'

def hexUpper (n : Nat) : Char := (Nat.digitChar n).toUpper

def quoteByte (b : UInt8) : Str :=
  if unreserved (Char.ofNat b.toNat) then [Char.ofNat b.toNat]
  else ['%', hexUpper (b.toNat / 16), hexUpper (b.toNat % 16)]

/-- `urllib.parse.quote(s, safe="")`. -/
def quote (s : Str) : Str := (Utf8.encode s).flatMap quoteByte

def hexByte (high low : Char) : Option UInt8 := do
  let high ← Json.hexDigit high
  let low ← Json.hexDigit low
  some (UInt8.ofNat (16 * high + low))

/-- The bytes of a run of ASCII characters and escapes are decoded together. -/
def unquoteFrom : List UInt8 → Str → Str
  | run, [] => Utf8.decode run
  | run, '%' :: high :: low :: s =>
    match hexByte high low with
    | some b => unquoteFrom (run ++ [b]) s
    | none => unquoteFrom (run ++ [0x25]) (high :: low :: s)
  | run, c :: s =>
    if c.toNat < 128 then unquoteFrom (run ++ String.utf8EncodeChar c) s
    else Utf8.decode run ++ c :: unquoteFrom [] s

/-- `urllib.parse.unquote(s)`. -/
def unquote (s : Str) : Str := unquoteFrom [] s

def plusToSpace (s : Str) : Str := s.map fun c => if c = '+' then ' ' else c

def formValue (s : Str) : Str := unquote (plusToSpace s)

def formPair (field : Str) : Str × Str :=
  (formValue (field.takeWhile (· ≠ '=')), formValue ((field.dropWhile (· ≠ '=')).drop 1))

/-- `parse_qsl(query, keep_blank_values=True)`. -/
def parseQsl (query : Str) : List (Str × Str) :=
  ((query.splitOn '&').filter fun field => !field.isEmpty).map formPair

/-- The parameters of a request by their query: the last value of a name. -/
def queryParams (query : Str) : Dict Str := Dict.ofPairs (parseQsl query)

/-- A tab or a line end, which `urlsplit` takes out of a URL. -/
def isUrlBreak (c : Char) : Bool := c == '\t' || c == '\n' || c == '\r'

def withoutBreaks (url : Str) : Str := url.filter fun c => !isUrlBreak c

/-- The query of a URL: between its first `?` and its fragment. -/
def urlQuery (url : Str) : Str :=
  (((withoutBreaks url).takeWhile (· ≠ '#')).dropWhile (· ≠ '?')).drop 1

/-- Somewhere in the text a `%` is followed by two hexadecimal digits. -/
def Escapes (s : Str) : Prop :=
  ∃ high low, (hexByte high low).isSome ∧ ['%', high, low] <:+: s

/-! ## Quoting -/

theorem unreserved_byte : ∀ n < 256, unreserved (Char.ofNat n) = true →
    Char.ofNat n ≠ '%' ∧ (Char.ofNat n).toNat < 128 ∧ n < 128 := by
  decide +kernel

theorem hexByte_hexUpper : ∀ n < 256,
    hexByte (hexUpper (n / 16)) (hexUpper (n % 16)) = some (UInt8.ofNat n) := by
  decide +kernel

theorem unreserved_hexUpper : ∀ n < 16, unreserved (hexUpper n) = true := by decide +kernel

theorem utf8EncodeChar_ofNat : ∀ n < 128, String.utf8EncodeChar (Char.ofNat n) = [UInt8.ofNat n] := by
  decide +kernel

theorem unreserved_quote {s : Str} {c : Char} (h : c ∈ quote s) : unreserved c = true ∨ c = '%' := by
  obtain ⟨b, -, hc⟩ := List.mem_flatMap.mp h
  have hb : b.toNat < 256 := b.toNat_lt
  rw [quoteByte] at hc
  split at hc
  · rename_i hun
    rw [List.mem_singleton] at hc
    exact Or.inl (hc ▸ hun)
  · simp only [List.mem_cons, List.not_mem_nil, or_false] at hc
    rcases hc with rfl | rfl | rfl
    · exact Or.inr rfl
    · exact Or.inl (unreserved_hexUpper _ (by omega))
    · exact Or.inl (unreserved_hexUpper _ (by omega))

/-- What does not begin an escape is read as itself. -/
theorem unquoteFrom_cons {c : Char} {s : Str}
    (h : ¬ ∃ high low, (hexByte high low).isSome ∧ ['%', high, low] <+: c :: s) (run : List UInt8) :
    unquoteFrom run (c :: s) =
      if c.toNat < 128 then unquoteFrom (run ++ String.utf8EncodeChar c) s
      else Utf8.decode run ++ c :: unquoteFrom [] s := by
  rw [unquoteFrom.eq_def]
  split
  · rename_i heq
    cases heq
  · rename_i high low t heq
    obtain ⟨rfl, rfl⟩ := List.cons.inj heq
    have hnone : hexByte high low = none := by
      by_contra hsome
      exact h ⟨high, low, Option.isSome_iff_ne_none.mpr hsome, t, rfl⟩
    rw [hnone]
    rfl
  · rename_i heq
    obtain ⟨rfl, rfl⟩ := List.cons.inj heq
    rfl

theorem unquoteFrom_quoteByte (run : List UInt8) (b : UInt8) (s : Str) :
    unquoteFrom run (quoteByte b ++ s) = unquoteFrom (run ++ [b]) s := by
  have hb : UInt8.ofNat b.toNat = b := UInt8.ofNat_toNat
  rw [quoteByte]
  split
  · rename_i hun
    obtain ⟨hpercent, hchar, hascii⟩ := unreserved_byte b.toNat b.toNat_lt hun
    have hplain : ¬ ∃ high low, (hexByte high low).isSome ∧
        ['%', high, low] <+: Char.ofNat b.toNat :: s := by
      rintro ⟨high, low, -, hbegin⟩
      exact hpercent (List.cons_prefix_cons.mp hbegin).1.symm
    rw [List.singleton_append, unquoteFrom_cons hplain, if_pos hchar,
      utf8EncodeChar_ofNat _ hascii, hb]
  · simp only [List.cons_append, List.nil_append, unquoteFrom, hexByte_hexUpper _ b.toNat_lt, hb]

theorem unquoteFrom_quote (run bytes : List UInt8) :
    unquoteFrom run (bytes.flatMap quoteByte) = Utf8.decode (run ++ bytes) := by
  induction bytes generalizing run with
  | nil => simp [unquoteFrom]
  | cons b bytes ih => rw [List.flatMap_cons, unquoteFrom_quoteByte, ih, List.append_assoc]; rfl

theorem unquote_quote (s : Str) : unquote (quote s) = s :=
  (unquoteFrom_quote [] _).trans (Utf8.decode_encode s)

/-! ## Reading -/

theorem not_escapes_nil : ¬ Escapes [] := by
  rintro ⟨_, _, -, hinfix⟩
  have := hinfix.length_le
  simp at this

theorem escapes_cons {c : Char} {s : Str} : Escapes (c :: s) ↔
    (∃ high low, (hexByte high low).isSome ∧ ['%', high, low] <+: c :: s) ∨ Escapes s := by
  simp only [Escapes, List.infix_cons_iff, and_or_left, exists_or]

theorem not_escape_of_plain {c : Char} {s : Str}
    (h : ∀ high low t, c = '%' → s = high :: low :: t → False) :
    ¬ ∃ high low, (hexByte high low).isSome ∧ ['%', high, low] <+: c :: s := by
  rintro ⟨high, low, -, t, ht⟩
  obtain ⟨rfl, rfl⟩ := List.cons.inj ht
  exact h high low t rfl rfl

theorem length_utf8EncodeChar_ascii {c : Char} (h : c.toNat < 128) :
    (String.utf8EncodeChar c).length = 1 := by
  rw [← c.ofNat_toNat, utf8EncodeChar_ofNat _ h]
  rfl

theorem length_unquoteFrom (run : List UInt8) (s : Str) :
    (unquoteFrom run s).length ≤ run.length + s.length := by
  fun_induction unquoteFrom run s with
  | case1 run => exact Utf8.length_decode run
  | case2 run high low s b _ ih =>
    simp only [List.length_append, List.length_cons, List.length_nil] at ih ⊢
    omega
  | case3 run high low s _ ih =>
    simp only [List.length_append, List.length_cons, List.length_nil] at ih ⊢
    omega
  | case4 run c s _ hascii ih =>
    rw [List.length_append, length_utf8EncodeChar_ascii hascii] at ih
    simp only [List.length_cons]
    omega
  | case5 run c s _ _ ih =>
    have hrun := Utf8.length_decode run
    simp only [List.length_append, List.length_cons, List.length_nil] at ih ⊢
    omega

/-- An escape shortens the text. -/
theorem length_unquoteFrom_lt {s : Str} (h : Escapes s) (run : List UInt8) :
    (unquoteFrom run s).length < run.length + s.length := by
  fun_induction unquoteFrom run s with
  | case1 run => exact absurd h not_escapes_nil
  | case2 run high low s b _ _ =>
    have := length_unquoteFrom (run ++ [b]) s
    simp only [List.length_append, List.length_cons, List.length_nil] at this ⊢
    omega
  | case3 run high low s hnone ih =>
    have hrest : Escapes (high :: low :: s) := by
      rcases escapes_cons.mp h with ⟨high', low', hsome, hbegin⟩ | hrest
      · obtain ⟨rfl, rfl⟩ : high' = high ∧ low' = low := by
          simpa [List.cons_prefix_cons] using hbegin
        rw [hnone] at hsome
        cases hsome
      · exact hrest
    have := ih hrest
    simp only [List.length_append, List.length_cons, List.length_nil] at this ⊢
    omega
  | case4 run c s hplain hascii ih =>
    have := ih ((escapes_cons.mp h).resolve_left (not_escape_of_plain hplain))
    rw [List.length_append, length_utf8EncodeChar_ascii hascii] at this
    simp only [List.length_cons]
    omega
  | case5 run c s hplain _ ih =>
    have hrest := ih ((escapes_cons.mp h).resolve_left (not_escape_of_plain hplain))
    have hrun := Utf8.length_decode run
    simp only [List.length_append, List.length_cons, List.length_nil] at hrest ⊢
    omega

/-- Without an escape the text is read as it stands. -/
theorem unquoteFrom_of_not_escapes {s : Str} (h : ¬ Escapes s) (before : Str) :
    unquoteFrom (Utf8.encode before) s = before ++ s := by
  induction s generalizing before with
  | nil => rw [unquoteFrom, Utf8.decode_encode, List.append_nil]
  | cons c s ih =>
    rw [escapes_cons, not_or] at h
    rw [unquoteFrom_cons h.1]
    split
    · have henc : Utf8.encode before ++ String.utf8EncodeChar c = Utf8.encode (before ++ [c]) := by
        simp [Utf8.encode]
      rw [henc, ih h.2, List.append_assoc]
      rfl
    · rw [Utf8.decode_encode]
      exact congrArg (before ++ c :: ·) (ih h.2 [])

theorem length_plusToSpace (s : Str) : (plusToSpace s).length = s.length := List.length_map _

theorem plusToSpace_of_not_mem {s : Str} (h : '+' ∉ s) : plusToSpace s = s := by
  refine (List.map_congr_left fun c hc => ?_).trans s.map_id
  exact if_neg fun heq : c = '+' => h (heq ▸ hc)

theorem not_mem_plusToSpace (s : Str) : '+' ∉ plusToSpace s := by
  intro hmem
  obtain ⟨c, -, hc⟩ := List.mem_map.mp hmem
  split at hc
  · cases hc
  · exact absurd hc ‹_›

theorem length_formValue (s : Str) : (formValue s).length ≤ s.length := by
  have := length_unquoteFrom [] (plusToSpace s)
  rwa [length_plusToSpace, List.length_nil, Nat.zero_add] at this

theorem formValue_of_plain {s : Str} (hplus : '+' ∉ s) (hescape : ¬ Escapes s) :
    formValue s = s := by
  rw [formValue, plusToSpace_of_not_mem hplus]
  exact unquoteFrom_of_not_escapes hescape []

theorem formValue_quote (s : Str) : formValue (quote s) = s := by
  have hplus : '+' ∉ quote s := by
    intro h
    rcases unreserved_quote h with h | h
    · exact absurd h (by decide +kernel)
    · cases h
  rw [formValue, plusToSpace_of_not_mem hplus, unquote_quote]

/-- A value that keeps its length holds no escape, and only its pluses change. -/
theorem formValue_of_length {s : Str} (h : s.length ≤ (formValue s).length) :
    ¬ Escapes (plusToSpace s) ∧ formValue s = plusToSpace s := by
  have hplain : ¬ Escapes (plusToSpace s) := by
    intro hescape
    have hshort := length_unquoteFrom_lt hescape []
    rw [length_plusToSpace, List.length_nil, Nat.zero_add] at hshort
    exact absurd h (Nat.not_le_of_lt hshort)
  exact ⟨hplain, unquoteFrom_of_not_escapes hplain []⟩

/-! ## Fields -/

theorem parseQsl_field {field : Str} (h : '&' ∉ field) (hne : field ≠ []) :
    parseQsl field = [formPair field] := by
  simp [parseQsl, List.splitOn_eq_singleton h, hne]

theorem parseQsl_append {field : Str} (h : '&' ∉ field) (hne : field ≠ []) (query : Str) :
    parseQsl (field ++ '&' :: query) = formPair field :: parseQsl query := by
  simp [parseQsl, List.splitOn_append_cons_self_of_not_mem h, hne]

theorem formPair_append {name : Str} (h : '=' ∉ name) (value : Str) :
    formPair (name ++ '=' :: value) = (formValue name, formValue value) := by
  have hname : ∀ c ∈ name, decide (c ≠ '=') = true := fun c hc =>
    decide_eq_true fun heq => h (heq ▸ hc)
  rw [formPair, List.takeWhile_append_of_pos hname, List.dropWhile_append_of_pos hname]
  simp

theorem length_mem_splitOn {s piece : Str} {a : Char} (h : piece ∈ s.splitOn a) :
    piece.length ≤ s.length := by
  induction s generalizing piece with
  | nil =>
    rw [List.splitOn_nil, List.mem_singleton] at h
    rw [h]
  | cons c s ih =>
    rw [List.splitOn_cons_eq_if_modifyHead] at h
    split at h
    · rcases List.mem_cons.mp h with rfl | hpiece
      · exact Nat.zero_le _
      · exact Nat.le_succ_of_le (ih hpiece)
    · obtain ⟨front, rest, hsplit⟩ := List.exists_cons_of_ne_nil (List.splitOn_ne_nil a s)
      rw [hsplit] at h ih
      rcases List.mem_cons.mp h with rfl | hpiece
      · exact Nat.succ_le_succ (ih List.mem_cons_self)
      · exact Nat.le_succ_of_le (ih (List.mem_cons_of_mem _ hpiece))

/-- No value is longer than the query. -/
theorem length_mem_parseQsl {query : Str} {pair : Str × Str} (h : pair ∈ parseQsl query) :
    pair.2.length ≤ query.length := by
  obtain ⟨field, hfield, rfl⟩ := List.mem_map.mp h
  have hvalue := length_formValue ((field.dropWhile (· ≠ '=')).drop 1)
  have hdrop := (List.dropWhile_suffix (fun c => decide (c ≠ '=')) (l := field)).length_le
  have hpiece := length_mem_splitOn (List.mem_filter.mp hfield).1
  rw [List.length_drop] at hvalue
  exact hvalue.trans (by omega)

/-- Every value of a field written as it stands is shorter than what was
written, unless that holds no `&` and is read as a whole. -/
theorem mem_parseQsl_raw {name written : Str} {pair : Str × Str} (hname : '&' ∉ name)
    (hequals : '=' ∉ name) (h : pair ∈ parseQsl (name ++ '=' :: written)) :
    pair.2.length < written.length ∨ '&' ∉ written ∧ pair.2 = formValue written := by
  have hfield {value : Str} (hvalue : '&' ∉ value) : '&' ∉ name ++ '=' :: value := by
    simp [hname, hvalue]
  by_cases hmem : '&' ∈ written
  · left
    obtain ⟨front, back, rfl, hfront⟩ := List.eq_append_cons_of_mem hmem
    have hsplit : name ++ '=' :: (front ++ '&' :: back) = (name ++ '=' :: front) ++ '&' :: back := by
      simp
    rw [hsplit, parseQsl_append (hfield hfront) (by simp), formPair_append hequals] at h
    rw [List.length_append, List.length_cons]
    rcases List.mem_cons.mp h with rfl | hrest
    · exact Nat.lt_of_le_of_lt (length_formValue front) (by omega)
    · have := length_mem_parseQsl hrest
      omega
  · right
    rw [parseQsl_field (hfield hmem) (by simp), formPair_append hequals, List.mem_singleton] at h
    exact ⟨hmem, congrArg Prod.snd h⟩

theorem withoutBreaks_append (s t : Str) :
    withoutBreaks (s ++ t) = withoutBreaks s ++ withoutBreaks t :=
  List.filter_append ..

theorem withoutBreaks_eq_self {s : Str} :
    withoutBreaks s = s ↔ ∀ c ∈ s, isUrlBreak c = false := by
  rw [withoutBreaks, List.filter_eq_self]
  simp only [Bool.not_eq_true']

theorem urlQuery_append {address : Str} (hbreaks : ∀ c ∈ address, isUrlBreak c = false)
    (hfragment : '#' ∉ address) (hquery : '?' ∉ address) (rest : Str) :
    urlQuery (address ++ '?' :: rest) = (withoutBreaks rest).takeWhile (· ≠ '#') := by
  have hwhole : withoutBreaks (address ++ '?' :: rest) = address ++ '?' :: withoutBreaks rest := by
    rw [withoutBreaks_append, withoutBreaks_eq_self.mpr hbreaks]
    rfl
  have hkeep : ∀ c ∈ address, decide (c ≠ '#') = true := fun c hc =>
    decide_eq_true fun heq => hfragment (heq ▸ hc)
  have hskip : ∀ c ∈ address, decide (c ≠ '?') = true := fun c hc =>
    decide_eq_true fun heq => hquery (heq ▸ hc)
  rw [urlQuery, hwhole, List.takeWhile_append_of_pos hkeep, List.takeWhile_cons_of_pos (by decide),
    List.dropWhile_append_of_pos hskip, List.dropWhile_cons_of_neg (by decide)]
  rfl

end TechMart.Web
