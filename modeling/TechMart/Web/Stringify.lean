import TechMart.Python.Json

/-!
# `JSON.stringify`

The text a page writes for an object of strings, and what `json.loads` makes
of it. `loads_stringify` is the round trip; `length_stringify_le` says that no
text that loads as the object is shorter.
-/

namespace TechMart.Web.Stringify

open Python Json

/-- The letter of an escape that has one. -/
def shortEscape (c : Char) : Option Char :=
  if c = '"' then some '"'
  else if c = '\\' then some '\\'
  else if c = '\x08' then some 'b'
  else if c = '\x0c' then some 'f'
  else if c = '\n' then some 'n'
  else if c = '\r' then some 'r'
  else if c = '\t' then some 't'
  else none

def stringifyChar (c : Char) : Str :=
  match shortEscape c with
  | some e => ['\\', e]
  | none => if c.toNat < 32 then unitEscape c.toNat else [c]

/-- A string literal after its opening quote. -/
def stringTail (s : Str) : Str := s.flatMap stringifyChar ++ ['"']

def stringifyString (s : Str) : Str := '"' :: stringTail s

def member (kv : Str × Str) : Str := stringifyString kv.1 ++ ':' :: stringifyString kv.2

/-- `JSON.stringify(object)`, its entries in the order they are enumerated. -/
def stringify (entries : Dict Str) : Str :=
  '\x7b' :: join "," (entries.map member) ++ ['\x7d']

/-- A key that an object keeps before its other keys, by its number. -/
def arrayIndex (key : Str) : Option Nat :=
  let n := natOfDigits key
  if key = natStr n ∧ n < 4294967295 then some n else none

/-- The entries of a parsed object in the order they are enumerated. -/
def ownOrder (entries : Dict Str) : Dict Str :=
  (entries.filter fun kv => (arrayIndex kv.1).isSome).mergeSort
      (fun a b => (arrayIndex a.1).getD 0 ≤ (arrayIndex b.1).getD 0) ++
    entries.filter fun kv => !(arrayIndex kv.1).isSome

/-- The entries as Python values. -/
def entriesValue (entries : Dict Str) : List (Str × Value) :=
  entries.map fun kv => (kv.1, .str kv.2)

theorem ownOrder_perm (entries : Dict Str) : (ownOrder entries).Perm entries := by
  have hsorted := (List.mergeSort_perm (entries.filter fun kv => (arrayIndex kv.1).isSome)
    fun a b => (arrayIndex a.1).getD 0 ≤ (arrayIndex b.1).getD 0).append_right
      (entries.filter fun kv => !(arrayIndex kv.1).isSome)
  exact hsorted.trans (List.filter_append_perm _ entries)

/-! ## Reading it back -/

theorem simpleEscape_short {c e : Char} (h : shortEscape c = some e) (s : Str) :
    stringUnits ('\\' :: e :: s) = consUnit c.toNat (stringUnits s) := by
  unfold shortEscape at h
  split_ifs at h with h₁ h₂ h₃ h₄ h₅ h₆ h₇ <;> cases h
  · subst h₁
    rfl
  · subst h₂
    rfl
  · subst h₃
    rfl
  · subst h₄
    rfl
  · subst h₅
    rfl
  · subst h₆
    rfl
  · subst h₇
    rfl

theorem unitEscape_control : ∀ n < 32, unitEscape n =
    ['\\', 'u', '0', '0', hexChar (n / 16), hexChar n] := by
  decide

theorem not_short {c : Char} (h : shortEscape c = none) : c ≠ '"' ∧ c ≠ '\\' := by
  constructor
  · rintro rfl
    cases h
  · rintro rfl
    cases h

theorem stringUnits_stringifyChar (c : Char) (s : Str) :
    stringUnits (stringifyChar c ++ s) = consUnit c.toNat (stringUnits s) := by
  unfold stringifyChar
  cases hshort : shortEscape c with
  | some e => exact simpleEscape_short hshort s
  | none =>
    obtain ⟨hquote, hback⟩ := not_short hshort
    by_cases hcontrol : c.toNat < 32
    · simp only [hcontrol, if_true, unitEscape_control _ hcontrol, List.cons_append,
        List.nil_append, stringUnits, hex4_control _ hcontrol, Option.bind_some]
    · simp only [hcontrol, if_false, List.cons_append, List.nil_append]
      rw [stringUnits.eq_def]
      split <;> simp_all

theorem stringUnits_stringTail (s r : Str) :
    stringUnits (stringTail s ++ r) = some (s.map Char.toNat, r) := by
  induction s with
  | nil => rfl
  | cons c s ih =>
    have hcons : stringTail (c :: s) ++ r = stringifyChar c ++ (stringTail s ++ r) := by
      simp [stringTail, List.append_assoc]
    rw [hcons, stringUnits_stringifyChar, ih]
    rfl

theorem string_stringTail (s r : Str) : Json.string (stringTail s ++ r) = some (s, r) := by
  simp [Json.string, stringUnits_stringTail, joinUnits_map]

theorem value_stringify (rt : Runtime) (n : Nat) (s r : Str) :
    value rt (n + 1) (stringifyString s ++ r) = some (.str s, r) := by
  simp [stringifyString, value, string_stringTail]

theorem skipWs_cons {c : Char} (h : isWs c = false) (s : Str) : skipWs (c :: s) = c :: s := by
  simp [skipWs, h]

theorem member_append (kv : Str × Str) (r : Str) :
    member kv ++ r = '"' :: (stringTail kv.1 ++ ':' :: (stringifyString kv.2 ++ r)) := by
  simp [member, stringifyString, List.append_assoc]

theorem skipWs_stringifyString (s r : Str) :
    skipWs (stringifyString s ++ r) = stringifyString s ++ r := rfl

theorem members_last (rt : Runtime) (n : Nat) (kv : Str × Str) (r : Str) :
    members rt (n + 2) (member kv ++ '\x7d' :: r) = some ([(kv.1, .str kv.2)], r) := by
  rw [member_append, members]
  simp only [string_stringTail, Option.bind_some, skipWs_cons (show isWs ':' = false from rfl),
    skipWs_stringifyString, value_stringify, skipWs_cons (show isWs '\x7d' = false from rfl)]

theorem members_next (rt : Runtime) (n : Nat) (kv : Str × Str) (r : Str) :
    members rt (n + 2) (member kv ++ ',' :: r) =
      (members rt (n + 1) (skipWs r)).map fun r => ((kv.1, .str kv.2) :: r.1, r.2) := by
  rw [member_append, members]
  simp only [string_stringTail, Option.bind_some, skipWs_cons (show isWs ':' = false from rfl),
    skipWs_stringifyString, value_stringify, skipWs_cons (show isWs ',' = false from rfl)]

theorem members_stringify (rt : Runtime) (kv : Str × Str) (entries : Dict Str) (n : Nat) (r : Str)
    (hn : entries.length + 2 ≤ n) :
    members rt n (join "," ((kv :: entries).map member) ++ '\x7d' :: r) =
      some (entriesValue (kv :: entries), r) := by
  induction entries generalizing kv n with
  | nil =>
    obtain ⟨m, rfl⟩ := Nat.exists_eq_add_of_le' hn
    have hjoin : join "," (List.map member [kv]) = member kv := by simp [join]
    rw [hjoin, show m + (List.length ([] : Dict Str) + 2) = m + 2 from rfl, members_last]
    rfl
  | cons kv' entries ih =>
    obtain ⟨m, rfl⟩ := Nat.exists_eq_add_of_le' hn
    have hjoin : join "," (List.map member (kv :: kv' :: entries)) ++ '\x7d' :: r =
        member kv ++ ',' :: (join "," (List.map member (kv' :: entries)) ++ '\x7d' :: r) := by
      simp [join_cons, List.append_assoc]
    have hrest := ih kv' (m + entries.length + 2) (by omega)
    have hopen : skipWs (join "," (List.map member (kv' :: entries)) ++ '\x7d' :: r) =
        join "," (List.map member (kv' :: entries)) ++ '\x7d' :: r := by
      cases entries with
      | nil => simp [join, member, stringifyString, skipWs_cons, isWs]
      | cons e es => simp [join_cons, member, stringifyString, skipWs_cons, isWs]
    rw [hjoin, show m + ((kv' :: entries).length + 2) = m + entries.length + 1 + 2 by
      simp only [List.length_cons]; omega, members_next, hopen, hrest]
    rfl

theorem entriesValue_keys (entries : Dict Str) :
    Dict.keys (entriesValue entries) = Dict.keys entries := by
  simp [entriesValue, Dict.keys]

/-- Reading back what a page wrote gives the object. -/
theorem loads_stringify (rt : Runtime) {entries : Dict Str} (h : (Dict.keys entries).Nodup) :
    loads rt (stringify entries) = .ok (.dict (entriesValue entries)) := by
  have hopen : skipWs (stringify entries) = stringify entries := rfl
  cases entries with
  | nil => rfl
  | cons kv entries =>
    have hlength : entries.length + 2 ≤ (stringify (kv :: entries)).length := by
      have hjoin (kv : Str × Str) (entries : Dict Str) :
          entries.length + 1 ≤ (join "," ((kv :: entries).map member)).length := by
        induction entries generalizing kv with
        | nil => simp [join, member, stringifyString]
        | cons kv' entries ih =>
          have hrest := ih kv'
          have hmember : 1 ≤ (member kv).length := by simp [member, stringifyString]
          rw [List.map_cons] at hrest
          rw [List.map_cons, List.map_cons, join_cons, List.length_append, List.length_append,
            List.length_cons]
          omega
      have := hjoin kv entries
      rw [stringify, List.length_append, List.length_cons, List.length_singleton]
      omega
    have hmembers := members_stringify rt kv entries (stringify (kv :: entries)).length [] hlength
    have hnodup : (Dict.keys (entriesValue (kv :: entries))).Nodup := by
      rw [entriesValue_keys]
      exact h
    have hvalue : value rt ((stringify (kv :: entries)).length + 1) (stringify (kv :: entries)) =
        some (.dict (entriesValue (kv :: entries)), []) := by
      generalize (stringify (kv :: entries)).length = n at hmembers
      have hquote : ∃ t, join "," ((kv :: entries).map member) ++ ['\x7d'] = '"' :: t := by
        cases entries with
        | nil => exact ⟨_, by simp [join, member, stringifyString]; rfl⟩
        | cons e es => exact ⟨_, by simp [join_cons, member, stringifyString]; rfl⟩
      obtain ⟨t, ht⟩ := hquote
      rw [ht] at hmembers
      rw [stringify, List.cons_append, ht, value_object, hmembers, Option.map_some,
        Dict.ofPairs_of_nodup hnodup]
    rw [loads, hopen, hvalue]
    rfl

theorem shortEscape_ge {c e : Char} (h : shortEscape c = some e) : 32 ≤ e.toNat := by
  unfold shortEscape at h
  split_ifs at h
  all_goals
    cases h
    decide

theorem stringifyChar_ge {c d : Char} (h : d ∈ stringifyChar c) : 32 ≤ d.toNat := by
  have hhex : ∀ n < 16, 32 ≤ (Nat.digitChar n).toNat := by decide
  have hdigit (n : Nat) : 32 ≤ (hexChar n).toNat := hhex _ (Nat.mod_lt n (by decide))
  unfold stringifyChar at h
  split at h
  · rename_i e hshort
    rcases List.mem_cons.mp h with rfl | h
    · decide
    · rw [List.mem_singleton.mp h]
      exact shortEscape_ge hshort
  · split at h
    · simp only [unitEscape, List.mem_cons, List.not_mem_nil, or_false] at h
      rcases h with rfl | rfl | rfl | rfl | rfl | rfl
      · decide
      · decide
      all_goals exact hdigit _
    · rename_i hc
      rw [List.mem_singleton.mp h]
      exact Nat.not_lt.mp hc

theorem stringifyString_ge {s : Str} {d : Char} (h : d ∈ stringifyString s) : 32 ≤ d.toNat := by
  rcases List.mem_cons.mp h with rfl | h
  · decide
  · rcases List.mem_append.mp h with h | h
    · obtain ⟨c, -, hc⟩ := List.mem_flatMap.mp h
      exact stringifyChar_ge hc
    · rw [List.mem_singleton.mp h]
      decide

/-- No control character is written. -/
theorem stringify_ge {entries : Dict Str} {d : Char} (h : d ∈ stringify entries) :
    32 ≤ d.toNat := by
  rcases List.mem_cons.mp h with rfl | h
  · decide
  · rcases List.mem_append.mp h with h | h
    · rcases mem_join h with h | ⟨text, htext, h⟩
      · rw [List.mem_singleton.mp h]
        decide
      · obtain ⟨kv, -, rfl⟩ := List.mem_map.mp htext
        rcases List.mem_append.mp h with h | h
        · exact stringifyString_ge h
        · rcases List.mem_cons.mp h with rfl | h
          · decide
          · exact stringifyString_ge h
    · rw [List.mem_singleton.mp h]
      decide

/-! ## No shorter text -/

/-- The length of the characters of a string as they are written. -/
def cost (s : Str) : Nat := (s.flatMap stringifyChar).length

theorem cost_cons (c : Char) (s : Str) : cost (c :: s) = (stringifyChar c).length + cost s := by
  simp [cost]

theorem length_stringifyString (s : Str) : (stringifyString s).length = cost s + 2 := by
  simp [stringifyString, stringTail, cost]

theorem length_stringifyChar_le (c : Char) : (stringifyChar c).length ≤ 6 := by
  unfold stringifyChar
  split
  · simp
  · split
    · simp [unitEscape]
    · simp

theorem stringifyChar_plain {c : Char} (hquote : c ≠ '"') (hback : c ≠ '\\') (hc : 32 ≤ c.toNat) :
    stringifyChar c = [c] := by
  have hne {d : Char} (hd : d.toNat < 32) : c ≠ d := by
    rintro rfl
    omega
  have hshort : shortEscape c = none := by
    simp only [shortEscape, hquote, hback, hne (show ('\x08' : Char).toNat < 32 by decide),
      hne (show ('\x0c' : Char).toNat < 32 by decide), hne (show ('\n' : Char).toNat < 32 by decide),
      hne (show ('\r' : Char).toNat < 32 by decide), hne (show ('\t' : Char).toNat < 32 by decide),
      if_false]
  rw [stringifyChar, hshort]
  simp only [Nat.not_lt.mpr hc, if_false]

/-- The length of the character of one code unit as it is written. -/
def unitCost (n : Nat) : Nat := (stringifyChar (unitChar n)).length

def unitsCost (units : List Nat) : Nat := (units.map unitCost).sum

/-- A simple escape is as short as the character allows. -/
theorem simpleEscape_cost {c e : Char} (h : simpleEscape c = some e) : unitCost e.toNat ≤ 2 := by
  unfold simpleEscape at h
  split at h <;> cases h <;> decide

theorem consUnit_some {n : Nat} {rest : Option (List Nat × Str)} {units : List Nat} {r : Str}
    (h : consUnit n rest = some (units, r)) :
    ∃ units', rest = some (units', r) ∧ units = n :: units' := by
  obtain ⟨⟨units', r'⟩, hrest, heq⟩ := Option.map_eq_some_iff.mp h
  cases heq
  exact ⟨units', hrest, rfl⟩

theorem length_stringUnits {s r : Str} {units : List Nat} (h : stringUnits s = some (units, r)) :
    unitsCost units + 1 + r.length ≤ s.length := by
  induction s using stringUnits.induct generalizing units with
  | case1 => cases h
  | case2 s =>
    cases h
    simp only [unitsCost, List.map_nil, List.sum_nil, List.length_cons]
    omega
  | case3 a b c d s ih =>
    obtain ⟨n, -, h⟩ := Option.bind_eq_some_iff.mp h
    obtain ⟨units', hrest, rfl⟩ := consUnit_some h
    have hs := ih hrest
    have hn : unitCost n ≤ 6 := length_stringifyChar_le _
    simp only [unitsCost, List.map_cons, List.sum_cons, List.length_cons] at hs ⊢
    omega
  | case4 c s hunicode ih =>
    rw [stringUnits] at h
    · obtain ⟨e, he, h⟩ := Option.bind_eq_some_iff.mp h
      obtain ⟨units', hrest, rfl⟩ := consUnit_some h
      have hs := ih hrest
      have hcost := simpleEscape_cost he
      simp only [unitsCost, List.map_cons, List.sum_cons, List.length_cons] at hs ⊢
      omega
    · exact hunicode
  | case5 c s hquote hunicode hback hcontrol =>
    rw [stringUnits, if_pos hcontrol] at h
    · cases h
    all_goals assumption
  | case6 c s hquote hunicode hback hcontrol ih =>
    rw [stringUnits, if_neg hcontrol] at h
    · obtain ⟨units', hrest, rfl⟩ := consUnit_some h
      have hs := ih hrest
      have hne : c ≠ '\\' := by
        rintro rfl
        cases s with
        | nil => cases hrest
        | cons d s => exact hback d s rfl rfl
      have hcost : unitCost c.toNat = 1 := by
        rw [unitCost, unitChar_toNat, stringifyChar_plain hquote hne (Nat.not_lt.mp hcontrol)]
        rfl
      simp only [unitsCost, List.map_cons, List.sum_cons, List.length_cons] at hs ⊢
      omega
    all_goals assumption

theorem one_le_unitCost (n : Nat) : 1 ≤ unitCost n := by
  unfold unitCost stringifyChar
  split
  · simp
  · split
    · simp [unitEscape]
    · simp

/-- The character of a surrogate pair needs no escape. -/
theorem stringifyChar_pair {m n : Nat} (h : (isHigh m && isLow n) = true) :
    (stringifyChar (Char.ofNat (0x10000 + (m - 0xD800) * 0x400 + (n - 0xDC00)))).length = 1 := by
  simp only [isHigh, isLow, Bool.and_eq_true, decide_eq_true_eq] at h
  generalize hk : 0x10000 + (m - 0xD800) * 0x400 + (n - 0xDC00) = k
  have hvalid : k.isValidChar := Or.inr ⟨by omega, by omega⟩
  have hnat : (Char.ofNat k).toNat = k := by
    rw [Char.ofNat, dif_pos hvalid]
    rfl
  have hne {c : Char} (hc : c.toNat < 0x10000) : Char.ofNat k ≠ c := by
    intro heq
    rw [← heq, hnat] at hc
    omega
  rw [stringifyChar_plain (hne (by decide)) (hne (by decide)) (by omega)]
  rfl

theorem cost_joinUnits_le (units : List Nat) : cost (joinUnits units) ≤ unitsCost units := by
  induction units using joinUnits.induct with
  | case1 => exact Nat.le_refl 0
  | case2 n => simp [joinUnits, cost, unitsCost, unitCost]
  | case3 m n rest hpair ih =>
    have hm := one_le_unitCost m
    rw [joinUnits, if_pos hpair, cost_cons, stringifyChar_pair hpair]
    simp only [unitsCost, List.map_cons, List.sum_cons] at ih ⊢
    omega
  | case4 m n rest hpair ih =>
    rw [joinUnits, if_neg hpair, cost_cons]
    simp only [unitsCost, List.map_cons, List.sum_cons] at ih ⊢
    have hm : (stringifyChar (unitChar m)).length = unitCost m := rfl
    omega

theorem length_string {s r t : Str} (h : Json.string s = some (t, r)) :
    cost t + 1 + r.length ≤ s.length := by
  obtain ⟨⟨units, r'⟩, hunits, heq⟩ := Option.map_eq_some_iff.mp h
  cases heq
  have hread := length_stringUnits hunits
  have hjoin := cost_joinUnits_le units
  show cost (joinUnits units) + 1 + r'.length ≤ s.length
  omega

/-- The least text of a value, as far as strings go. -/
def valueCost : Value → Nat
  | .str s => cost s + 2
  | _ => 0

/-- The least text of an entry, with its colon and what follows it. -/
def entryCost (kv : Str × Value) : Nat := cost kv.1 + 4 + valueCost kv.2

def entriesCost (entries : List (Str × Value)) : Nat := (entries.map entryCost).sum

theorem length_skipWs_le (s : Str) : (skipWs s).length ≤ s.length :=
  (List.dropWhile_suffix isWs).length_le

theorem length_number {rt : Runtime} {s r : Str} {v : Value} (h : number rt s = some (v, r)) :
    valueCost v = 0 ∧ (∀ kvs, v ≠ .dict kvs) ∧ r.length ≤ s.length := by
  have hdrop (a b c d : Nat) : (List.drop a (List.drop b (List.drop c (List.drop d s)))).length ≤
      s.length := by
    simp only [List.length_drop]
    omega
  unfold number at h
  extract_lets sign body whole afterWhole frac afterFrac expo at h
  by_cases hwhole : whole.isEmpty = true
  · rw [if_pos hwhole] at h
    cases h
  · rw [if_neg hwhole] at h
    split at h
    · obtain ⟨hv, hr⟩ := Prod.mk.inj (Option.some.inj h)
      rw [← hv, ← hr]
      exact ⟨rfl, nofun, hdrop 0 0 whole.length sign.length⟩
    · obtain ⟨x, -, heq⟩ := Option.map_eq_some_iff.mp h
      obtain ⟨hv, hr⟩ := Prod.mk.inj heq
      rw [← hv, ← hr]
      exact ⟨rfl, nofun, hdrop expo.length frac.length whole.length sign.length⟩

theorem length_atom {rt : Runtime} {s r : Str} {v : Value} (h : atom rt s = some (v, r)) :
    valueCost v = 0 ∧ (∀ kvs, v ≠ .dict kvs) ∧ r.length ≤ s.length := by
  unfold atom at h
  simp only at h
  split at h
  · rename_i name value hfound
    cases h
    have hmem := List.mem_of_find?_eq_some hfound
    have hlength : (s.drop name.length).length ≤ s.length := (List.drop_suffix _ s).length_le
    simp only [List.mem_cons, List.not_mem_nil, or_false, Prod.mk.injEq] at hmem
    rcases hmem with h | h | h | h | h | h
    all_goals
      rw [h.2]
      exact ⟨rfl, nofun, hlength⟩
  · exact length_number h

/-- A value at the head of a text is no longer than what is read. -/
theorem length_value (rt : Runtime) (n : Nat) :
    (∀ s v r, value rt n s = some (v, r) → valueCost v + r.length ≤ s.length) ∧
    (∀ s vs r, elements rt n s = some (vs, r) → r.length ≤ s.length) ∧
    ∀ s kvs r, members rt n s = some (kvs, r) → entriesCost kvs + r.length ≤ s.length := by
  induction n with
  | zero => exact ⟨by rintro s v r ⟨⟩, by rintro s v r ⟨⟩, by rintro s v r ⟨⟩⟩
  | succ n ih =>
    obtain ⟨ihValue, ihElements, ihMembers⟩ := ih
    refine ⟨?_, ?_, ?_⟩
    · intro s v r h
      rw [value.eq_def] at h
      simp only at h
      split at h
      · rename_i t
        obtain ⟨⟨text, rest⟩, hstring, heq⟩ := Option.map_eq_some_iff.mp h
        cases heq
        have hread := length_string hstring
        simp only [valueCost, List.length_cons]
        omega
      · rename_i t
        have hskip := length_skipWs_le t
        split at h
        · rename_i hclose
          cases h
          rw [hclose] at hskip
          simp only [valueCost, List.length_cons] at hskip ⊢
          omega
        · obtain ⟨⟨vs, rest⟩, helements, heq⟩ := Option.map_eq_some_iff.mp h
          cases heq
          have hread := ihElements _ _ _ helements
          simp only [valueCost, List.length_cons]
          omega
      · rename_i t
        have hskip := length_skipWs_le t
        split at h
        · rename_i hclose
          cases h
          rw [hclose] at hskip
          simp only [valueCost, List.length_cons] at hskip ⊢
          omega
        · obtain ⟨⟨kvs, rest⟩, hmembers, heq⟩ := Option.map_eq_some_iff.mp h
          cases heq
          have hread := ihMembers _ _ _ hmembers
          simp only [valueCost, List.length_cons]
          omega
      · obtain ⟨hcost, -, hlength⟩ := length_atom h
        rw [hcost, Nat.zero_add]
        exact hlength
    · intro s vs r h
      rw [elements] at h
      obtain ⟨⟨v, t⟩, hvalue, h⟩ := Option.bind_eq_some_iff.mp h
      have hread := ihValue _ _ _ hvalue
      have hskip := length_skipWs_le t
      simp only at h
      split at h
      · rename_i u hcomma
        obtain ⟨⟨vs', rest⟩, helements, heq⟩ := Option.map_eq_some_iff.mp h
        cases heq
        have hrest := ihElements _ _ _ helements
        have hskip' := length_skipWs_le u
        rw [hcomma] at hskip
        simp only [List.length_cons] at hskip ⊢
        omega
      · rename_i u hclose
        cases h
        rw [hclose] at hskip
        simp only [List.length_cons] at hskip
        omega
      · cases h
    · intro s kvs r h
      rw [members.eq_def] at h
      simp only at h
      split at h
      · rename_i s
        obtain ⟨⟨k, t⟩, hkey, h⟩ := Option.bind_eq_some_iff.mp h
        have hread := length_string hkey
        have hskip := length_skipWs_le t
        simp only at h
        split at h
        · rename_i u hcolon
          obtain ⟨⟨v, w⟩, hvalue, h⟩ := Option.bind_eq_some_iff.mp h
          have hreadValue := ihValue _ _ _ hvalue
          have hskipValue := length_skipWs_le u
          have hskipRest := length_skipWs_le w
          rw [hcolon] at hskip
          simp only at h
          split at h
          · rename_i x hcomma
            obtain ⟨⟨kvs', rest⟩, hmembers, heq⟩ := Option.map_eq_some_iff.mp h
            cases heq
            have hrest := ihMembers _ _ _ hmembers
            have hskipMembers := length_skipWs_le x
            rw [hcomma] at hskipRest
            simp only [entriesCost, entryCost, List.map_cons, List.sum_cons, List.length_cons] at *
            omega
          · rename_i x hclose
            cases h
            rw [hclose] at hskipRest
            simp only [entriesCost, entryCost, List.map_cons, List.map_nil, List.sum_cons,
              List.sum_nil, List.length_cons] at *
            omega
          · cases h
        · cases h
      · cases h

theorem members_nil (rt : Runtime) (n : Nat) : members rt n [] = none := by
  cases n <;> rfl

theorem entriesCost_set_le (d : Dict Value) (key : Str) (v : Value) :
    entriesCost (d.set key v) ≤ entriesCost d + entryCost (key, v) := by
  induction d with
  | nil => simp [Dict.set, entriesCost]
  | cons kv d ih =>
    obtain ⟨k, w⟩ := kv
    rw [Dict.set]
    split
    · rename_i hkey
      simp only [entriesCost, List.map_cons, List.sum_cons, entryCost, hkey]
      omega
    · simp only [entriesCost, List.map_cons, List.sum_cons] at ih ⊢
      omega

/-- A dict keeps no more than the pairs it is made of. -/
theorem entriesCost_ofPairs_le (pairs : List (Str × Value)) :
    entriesCost (Dict.ofPairs pairs) ≤ entriesCost pairs := by
  induction pairs using List.reverseRecOn with
  | nil => exact Nat.le_refl 0
  | append_singleton pairs kv ih =>
    have hstep := entriesCost_set_le (Dict.ofPairs pairs) kv.1 kv.2
    have hsum : entriesCost (pairs ++ [kv]) = entriesCost pairs + entryCost kv := by
      simp [entriesCost]
    rw [Dict.ofPairs_append, hsum]
    exact hstep.trans (Nat.add_le_add_right ih _)

theorem length_join_member (kv : Str × Str) (entries : Dict Str) :
    (join "," ((kv :: entries).map member)).length + 1 = entriesCost (entriesValue (kv :: entries)) := by
  have hmember (kv : Str × Str) : (member kv).length + 1 = entryCost (kv.1, .str kv.2) := by
    simp only [member, List.length_append, List.length_cons, length_stringifyString, entryCost,
      valueCost]
    omega
  induction entries generalizing kv with
  | nil => simp [join, entriesCost, entriesValue, hmember]
  | cons kv' entries ih =>
    have hrest := ih kv'
    have hkv := hmember kv
    rw [List.map_cons] at hrest
    rw [List.map_cons, List.map_cons, join_cons, List.length_append, List.length_append]
    simp only [entriesCost, entriesValue, List.map_cons, List.sum_cons] at hrest ⊢
    have hcomma : (",".toList).length = 1 := rfl
    omega

/-- No text that loads as an object of strings, in whatever order, is shorter
than the one a page writes for it. -/
theorem length_stringify_le {rt : Runtime} {s : Str} {entries : Dict Str} {kvs : List (Str × Value)}
    (h : loads rt s = .ok (.dict kvs)) (hsame : kvs.Perm (entriesValue entries)) :
    (stringify entries).length ≤ s.length := by
  unfold loads at h
  split at h
  · rename_i v r hvalue
    split_ifs at h
    cases h
    have hskip := length_skipWs_le s
    rw [value.eq_def] at hvalue
    simp only at hvalue
    split at hvalue
    · obtain ⟨⟨text, rest⟩, -, heq⟩ := Option.map_eq_some_iff.mp hvalue
      cases heq
    · split at hvalue
      · cases hvalue
      · obtain ⟨⟨vs, rest⟩, -, heq⟩ := Option.map_eq_some_iff.mp hvalue
        cases heq
    · rename_i t hopen
      have hskipOpen := length_skipWs_le t
      rw [hopen, List.length_cons] at hskip
      split at hvalue
      · rename_i hclose
        cases hvalue
        have hnil : entries = [] := by simpa [entriesValue] using hsame.symm.eq_nil
        rw [hclose, List.length_cons] at hskipOpen
        rw [hnil]
        show 2 ≤ s.length
        omega
      · obtain ⟨⟨pairs, rest⟩, hmembers, heq⟩ := Option.map_eq_some_iff.mp hvalue
        cases heq
        have hread := (length_value rt _).2.2 _ _ _ hmembers
        have hpairs := entriesCost_ofPairs_le pairs
        have hcost : entriesCost (Dict.ofPairs pairs) = entriesCost (entriesValue entries) :=
          (hsame.map entryCost).sum_eq
        cases entries with
        | nil =>
          have hnonempty : skipWs t ≠ [] := by
            intro hnil
            rw [hnil, members_nil] at hmembers
            cases hmembers
          have hpos := List.length_pos_iff.mpr hnonempty
          show 2 ≤ s.length
          omega
        | cons kv entries =>
          have hlength := length_join_member kv entries
          rw [stringify, List.length_append, List.length_cons, List.length_singleton]
          omega
    · exact absurd rfl ((length_atom hvalue).2.1 kvs)
  · cases h

end TechMart.Web.Stringify
