import TechMart.Web.Stringify

/-!
# Messages of nested objects

`JSON.stringify` of an object whose members are written already, so that
objects nest. What a text reads as is said of the text alone, whatever follows
it; an object reads as its members do.
-/

namespace TechMart.Web.Message

open Python Json Stringify

/-- `JSON.stringify` of an object, from the texts of its members. -/
def objectMember (kv : Str × Str) : Str := stringifyString kv.1 ++ ':' :: kv.2

def object (fields : List (Str × Str)) : Str :=
  '\x7b' :: join "," (fields.map objectMember) ++ ['\x7d']

/-- The text is one value, whatever comes after it. -/
structure Reads (rt : Runtime) (text : Str) (v : Value) : Prop where
  value : ∀ n r, text.length ≤ n → value rt n (text ++ r) = some (v, r)
  start : ∀ r, skipWs (text ++ r) = text ++ r

/-- A member with the same key whose text reads as the value. -/
structure ReadsMember (rt : Runtime) (field : Str × Str) (kv : Str × Value) : Prop where
  key : field.1 = kv.1
  text : Reads rt field.2 kv.2

variable {rt : Runtime}

theorem loads_of_reads {text : Str} {v : Value} (h : Reads rt text v) : loads rt text = .ok v := by
  have hstart := h.start []
  have hvalue := h.value (text.length + 1) [] (Nat.le_succ _)
  rw [List.append_nil] at hstart hvalue
  rw [loads, hstart, hvalue]
  rfl

theorem reads_string (rt : Runtime) (s : Str) : Reads rt (stringifyString s) (.str s) := by
  constructor
  · intro n r hn
    have hpos : 1 ≤ n := le_trans (by simp [stringifyString]) hn
    obtain ⟨m, rfl⟩ := Nat.exists_eq_add_of_le' hpos
    exact value_stringify rt m s r
  · intro r
    exact skipWs_stringifyString s r

theorem objectMember_append (kv : Str × Str) (r : Str) :
    objectMember kv ++ r = '"' :: (stringTail kv.1 ++ ':' :: (kv.2 ++ r)) := by
  simp [objectMember, stringifyString, List.append_assoc]

theorem length_objectMember (kv : Str × Str) :
    kv.2.length + 3 ≤ (objectMember kv).length := by
  have htail : 1 ≤ (stringTail kv.1).length := by simp [stringTail]
  have hlength := congrArg List.length (objectMember_append kv [])
  simp only [List.append_nil, List.length_cons, List.length_append] at hlength
  omega

/-- The last member of an object. -/
theorem members_closed {field : Str × Str} {kv : Str × Value} (h : ReadsMember rt field kv)
    {n : Nat} (hn : field.2.length ≤ n) (r : Str) :
    members rt (n + 1) (objectMember field ++ '\x7d' :: r) = some ([kv], r) := by
  obtain ⟨hkey, htext⟩ := h
  rw [objectMember_append, members]
  simp only [string_stringTail, Option.bind_some, skipWs_cons (show isWs ':' = false from rfl),
    htext.start, htext.value n _ hn, hkey, skipWs_cons (show isWs '\x7d' = false from rfl)]

theorem members_comma {field : Str × Str} {kv : Str × Value} (h : ReadsMember rt field kv)
    {n : Nat} (hn : field.2.length ≤ n) (r : Str) :
    members rt (n + 1) (objectMember field ++ ',' :: r) =
      (members rt n (skipWs r)).map fun r => (kv :: r.1, r.2) := by
  obtain ⟨hkey, htext⟩ := h
  rw [objectMember_append, members]
  simp only [string_stringTail, Option.bind_some, skipWs_cons (show isWs ':' = false from rfl),
    htext.start, htext.value n _ hn, hkey, skipWs_cons (show isWs ',' = false from rfl)]

theorem skipWs_members (field : Str × Str) (fields : List (Str × Str)) (r : Str) :
    skipWs (join "," ((field :: fields).map objectMember) ++ r) =
      join "," ((field :: fields).map objectMember) ++ r := by
  cases fields with
  | nil => simp [join, objectMember_append, skipWs_cons, isWs]
  | cons f fs => simp [join_cons, objectMember_append, skipWs_cons, isWs]

theorem members_join {fields : List (Str × Str)} {kvs : List (Str × Value)}
    (h : List.Forall₂ (ReadsMember rt) fields kvs) (hne : fields ≠ []) {n : Nat}
    (hn : (join "," (fields.map objectMember)).length ≤ n) (r : Str) :
    members rt n (join "," (fields.map objectMember) ++ '\x7d' :: r) = some (kvs, r) := by
  induction h generalizing n with
  | nil => exact absurd rfl hne
  | @cons field kv fields kvs hfield hfields ih =>
    have hmember := length_objectMember field
    cases fields with
    | nil =>
      cases hfields
      have hjoin : join "," ([field].map objectMember) = objectMember field := by simp [join]
      rw [hjoin] at hn ⊢
      obtain ⟨m, rfl⟩ := Nat.exists_eq_add_of_le' (show 1 ≤ n by omega)
      exact members_closed hfield (by omega) r
    | cons f fs =>
      have hjoin : join "," ((field :: f :: fs).map objectMember) =
          objectMember field ++ ',' :: join "," ((f :: fs).map objectMember) := by
        simp [join_cons, List.append_assoc]
      rw [hjoin] at hn ⊢
      rw [List.length_append, List.length_cons] at hn
      obtain ⟨m, rfl⟩ := Nat.exists_eq_add_of_le' (show 1 ≤ n by omega)
      have hrest := ih (List.cons_ne_nil f fs) (n := m) (by omega)
      rw [List.append_assoc, List.cons_append, members_comma hfield (by omega), skipWs_members,
        hrest, Option.map_some]

/-- An object reads as its members do. -/
theorem reads_object {fields : List (Str × Str)} {kvs : List (Str × Value)}
    (h : List.Forall₂ (ReadsMember rt) fields kvs) (hkeys : (Dict.keys kvs).Nodup) :
    Reads rt (object fields) (.dict kvs) := by
  constructor
  · intro n r hn
    cases fields with
    | nil =>
      cases h
      obtain ⟨m, rfl⟩ := Nat.exists_eq_add_of_le' (show 1 ≤ n from le_trans (by simp [object]) hn)
      rfl
    | cons field fields =>
      have hlength : (object (field :: fields)).length =
          (join "," ((field :: fields).map objectMember)).length + 2 := by simp [object]
      obtain ⟨m, rfl⟩ := Nat.exists_eq_add_of_le' (show 1 ≤ n by omega)
      have hmembers := members_join h (List.cons_ne_nil _ _) (n := m) (by omega) r
      obtain ⟨t, ht⟩ : ∃ t, join "," ((field :: fields).map objectMember) ++ '\x7d' :: r =
          '"' :: t := by
        cases fields with
        | nil => exact ⟨_, by simp [join, objectMember_append]; rfl⟩
        | cons f fs => exact ⟨_, by simp [join_cons, objectMember_append]; rfl⟩
      have hshape : object (field :: fields) ++ r =
          '\x7b' :: (join "," ((field :: fields).map objectMember) ++ '\x7d' :: r) := by
        simp [object]
      rw [ht] at hmembers
      rw [hshape, ht, value_object, hmembers, Option.map_some, Dict.ofPairs_of_nodup hkeys]
  · intro r
    rfl

end TechMart.Web.Message
