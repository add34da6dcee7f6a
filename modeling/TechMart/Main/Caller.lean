import TechMart.Sql.Table

/-!
# Who is calling

The caller string of a call, the key cut from it, and the customer row
`handle_websocket` binds to the call before the pipeline starts.
-/

namespace TechMart.Main

open Python Sql

/-- The `phone_number` path segment if there is one, else the `From` query
parameter. -/
def callerPhone (queryParams : Dict Str) (phoneNumber : Str) : Str :=
  if phoneNumber.isEmpty then queryParams.getD "From" [] else phoneNumber

/-- The key the profile is looked up by. -/
def coreNumber (u : Unicode) (caller : Str) : Str :=
  let normalizedDigits := u.digits caller
  if 10 ≤ normalizedDigits.length then sliceLast normalizedDigits 10 else normalizedDigits

/-- `client.query` for `SELECT * FROM customers WHERE phone LIKE %(phone)s`. -/
abbrev PhoneQuery := Str → List Row

/-- The customers a `LIKE` pattern selects. -/
def matching (customers : Table) (pattern : Str) : List Row :=
  customers.rows.filter fun row => (customers.text row "phone").any (like pattern)

/-- The database answers with the matching rows, in any order. -/
def Serves (query : PhoneQuery) (customers : Table) : Prop :=
  ∀ pattern, (query pattern).Perm (matching customers pattern)

/-- The row `_fetch_profile` reads. -/
def fetchRow (query : PhoneQuery) (num : Str) : Option Row := (query ('%' :: num)).head?

/-- The customer row bound to the call, if any. -/
def boundRow (u : Unicode) (query : PhoneQuery) (queryParams : Dict Str) (phoneNumber : Str) :
    Option Row :=
  let caller := callerPhone queryParams phoneNumber
  if caller.isEmpty then none else fetchRow query (coreNumber u caller)

/-- `customer_profile`: the bound row under its column names, or no keys. -/
def customerProfile (u : Unicode) (customers : Table) (query : PhoneQuery)
    (queryParams : Dict Str) (phoneNumber : Str) : Dict Value :=
  match boundRow u query queryParams phoneNumber with
  | some row => Dict.ofPairs (customers.columns.zip row)
  | none => []

/-- The columns of the table `customers`. -/
def customerColumns : List Str :=
  ["customer_id", "name", "email", "phone", "age", "gender", "address", "city", "state",
   "pincode", "account_created_at", "loyalty_tier", "preferred_payment", "is_active"]

/-- Both strings hold at least ten digits, and the last ten are the same. -/
def SameLastTen (u : Unicode) (phone caller : Str) : Prop :=
  10 ≤ (u.digits phone).length ∧ 10 ≤ (u.digits caller).length ∧
  sliceLast (u.digits phone) 10 = sliceLast (u.digits caller) 10

/-- However the database orders its answer, the bound row is the caller's. -/
def IdentificationSound (u : Unicode) (customers : Table) (queryParams : Dict Str)
    (phoneNumber : Str) : Prop :=
  ∀ query, Serves query customers → ∀ row, boundRow u query queryParams phoneNumber = some row →
    ∃ phone, customers.text row "phone" = some phone ∧
      SameLastTen u phone (callerPhone queryParams phoneNumber)

theorem wildcard_not_digit (u : Unicode) {c : Char} (h : u.isdigit c = true) :
    c ≠ '%' ∧ c ≠ '_' ∧ c ≠ '\\' := by
  refine ⟨?_, ?_, ?_⟩ <;> rintro rfl <;> rw [u.isdigit_ascii _ (by decide)] at h <;>
    exact absurd h (by decide)

theorem coreNumber_digits {u : Unicode} {caller : Str} {c : Char} (h : c ∈ coreNumber u caller) :
    u.isdigit c = true := by
  apply Unicode.isdigit_of_mem_digits (s := caller)
  simp only [coreNumber] at h
  split at h
  · exact (sliceLast_suffix _ _).subset h
  · exact h

theorem coreNumber_literal (u : Unicode) (caller : Str) : Literal (coreNumber u caller) :=
  fun _ hc => wildcard_not_digit u (coreNumber_digits hc)

/-- The lookup selects exactly the customers whose phone ends in the key. -/
theorem mem_matching_iff {u : Unicode} {customers : Table} {caller : Str} {row : Row} :
    row ∈ matching customers ('%' :: coreNumber u caller) ↔
      row ∈ customers.rows ∧
      ∃ phone, customers.text row "phone" = some phone ∧ coreNumber u caller <:+ phone := by
  simp only [matching, List.mem_filter, Option.any_eq_true, like_suffix (coreNumber_literal u caller)]

theorem coreNumber_of_long {u : Unicode} {caller : Str} (h : 10 ≤ (u.digits caller).length) :
    coreNumber u caller = sliceLast (u.digits caller) 10 := if_pos h

theorem coreNumber_of_short {u : Unicode} {caller : Str} (h : ¬ 10 ≤ (u.digits caller).length) :
    coreNumber u caller = u.digits caller := if_neg h

/-- A phone that ends in the ten digits of the key has them as its last ten. -/
theorem sameLastTen_of_suffix {u : Unicode} {phone caller : Str}
    (hlong : 10 ≤ (u.digits caller).length) (h : coreNumber u caller <:+ phone) :
    SameLastTen u phone caller := by
  have hdigits : u.digits (coreNumber u caller) = coreNumber u caller :=
    Unicode.digits_of_all fun _ => coreNumber_digits
  have hsuffix : coreNumber u caller <:+ u.digits phone := hdigits ▸ h.filter _
  rw [coreNumber_of_long hlong] at hsuffix
  have hten := length_sliceLast hlong
  have heq := suffix_eq_sliceLast hsuffix
  rw [hten] at heq
  exact ⟨hten ▸ hsuffix.length_le, hlong, heq.symm⟩

theorem boundRow_mem {u : Unicode} {customers : Table} {query : PhoneQuery}
    {queryParams : Dict Str} {phoneNumber : Str} {row : Row} (hs : Serves query customers)
    (h : boundRow u query queryParams phoneNumber = some row) :
    callerPhone queryParams phoneNumber ≠ [] ∧
    row ∈ matching customers ('%' :: coreNumber u (callerPhone queryParams phoneNumber)) := by
  simp only [boundRow, List.isEmpty_iff] at h
  split at h
  · cases h
  · rename_i hne
    exact ⟨hne, (hs _).mem_iff.mp (List.mem_of_head? h)⟩

/-- Any matching customer can be the one the database returns first. -/
theorem exists_query_binding {u : Unicode} {customers : Table} {queryParams : Dict Str}
    {phoneNumber : Str} {row : Row} (hne : callerPhone queryParams phoneNumber ≠ [])
    (h : row ∈ matching customers ('%' :: coreNumber u (callerPhone queryParams phoneNumber))) :
    ∃ query, Serves query customers ∧ boundRow u query queryParams phoneNumber = some row := by
  obtain ⟨front, back, hsplit⟩ := List.append_of_mem h
  let key := '%' :: coreNumber u (callerPhone queryParams phoneNumber)
  refine ⟨fun p => if p = key then row :: (front ++ back) else matching customers p, ?_, ?_⟩
  · intro p
    by_cases hp : p = key
    · subst hp
      simp only [key, if_true, hsplit]
      exact List.perm_middle.symm
    · simp only [hp, if_false]
      exact List.Perm.refl _
  · simp [boundRow, fetchRow, hne, key]

/-- A caller string of fewer than ten digits is bound to a customer whose
phone ends in them. -/
theorem unsound_of_short {u : Unicode} {customers : Table} {queryParams : Dict Str}
    {phoneNumber : Str} {row : Row} {phone : Str}
    (hne : callerPhone queryParams phoneNumber ≠ [])
    (hshort : ¬ 10 ≤ (u.digits (callerPhone queryParams phoneNumber)).length)
    (hrow : row ∈ customers.rows) (hphone : customers.text row "phone" = some phone)
    (hsuffix : u.digits (callerPhone queryParams phoneNumber) <:+ phone) :
    ¬ IdentificationSound u customers queryParams phoneNumber := by
  intro sound
  have hmem := mem_matching_iff.mpr ⟨hrow, phone, hphone, coreNumber_of_short hshort ▸ hsuffix⟩
  obtain ⟨query, serves, bound⟩ := exists_query_binding hne hmem
  obtain ⟨_, _, _, hlong, _⟩ := sound query serves row bound
  exact hshort hlong

/-- The lookup is sound exactly for calls without a caller string, for caller
strings with at least ten digits, and for shorter ones that end no stored
phone number. -/
theorem identification_sound_iff (u : Unicode) (customers : Table) (queryParams : Dict Str)
    (phoneNumber : Str) :
    IdentificationSound u customers queryParams phoneNumber ↔
      callerPhone queryParams phoneNumber = [] ∨
      10 ≤ (u.digits (callerPhone queryParams phoneNumber)).length ∨
      ∀ row ∈ customers.rows, ∀ phone, customers.text row "phone" = some phone →
        ¬ u.digits (callerPhone queryParams phoneNumber) <:+ phone := by
  constructor
  · intro sound
    by_contra hcond
    simp only [not_or, not_forall, not_not] at hcond
    obtain ⟨hne, hshort, row, hrow, phone, hphone, hsuffix⟩ := hcond
    exact unsound_of_short hne hshort hrow hphone hsuffix sound
  · intro hcond query serves row bound
    obtain ⟨hne, hmem⟩ := boundRow_mem serves bound
    obtain ⟨hrow, phone, hphone, hsuffix⟩ := mem_matching_iff.mp hmem
    rcases hcond with hempty | hlong | hnone
    · exact absurd hempty hne
    · exact ⟨phone, hphone, sameLastTen_of_suffix hlong hsuffix⟩
    · by_cases hlong : 10 ≤ (u.digits (callerPhone queryParams phoneNumber)).length
      · exact ⟨phone, hphone, sameLastTen_of_suffix hlong hsuffix⟩
      · exact absurd (coreNumber_of_short hlong ▸ hsuffix) (hnone row hrow phone hphone)

/-- A caller who withholds the number is bound to whichever customer the
database returns first: the key is empty and the pattern is `%`. -/
theorem anonymous_caller_bound :
    ¬ IdentificationSound Unicode.ascii
      ⟨["customer_id", "phone"], [[.str "CUST-0001", .str "+91-9388062467"]]⟩
      [("From", "anonymous")] "" :=
  unsound_of_short (by decide) (by decide)
    (show [.str "CUST-0001", .str "+91-9388062467"] ∈ _ from List.mem_cons_self)
    (show _ = some ("+91-9388062467" : Str) from rfl) (by decide)

end TechMart.Main
