import Mathlib.Data.List.DropRight
import Mathlib.Data.List.Flatten

/-!
# A debouncer

Decisions come in calls, any number in each. Only at the end of a call is it
looked whether enough of the last decisions say the same to change sides.
`switches_iff` is the price of that: how long a run must be for the change of
sides not to depend on how the decisions are cut into calls.
-/

namespace TechMart.Signal

/-- How many decisions at the end are `b`, without a gap. -/
def trailing (b : Bool) (decisions : List Bool) : ℕ := (decisions.rtakeWhile (· == b)).length

@[simp] theorem trailing_nil (b : Bool) : trailing b [] = 0 := rfl

theorem trailing_concat (b d : Bool) (decisions : List Bool) :
    trailing b (decisions ++ [d]) = if d = b then trailing b decisions + 1 else 0 := by
  rw [trailing, List.rtakeWhile_concat]
  by_cases h : d = b
  · simp [h, trailing]
  · simp [h]

theorem trailing_append_replicate (b : Bool) (decisions : List Bool) (n : ℕ) :
    trailing b (decisions ++ List.replicate n b) = trailing b decisions + n := by
  induction n with
  | zero => simp
  | succ n ih =>
    rw [List.replicate_succ', ← List.append_assoc, trailing_concat, if_pos rfl, ih]
    omega

theorem trailing_append_other (b : Bool) (decisions : List Bool) {n : ℕ} (hn : 0 < n) :
    trailing b (decisions ++ List.replicate n (!b)) = 0 := by
  obtain ⟨m, rfl⟩ := Nat.exists_eq_add_of_lt hn
  rw [Nat.zero_add, List.replicate_succ', ← List.append_assoc, trailing_concat]
  cases b <;> rfl

/-- Decisions end one way only. -/
theorem trailing_not {b : Bool} {decisions : List Bool} (h : 0 < trailing b decisions) :
    trailing (!b) decisions = 0 := by
  induction decisions using List.reverseRecOn with
  | nil => cases h
  | append_singleton decisions d _ =>
    rw [trailing_concat] at h ⊢
    by_cases hd : d = b
    · subst hd
      cases d <;> rfl
    · rw [if_neg hd] at h
      cases h

theorem trailing_append_le (b : Bool) (decisions more : List Bool) :
    trailing b (decisions ++ more) ≤ trailing b decisions + more.count b := by
  induction more using List.reverseRecOn with
  | nil => simp
  | append_singleton more d ih =>
    rw [← List.append_assoc, trailing_concat, List.count_append]
    split
    · rename_i hd
      rw [hd, List.count_singleton_self]
      omega
    · exact Nat.zero_le _

/-- How many decisions of a kind it takes to change to its side. -/
structure Thresholds where
  need : Bool → ℕ
  pos : ∀ b, 0 < need b

variable (t : Thresholds)

/-- The side after a call, from the side before it and all decisions so far. -/
def check (side : Bool) (heard : List Bool) : Bool :=
  if t.need (!side) ≤ trailing (!side) heard then !side else side

/-- The side after some calls. -/
def settle : (heard : List Bool) → (side : Bool) → List (List Bool) → Bool
  | _, side, [] => side
  | heard, side, call :: calls =>
    settle (heard ++ call) (check t side (heard ++ call)) calls

variable {t}

theorem settle_append (heard : List Bool) (side : Bool) (calls more : List (List Bool)) :
    settle t heard side (calls ++ more) =
      settle t (heard ++ calls.flatten) (settle t heard side calls) more := by
  induction calls generalizing heard side with
  | nil => simp [settle]
  | cons call calls ih =>
    rw [List.cons_append, settle, settle, ih, List.flatten_cons, List.append_assoc]

theorem check_of_need {b : Bool} {heard : List Bool} (h : t.need b ≤ trailing b heard)
    (side : Bool) : check t side heard = b := by
  have hzero := trailing_not (Nat.lt_of_lt_of_le (t.pos b) h)
  unfold check
  by_cases hside : side = b
  · rw [hside, hzero, if_neg (Nat.not_le.mpr (t.pos _))]
  · have hother : (!side) = b := by cases side <;> cases b <;> simp_all
    rw [hother, if_pos h]

/-- To look again changes nothing. -/
theorem check_check (side : Bool) (heard : List Bool) :
    check t (check t side heard) heard = check t side heard := by
  by_cases h : t.need (!side) ≤ trailing (!side) heard
  · rw [check_of_need h, check_of_need h]
  · have hsame : check t side heard = side := if_neg h
    rw [hsame, hsame]

/-- After a call that ends with enough of them, that is the side. -/
theorem settle_of_need {b : Bool} {heard : List Bool} (side : Bool) {calls : List (List Bool)}
    (hne : calls ≠ []) (h : t.need b ≤ trailing b (heard ++ calls.flatten)) :
    settle t heard side calls = b := by
  obtain ⟨before, call, rfl⟩ := List.eq_nil_or_concat' calls |>.resolve_left hne
  rw [settle_append, settle, settle]
  apply check_of_need
  rw [List.flatten_append, ← List.append_assoc] at h
  simpa using h

/-- While no call ends with enough of the others, the side stays. -/
theorem settle_of_short {b : Bool} {heard : List Bool} {calls : List (List Bool)}
    (h : ∀ before, before <+: calls → trailing b (heard ++ before.flatten) < t.need b) :
    settle t heard (!b) calls = !b := by
  induction calls generalizing heard with
  | nil => rfl
  | cons call calls ih =>
    have hfirst := h [call] (List.prefix_append [call] calls)
    have hcheck : check t (!b) (heard ++ call) = !b := by
      rw [check, Bool.not_not, if_neg (by simpa using hfirst)]
    rw [settle, hcheck]
    apply ih
    intro before hbefore
    have hcons := h (call :: before) (List.prefix_cons_inj call |>.mpr hbefore)
    simpa [List.append_assoc] using hcons

/-! ## Calls of a bounded length -/

/-- A list of calls of at most `k` decisions each. -/
def Bounded (k : ℕ) (calls : List (List Bool)) : Prop := ∀ c ∈ calls, c.length ≤ k

/-- Some call ends at a given place or less than `k` after it. -/
theorem exists_boundary {k : ℕ} {calls : List (List Bool)} (hcalls : Bounded k calls)
    {place : ℕ} (hpos : 0 < place) (hplace : place ≤ calls.flatten.length) :
    ∃ before, before <+: calls ∧ place ≤ before.flatten.length ∧
      before.flatten.length < place + k := by
  induction calls using List.reverseRecOn with
  | nil =>
    simp at hplace
    omega
  | append_singleton calls call ih =>
    by_cases hearlier : place ≤ calls.flatten.length
    · have hshort : ∀ c ∈ calls, c.length ≤ k := fun c hc => hcalls c (List.mem_append_left _ hc)
      obtain ⟨before, hprefix, hlow, hhigh⟩ := ih hshort hearlier
      exact ⟨before, hprefix.trans (List.prefix_append calls [call]), hlow, hhigh⟩
    · have hcall := hcalls call (by simp)
      refine ⟨calls ++ [call], List.prefix_rfl, hplace, ?_⟩
      simp only [List.flatten_append, List.flatten_singleton, List.length_append]
      omega

/-- What holds of the beginnings of two lists holds of those of the whole. -/
theorem forall_prefix_append {α : Type} {P : List α → Prop} {xs ys : List α}
    (hxs : ∀ before, before <+: xs → P before)
    (hys : ∀ before, before <+: ys → P (xs ++ before)) :
    ∀ before, before <+: xs ++ ys → P before := by
  intro before h
  cases List.prefix_or_prefix_of_prefix h (List.prefix_append xs ys) with
  | inl hshort => exact hxs before hshort
  | inr hlong =>
    obtain ⟨rest, rfl⟩ := hlong
    exact hys rest ((List.prefix_append_right_inj xs).mp h)

theorem flatten_prefix {α : Type} {before calls : List (List α)} (h : before <+: calls) :
    before.flatten <+: calls.flatten := by
  obtain ⟨rest, rfl⟩ := h
  rw [List.flatten_append]
  exact List.prefix_append ..

def singles (decisions : List Bool) : List (List Bool) := decisions.map fun d => [d]

theorem flatten_singles (decisions : List Bool) : (singles decisions).flatten = decisions := by
  induction decisions with
  | nil => rfl
  | cons d decisions ih => exact congrArg (d :: ·) ih

/-- Calls that hide a run: one decision at a time up to just before it would be
enough, then the rest of the run at once with the decision after it. -/
def hide (b : Bool) (n shown hidden m : ℕ) : List (List Bool) :=
  singles (List.replicate n (!b)) ++ (singles (List.replicate shown b) ++
    ((List.replicate hidden b ++ [!b]) :: singles (List.replicate m (!b))))

theorem flatten_hide (b : Bool) (n shown hidden m : ℕ) : (hide b n shown hidden m).flatten =
    List.replicate n (!b) ++ List.replicate (shown + hidden) b ++ List.replicate (m + 1) (!b) := by
  rw [hide, List.flatten_append, List.flatten_append, List.flatten_cons, flatten_singles,
    flatten_singles, flatten_singles, List.replicate_succ, ← List.replicate_append_replicate]
  simp only [List.append_assoc, List.singleton_append]

theorem length_hide {b : Bool} {n shown hidden m k : ℕ} (h : hidden + 1 ≤ k) :
    ∀ c ∈ hide b n shown hidden m, c.length ≤ k := by
  have hsingles (decisions : List Bool) : ∀ c ∈ singles decisions, c.length ≤ k := by
    intro c hc
    obtain ⟨d, _, rfl⟩ := List.mem_map.mp hc
    rw [List.length_singleton]
    omega
  simp only [hide, List.forall_mem_append, List.forall_mem_cons]
  refine ⟨hsingles _, hsingles _, ?_, hsingles _⟩
  simpa using h

/-- What begins a list of one decision only is that decision, again and again. -/
theorem eq_replicate_of_prefix {b : Bool} {decisions : List Bool} {n : ℕ}
    (h : decisions <+: List.replicate n b) : decisions = List.replicate decisions.length b := by
  apply List.eq_replicate_of_mem
  intro d hd
  exact List.eq_of_mem_replicate (h.subset hd)

/-- No call of these ends with more than is shown of the run. -/
theorem trailing_hide {b : Bool} {heard : List Bool} (hheard : trailing b heard = 0)
    (n shown hidden m : ℕ) : ∀ before, before <+: hide b n shown hidden m →
      trailing b (heard ++ before.flatten) ≤ shown := by
  -- whatever begins with no more of the run than is shown
  have hfew {decisions : List Bool} (hcount : decisions.count b ≤ shown) :
      trailing b (heard ++ decisions) ≤ shown := by
    have hle := trailing_append_le b heard decisions
    omega
  have hquiet (n : ℕ) : (List.replicate n (!b)).count b = 0 := by
    apply List.count_eq_zero_of_not_mem
    intro hmem
    have heq := List.eq_of_mem_replicate hmem
    cases b <;> cases heq
  apply forall_prefix_append
  · intro before hbefore
    have hprefix := flatten_prefix hbefore
    rw [flatten_singles] at hprefix
    have hcount := hprefix.sublist.count_le b
    rw [hquiet] at hcount
    exact hfew (by omega)
  apply forall_prefix_append
  · intro before hbefore
    have hprefix := flatten_prefix hbefore
    rw [flatten_singles] at hprefix
    have hcount := hprefix.sublist.count_le b
    rw [List.count_replicate_self] at hcount
    apply hfew
    rw [List.flatten_append, flatten_singles, List.count_append, hquiet]
    omega
  · intro before hbefore
    cases before with
    | nil =>
      apply hfew
      rw [List.append_nil, List.flatten_append, flatten_singles, flatten_singles, List.count_append,
        hquiet, List.count_replicate_self]
      omega
    | cons call before =>
      obtain ⟨rfl, hrest⟩ := List.cons_prefix_cons.mp hbefore
      have hprefix := flatten_prefix hrest
      rw [flatten_singles] at hprefix
      have hsame := eq_replicate_of_prefix hprefix
      have hshape : heard ++ (singles (List.replicate n (!b)) ++
          (singles (List.replicate shown b) ++
            (List.replicate hidden b ++ [!b]) :: before)).flatten =
          (heard ++ List.replicate n (!b) ++ List.replicate shown b ++ List.replicate hidden b) ++
            List.replicate (before.flatten.length + 1) (!b) := by
        rw [List.flatten_append, List.flatten_append, List.flatten_cons, flatten_singles,
          flatten_singles, List.replicate_succ, ← hsame]
        simp only [List.append_assoc, List.singleton_append]
      rw [hshape, trailing_append_other b _ (Nat.succ_pos _)]
      exact Nat.zero_le _

/-- **How long is long enough.** Among others, a run of `L` decisions `b`: every
way to cut them into calls of at most `k` changes sides at the end of some call
if and only if the run is `k - 1` longer than it would have to be decision by
decision. -/
theorem switches_iff {b : Bool} {heard : List Bool} (hheard : trailing b heard = 0) {k : ℕ}
    (hk : 0 < k) (n L m : ℕ) :
    (∀ calls, Bounded k calls → calls.flatten =
          List.replicate n (!b) ++ List.replicate L b ++ List.replicate (m + 1) (!b) →
        ∃ before, before <+: calls ∧ settle t heard (!b) before = b) ↔
      t.need b + k ≤ L + 1 := by
  have hneed := t.pos b
  constructor
  · intro h
    by_contra hshort
    -- one decision too few is shown
    have hshown : ∃ shown hidden, shown + hidden = L ∧ shown < t.need b ∧ hidden + 1 ≤ k := by
      by_cases hL : L < t.need b
      · exact ⟨L, 0, rfl, hL, hk⟩
      · exact ⟨t.need b - 1, L - (t.need b - 1), by omega, by omega, by omega⟩
    obtain ⟨shown, hidden, rfl, hlt, hle⟩ := hshown
    obtain ⟨before, hprefix, hsettle⟩ := h _ (length_hide hle) (flatten_hide b n shown hidden m)
    have hstay : settle t heard (!b) before = !b := by
      apply settle_of_short
      intro earlier hearlier
      exact Nat.lt_of_le_of_lt
        (trailing_hide hheard n shown hidden m earlier (hearlier.trans hprefix)) hlt
    rw [hstay] at hsettle
    cases b <;> cases hsettle
  · intro hlong calls hcalls hflatten
    have hplace : n + t.need b ≤ calls.flatten.length := by
      rw [hflatten]
      simp only [List.length_append, List.length_replicate]
      omega
    obtain ⟨before, hprefix, hlow, hhigh⟩ := exists_boundary hcalls (by omega) hplace
    -- the call ends within the run
    have hwithin : before.flatten = List.replicate n (!b) ++
        List.replicate (before.flatten.length - n) b := by
      have hruns := flatten_prefix hprefix
      rw [hflatten] at hruns
      have hrun : List.replicate n (!b) ++ List.replicate (before.flatten.length - n) b <+:
          List.replicate n (!b) ++ List.replicate L b ++ List.replicate (m + 1) (!b) := by
        rw [List.append_assoc]
        apply (List.prefix_append_right_inj _).mpr
        apply List.IsPrefix.trans _ (List.prefix_append ..)
        apply List.prefix_replicate_iff.mpr
        rw [List.length_replicate]
        exact ⟨by omega, rfl⟩
      apply (List.prefix_of_prefix_length_le hruns hrun _).eq_of_length
      · simp only [List.length_append, List.length_replicate]
        omega
      · simp only [List.length_append, List.length_replicate]
        omega
    have hquiet : trailing b (heard ++ List.replicate n (!b)) = 0 := by
      cases n with
      | zero => simpa using hheard
      | succ n => exact trailing_append_other b heard (Nat.succ_pos n)
    refine ⟨before, hprefix, settle_of_need _ ?_ ?_⟩
    · rintro rfl
      simp at hlow
      omega
    · rw [hwithin, ← List.append_assoc, trailing_append_replicate, hquiet]
      omega

end TechMart.Signal
