import Mathlib.Algebra.Order.Monoid.Defs
import Mathlib.Data.List.Chain
import Mathlib.Order.Lattice

/-!
# A play cursor

Items that arrive one by one are played one after the other: each begins at the
end of the one before, or at its arrival if that is later. Times are of any
ordered additive monoid.
-/

namespace TechMart.Web.Playout

variable {α T : Type} [LinearOrder T]

/-- Where an item begins that arrives with the cursor there. -/
def startAt (cursor arrival : T) : T := if cursor < arrival then arrival else cursor

theorem le_startAt (cursor arrival : T) : cursor ≤ startAt cursor arrival := by
  unfold startAt
  split
  · exact le_of_lt ‹_›
  · exact le_rfl

theorem arrival_le_startAt (cursor arrival : T) : arrival ≤ startAt cursor arrival := by
  unfold startAt
  split
  · exact le_rfl
  · exact not_lt.mp ‹_›

theorem startAt_le {cursor arrival t : T} (hcursor : cursor ≤ t) (harrival : arrival ≤ t) :
    startAt cursor arrival ≤ t := by
  unfold startAt
  split
  · exact harrival
  · exact hcursor

/-- An item that comes in time begins where the cursor is. -/
theorem startAt_of_le {cursor arrival : T} (h : arrival ≤ cursor) :
    startAt cursor arrival = cursor :=
  if_neg (not_lt.mpr h)

variable [AddCommMonoid T] (arrival length : α → T)

/-- The items with the times they begin at. -/
def schedule : (cursor : T) → List α → List (α × T)
  | _, [] => []
  | cursor, x :: xs =>
    (x, startAt cursor (arrival x)) :: schedule (startAt cursor (arrival x) + length x) xs

/-- When an item of the schedule ends. -/
def finish (p : α × T) : T := p.2 + length p.1

/-- Where the cursor is after some items. -/
def cursorAfter (cursor : T) (xs : List α) : T :=
  xs.foldl (fun cursor x => startAt cursor (arrival x) + length x) cursor

variable {arrival length}

theorem cursorAfter_concat (cursor : T) (xs : List α) (x : α) :
    cursorAfter arrival length cursor (xs ++ [x]) =
      startAt (cursorAfter arrival length cursor xs) (arrival x) + length x :=
  List.foldl_concat ..

theorem map_fst_schedule (cursor : T) (xs : List α) :
    (schedule arrival length cursor xs).map Prod.fst = xs := by
  induction xs generalizing cursor with
  | nil => rfl
  | cons x xs ih => rw [schedule, List.map_cons, ih]

theorem arrival_le (cursor : T) (xs : List α) :
    ∀ p ∈ schedule arrival length cursor xs, arrival p.1 ≤ p.2 := by
  induction xs generalizing cursor with
  | nil => simp [schedule]
  | cons x xs ih =>
    intro p hp
    rcases List.mem_cons.mp hp with rfl | hp
    · exact arrival_le_startAt cursor (arrival x)
    · exact ih _ p hp

/-- Two items in a row leave a gap only if the later one comes late. -/
theorem contiguous (cursor : T) (xs : List α) :
    (schedule arrival length cursor xs).IsChain fun p q =>
      arrival q.1 ≤ finish length p → q.2 = finish length p := by
  induction xs generalizing cursor with
  | nil => exact .nil
  | cons x xs ih =>
    cases xs with
    | nil => exact .singleton _
    | cons y ys => exact .cons_cons startAt_of_le (ih _)

variable [IsOrderedAddMonoid T]

theorem cursor_le (hlength : ∀ x, 0 ≤ length x) (cursor : T) (xs : List α) :
    ∀ p ∈ schedule arrival length cursor xs, cursor ≤ p.2 := by
  induction xs generalizing cursor with
  | nil => simp [schedule]
  | cons x xs ih =>
    intro p hp
    have hstart := le_startAt cursor (arrival x)
    rcases List.mem_cons.mp hp with rfl | hp
    · exact hstart
    · exact (hstart.trans (le_add_of_nonneg_right (hlength x))).trans (ih _ p hp)

theorem le_cursorAfter (hlength : ∀ x, 0 ≤ length x) (cursor : T) (xs : List α) :
    cursor ≤ cursorAfter arrival length cursor xs := by
  induction xs generalizing cursor with
  | nil => exact le_rfl
  | cons x xs ih =>
    have hstart := le_startAt cursor (arrival x)
    exact (hstart.trans (le_add_of_nonneg_right (hlength x))).trans (ih _)

theorem finish_le_cursorAfter (hlength : ∀ x, 0 ≤ length x) (cursor : T) (xs : List α) :
    ∀ p ∈ schedule arrival length cursor xs,
      finish length p ≤ cursorAfter arrival length cursor xs := by
  induction xs generalizing cursor with
  | nil => exact List.forall_mem_nil _
  | cons x xs ih => exact List.forall_mem_cons.mpr ⟨le_cursorAfter hlength _ xs, ih _⟩

/-- No two items overlap, and they play in the order they came in. -/
theorem disjoint (hlength : ∀ x, 0 ≤ length x) (cursor : T) (xs : List α) :
    (schedule arrival length cursor xs).Pairwise fun p q => finish length p ≤ q.2 := by
  induction xs generalizing cursor with
  | nil => exact .nil
  | cons x xs ih => exact .cons (cursor_le hlength _ xs) (ih _)

/-! ## Two cursors -/

section
variable {β : Type} {arrival' length' : β → T} {cursor cursor' late : T} {xs : List α} {ys : List β}

theorem startAt_late {a a' : T} (hcursor : cursor ≤ cursor' + late) (harrival : a ≤ a' + late) :
    startAt cursor a ≤ startAt cursor' a' + late := by
  rw [startAt]
  split
  · apply harrival.trans
    exact add_le_add_left (arrival_le_startAt cursor' a') late
  · apply hcursor.trans
    exact add_le_add_left (le_startAt cursor' a') late

/-- Items that are late, by no more than some time, end as late. -/
theorem cursorAfter_late
    (h : List.Forall₂ (fun x y => arrival x ≤ arrival' y + late ∧ length x = length' y) xs ys)
    (hcursor : cursor ≤ cursor' + late) :
    cursorAfter arrival length cursor xs ≤ cursorAfter arrival' length' cursor' ys + late := by
  induction h generalizing cursor cursor' with
  | nil => exact hcursor
  | @cons x y xs ys hxy _ ih =>
    obtain ⟨harrival, hlength⟩ := hxy
    have hnext : startAt cursor (arrival x) + length x ≤
        startAt cursor' (arrival' y) + length' y + late := by
      rw [hlength, add_right_comm]
      exact add_le_add_left (startAt_late hcursor harrival) (length' y)
    exact ih hnext

/-- So they do whatever the other cursor, if theirs waits for them. -/
theorem cursorAfter_late_of_le
    (h : List.Forall₂ (fun x y => arrival x ≤ arrival' y + late ∧ length x = length' y) xs ys)
    (hcursor : ∀ x ∈ xs, cursor ≤ arrival x) (hsome : xs ≠ []) (cursor' : T) :
    cursorAfter arrival length cursor xs ≤ cursorAfter arrival' length' cursor' ys + late := by
  cases h with
  | nil => exact absurd rfl hsome
  | @cons x y xs ys hxy hrest =>
    obtain ⟨harrival, hlength⟩ := hxy
    have hfirst : startAt cursor (arrival x) ≤ arrival x :=
      startAt_le (hcursor x List.mem_cons_self) le_rfl
    have hstart : startAt cursor (arrival x) ≤ startAt cursor' (arrival' y) + late :=
      (hfirst.trans harrival).trans (add_le_add_left (arrival_le_startAt cursor' _) late)
    have hnext : startAt cursor (arrival x) + length x ≤
        startAt cursor' (arrival' y) + length' y + late := by
      rw [hlength, add_right_comm]
      exact add_le_add_left hstart (length' y)
    have hlate := cursorAfter_late hrest hnext
    exact hlate

end

end TechMart.Web.Playout
