import Mathlib.Data.List.Basic

/-!
# Windows of a stream

A stream that comes in chunks and is read window by window, each with the state
the reader was left in by the one before. What a chunk leaves over waits for the
next. `scan_append` is why the chunks do not matter to what is read.
-/

namespace TechMart.Signal

variable {α β μ : Type} (width : ℕ) (hears : μ → List α → β × μ)

/-- What is said of each whole window, the reader's state after them and what is
left over. -/
def scan (m : μ) (xs : List α) : List β × μ × List α :=
  if _h : 0 < width ∧ width ≤ xs.length then
    let heard := hears m (xs.take width)
    let rest := scan heard.2 (xs.drop width)
    (heard.1 :: rest.1, rest.2)
  else ([], m, xs)
termination_by xs.length
decreasing_by
  rw [List.length_drop]
  omega

variable {width} {hears}

theorem scan_of_short (m : μ) {xs : List α} (h : xs.length < width) :
    scan width hears m xs = ([], m, xs) := by
  rw [scan, dif_neg]
  omega

theorem scan_of_long (hwidth : 0 < width) (m : μ) {xs : List α} (h : width ≤ xs.length) :
    scan width hears m xs =
      ((hears m (xs.take width)).1 ::
          (scan width hears (hears m (xs.take width)).2 (xs.drop width)).1,
        (scan width hears (hears m (xs.take width)).2 (xs.drop width)).2) := by
  rw [scan, dif_pos ⟨hwidth, h⟩]

/-- What is left over is less than a window. -/
theorem length_scan_left_lt (hwidth : 0 < width) (m : μ) (xs : List α) :
    (scan width hears m xs).2.2.length < width := by
  induction xs using (measure List.length).wf.induction generalizing m with
  | _ xs ih =>
    by_cases h : width ≤ xs.length
    · rw [scan_of_long hwidth m h]
      apply ih
      show (xs.drop width).length < xs.length
      rw [List.length_drop]
      omega
    · rw [scan_of_short m (Nat.lt_of_not_le h)]
      exact Nat.lt_of_not_le h

/-- One thing is said of each window. -/
theorem length_scan (hwidth : 0 < width) (m : μ) (xs : List α) :
    (scan width hears m xs).1.length * width + (scan width hears m xs).2.2.length = xs.length := by
  induction xs using (measure List.length).wf.induction generalizing m with
  | _ xs ih =>
    by_cases h : width ≤ xs.length
    · have hdrop : (xs.drop width).length < xs.length := by
        rw [List.length_drop]
        omega
      have hrest := ih (xs.drop width) hdrop (hears m (xs.take width)).2
      rw [List.length_drop] at hrest
      rw [scan_of_long hwidth m h]
      simp only [List.length_cons, Nat.succ_mul]
      omega
    · rw [scan_of_short m (Nat.lt_of_not_le h)]
      simp

/-- **Chunks do not matter.** A stream that comes in two parts is read as one. -/
theorem scan_append (hwidth : 0 < width) (m : μ) (xs ys : List α) :
    scan width hears m (xs ++ ys) =
      ((scan width hears m xs).1 ++
          (scan width hears (scan width hears m xs).2.1 ((scan width hears m xs).2.2 ++ ys)).1,
        (scan width hears (scan width hears m xs).2.1 ((scan width hears m xs).2.2 ++ ys)).2) := by
  induction xs using (measure List.length).wf.induction generalizing m with
  | _ xs ih =>
    by_cases h : width ≤ xs.length
    · have hdrop : (xs.drop width).length < xs.length := by
        rw [List.length_drop]
        omega
      have hlong : width ≤ (xs ++ ys).length := by
        rw [List.length_append]
        omega
      rw [scan_of_long hwidth m hlong, List.take_append_of_le_length h,
        List.drop_append_of_le_length h, ih (xs.drop width) hdrop, scan_of_long hwidth m h]
      rfl
    · rw [scan_of_short m (Nat.lt_of_not_le h)]
      rfl

/-- Whole windows more are read whatever waits, and as much waits after them. -/
theorem length_scan_windows (hwidth : 0 < width) (m : μ) {xs ys : List α} {n : ℕ}
    (hxs : xs.length < width) (hys : ys.length = n * width) :
    (scan width hears m (xs ++ ys)).1.length = n := by
  have hlength : (scan width hears m (xs ++ ys)).1.length * width +
      (scan width hears m (xs ++ ys)).2.2.length = (xs ++ ys).length := length_scan hwidth m _
  have hleft : (scan width hears m (xs ++ ys)).2.2.length < width := length_scan_left_lt hwidth m _
  rw [List.length_append, hys] at hlength
  generalize (scan width hears m (xs ++ ys)).2.2.length = left at hlength hleft
  apply Nat.le_antisymm
  · by_contra hgt
    have hmore := Nat.mul_le_mul_right width (Nat.lt_of_not_le hgt)
    rw [Nat.succ_mul] at hmore
    omega
  · by_contra hlt
    have hfewer := Nat.mul_le_mul_right width (Nat.lt_of_not_le hlt)
    rw [Nat.succ_mul] at hfewer
    omega

/-- `n` windows at most in a chunk of their length. -/
theorem length_scan_le (hwidth : 0 < width) (m : μ) {xs ys : List α} {n : ℕ}
    (hxs : xs.length < width) (hys : ys.length ≤ n * width) :
    (scan width hears m (xs ++ ys)).1.length ≤ n := by
  have hlength : (scan width hears m (xs ++ ys)).1.length * width +
      (scan width hears m (xs ++ ys)).2.2.length = (xs ++ ys).length := length_scan hwidth m _
  rw [List.length_append] at hlength
  by_contra hgt
  have hmore := Nat.mul_le_mul_right width (Nat.lt_of_not_le hgt)
  rw [Nat.succ_mul] at hmore
  omega

end TechMart.Signal
