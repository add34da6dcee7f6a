import TechMart.Python.Value

/-!
# Tables and LIKE

A database is its tables by name. A table keeps its rows in the order a scan
returns them. `like` is the standard matcher; `like_suffix` is the one law of
it a suffix search needs.
-/

namespace TechMart.Sql

open Python

abbrev Row := List Value

structure Table where
  columns : List Str
  rows : List Row

abbrev Database := Str → Option Table

/-- The value of a named column in a row of the table. -/
def Table.cell (t : Table) (row : Row) (column : Str) : Option Value :=
  Dict.get? (t.columns.zip row) column

/-- The text of a `String` column. -/
def Table.text (t : Table) (row : Row) (column : Str) : Option Str :=
  match t.cell row column with
  | some (.str s) => some s
  | _ => none

/-- `s LIKE pattern`: `%` is any text, `_` any one character, a backslash
takes the next character literally. -/
def like : Str → Str → Bool
  | [], s => s.isEmpty
  | '%' :: p, s => s.tails.any (like p)
  | '_' :: p, s => match s with
    | [] => false
    | _ :: s => like p s
  | '\\' :: c :: p, s => match s with
    | [] => false
    | d :: s => c == d && like p s
  | c :: p, s => match s with
    | [] => false
    | d :: s => c == d && like p s

/-- No character of the pattern is special to `LIKE`. -/
def Literal (p : Str) : Prop := ∀ c ∈ p, c ≠ '%' ∧ c ≠ '_' ∧ c ≠ '\\'

theorem like_cons_of_literal {c : Char} (hc : c ≠ '%' ∧ c ≠ '_' ∧ c ≠ '\\') (p : Str) (d : Char)
    (s : Str) : like (c :: p) (d :: s) = (c == d && like p s) := by
  obtain ⟨h₁, h₂, h₃⟩ := hc
  rw [like.eq_def]
  split <;> simp_all

theorem like_cons_nil_of_literal {c : Char} (hc : c ≠ '%' ∧ c ≠ '_' ∧ c ≠ '\\') (p : Str) :
    like (c :: p) [] = false := by
  obtain ⟨h₁, h₂, h₃⟩ := hc
  rw [like.eq_def]
  split <;> simp_all

theorem like_literal {p : Str} (hp : Literal p) (s : Str) : like p s = true ↔ s = p := by
  induction p generalizing s with
  | nil => simp [like]
  | cons c p ih =>
    have hc := hp c List.mem_cons_self
    have hp' : Literal p := fun d hd => hp d (List.mem_cons_of_mem c hd)
    cases s with
    | nil => simp [like_cons_nil_of_literal hc]
    | cons d s =>
      rw [like_cons_of_literal hc, Bool.and_eq_true, beq_iff_eq, ih hp', List.cons.injEq, eq_comm]

/-- A pattern `%d` matches exactly the texts that end in `d`. -/
theorem like_suffix {d : Str} (hd : Literal d) (s : Str) : like ('%' :: d) s = true ↔ d <:+ s := by
  simp only [like, List.any_eq_true, List.mem_tails, like_literal hd]
  constructor
  · rintro ⟨t, ht, rfl⟩
    exact ht
  · exact fun h => ⟨d, h, rfl⟩

end TechMart.Sql
