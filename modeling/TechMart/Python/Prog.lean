import Mathlib.Logic.Function.Basic

/-!
# Programs that call out

A coroutine, or a handler that talks to a database, is a tree: it ends, it
raises, or it makes one call and goes on with the answer, which can be an
exception raised at that call. `Pool` interleaves any family of such programs
over one shared store, one call at a time.
-/

namespace TechMart.Python

/-- `E` exceptions, `Q` calls, `A` answers, `α` the value returned. -/
inductive Prog (E Q A α : Type) where
  | done (a : α)
  | raise (e : E)
  | call (q : Q) (k : Except E A → Prog E Q A α)

namespace Prog

variable {E Q A α β : Type}

def bind : Prog E Q A α → (α → Prog E Q A β) → Prog E Q A β
  | .done a, f => f a
  | .raise e, _ => .raise e
  | .call q k, f => .call q fun ans => (k ans).bind f

/-- One call whose exception is not handled here. -/
def perform (q : Q) : Prog E Q A A :=
  .call q fun
    | .ok a => .done a
    | .error e => .raise e

/-- A pure computation that may raise. -/
def ofExcept : Except E α → Prog E Q A α
  | .ok a => .done a
  | .error e => .raise e

/-- `try: body` with the handlers `handler`; an exception no handler takes is
raised again by `handler` itself. -/
def tryCatch : Prog E Q A α → (E → Prog E Q A α) → Prog E Q A α
  | .done a, _ => .done a
  | .raise e, handler => handler e
  | .call q k, handler => .call q fun ans => (k ans).tryCatch handler

/-- `try: body` with `finally: final`. -/
def tryFinally : Prog E Q A α → Prog E Q A Unit → Prog E Q A α
  | .done a, final => final.bind fun _ => .done a
  | .raise e, final => final.bind fun _ => .raise e
  | .call q k, final => .call q fun ans => (k ans).tryFinally final

/-- Further attempts after an exception that `retryOn` accepts. -/
def retry (retryOn : E → Bool) (p : Prog E Q A α) : Nat → Prog E Q A α
  | 0 => p
  | n + 1 => p.tryCatch fun e => if retryOn e then retry retryOn p n else .raise e

instance : Monad (Prog E Q A) where
  pure := .done
  bind := bind

@[simp]
theorem pure_eq (a : α) : (pure a : Prog E Q A α) = .done a := rfl

@[simp]
theorem done_bind (a : α) (f : α → Prog E Q A β) : (.done a : Prog E Q A α) >>= f = f a := rfl

@[simp]
theorem raise_bind (e : E) (f : α → Prog E Q A β) :
    (.raise e : Prog E Q A α) >>= f = .raise e := rfl

@[simp]
theorem call_bind (q : Q) (k : Except E A → Prog E Q A α) (f : α → Prog E Q A β) :
    (.call q k : Prog E Q A α) >>= f = .call q fun ans => k ans >>= f := rfl

/-- What follows a call that may raise. -/
def andThen (f : A → Prog E Q A β) : Except E A → Prog E Q A β
  | .ok a => f a
  | .error e => .raise e

theorem perform_bind (q : Q) (f : A → Prog E Q A β) :
    (perform q : Prog E Q A A) >>= f = .call q (andThen f) := by
  show Prog.call q _ = _
  congr 1
  funext ans
  cases ans <;> rfl

/-! ## Paths -/

/-- The program comes to `p'` once these calls were answered, in this order. -/
inductive Path : Prog E Q A α → List (Q × Except E A) → Prog E Q A α → Prop
  | refl (p : Prog E Q A α) : Path p [] p
  | answered {q : Q} {k : Except E A → Prog E Q A α} {ans : Except E A}
      {calls : List (Q × Except E A)} {p' : Prog E Q A α} :
      Path (k ans) calls p' → Path (.call q k) ((q, ans) :: calls) p'

theorem Path.snoc {p : Prog E Q A α} {calls : List (Q × Except E A)} {q : Q}
    {k : Except E A → Prog E Q A α} (h : Path p calls (.call q k)) (ans : Except E A) :
    Path p (calls ++ [(q, ans)]) (k ans) := by
  generalize hend : Prog.call q k = p' at h
  induction h with
  | refl p =>
    subst hend
    exact .answered (.refl _)
  | answered _ ih => exact .answered (ih hend)

theorem path_call {q : Q} {k : Except E A → Prog E Q A α} {calls : List (Q × Except E A)} {a : α}
    (h : Path (.call q k) calls (.done a)) :
    ∃ ans rest, calls = (q, ans) :: rest ∧ Path (k ans) rest (.done a) := by
  cases h with
  | @answered _ _ ans rest _ h => exact ⟨ans, rest, rfl, h⟩

/-- A program that returns was answered every call it does not guard. -/
theorem path_andThen {q : Q} {f : A → Prog E Q A α} {calls : List (Q × Except E A)} {a : α}
    (h : Path (.call q (andThen f)) calls (.done a)) :
    ∃ b rest, calls = (q, .ok b) :: rest ∧ Path (f b) rest (.done a) := by
  obtain ⟨ans, rest, rfl, hk⟩ := path_call h
  cases ans with
  | ok b => exact ⟨b, rest, rfl, hk⟩
  | error e => cases hk

theorem path_done {a : α} {calls : List (Q × Except E A)} {p : Prog E Q A α}
    (h : Path (.done a) calls p) : calls = [] ∧ p = .done a := by
  cases h
  exact ⟨rfl, rfl⟩

theorem path_raise {e : E} {calls : List (Q × Except E A)} {p : Prog E Q A α}
    (h : Path (.raise e) calls p) : calls = [] ∧ p = .raise e := by
  cases h
  exact ⟨rfl, rfl⟩

end Prog

/-! ## Interleaving -/

/-- A family of programs over a shared store, with every call answered so far. -/
structure Pool (ι S E Q A α : Type) where
  store : S
  progs : ι → Prog E Q A α
  log : List (ι × Q × Except E A)

namespace Pool

variable {ι S E Q A α : Type} [DecidableEq ι] (serve : S → Q → Except E A → S → Prop)

/-- Any program whose next step is a call may have it served. -/
inductive Step : Pool ι S E Q A α → Pool ι S E Q A α → Prop
  | serve {p : Pool ι S E Q A α} {i : ι} {q : Q} {k : Except E A → Prog E Q A α}
      {ans : Except E A} {s : S} :
      p.progs i = .call q k → serve p.store q ans s →
      Step p ⟨s, Function.update p.progs i (k ans), p.log ++ [(i, q, ans)]⟩

/-- Everything the programs can reach from a store under any interleaving. -/
inductive Reachable (s₀ : S) (progs : ι → Prog E Q A α) : Pool ι S E Q A α → Prop
  | start : Reachable s₀ progs ⟨s₀, progs, []⟩
  | next {p p' : Pool ι S E Q A α} : Reachable s₀ progs p → Step serve p p' →
      Reachable s₀ progs p'

variable {serve}

/-- A property of the start that every served call keeps holds throughout. -/
theorem Reachable.invariant {s₀ : S} {progs : ι → Prog E Q A α}
    (Inv : Pool ι S E Q A α → Prop) (start : Inv ⟨s₀, progs, []⟩)
    (step : ∀ p p', Inv p → Step serve p p' → Inv p') {p : Pool ι S E Q A α}
    (h : Reachable serve s₀ progs p) : Inv p := by
  induction h with
  | start => exact start
  | next _ hstep ih => exact step _ _ ih hstep

/-- Serve the next call of program `i`, if it makes one. -/
def turn (answer : S → Q → Except E A × S) (i : ι) (p : Pool ι S E Q A α) :
    Pool ι S E Q A α :=
  match p.progs i with
  | .call q k =>
    let r := answer p.store q
    ⟨r.2, Function.update p.progs i (k r.1), p.log ++ [(i, q, r.1)]⟩
  | _ => p

/-- Serve one call of each program of a schedule in turn. -/
def play (answer : S → Q → Except E A × S) (schedule : List ι) (p : Pool ι S E Q A α) :
    Pool ι S E Q A α :=
  schedule.foldl (fun p i => p.turn answer i) p

theorem Reachable.turn {s₀ : S} {progs : ι → Prog E Q A α} {answer : S → Q → Except E A × S}
    (hanswer : ∀ s q, serve s q (answer s q).1 (answer s q).2) {p : Pool ι S E Q A α}
    (h : Reachable serve s₀ progs p) (i : ι) : Reachable serve s₀ progs (p.turn answer i) := by
  unfold Pool.turn
  split
  · rename_i q k hcall
    exact .next h (.serve hcall (hanswer p.store q))
  · exact h

theorem Reachable.play {s₀ : S} {progs : ι → Prog E Q A α} {answer : S → Q → Except E A × S}
    (hanswer : ∀ s q, serve s q (answer s q).1 (answer s q).2) (schedule : List ι)
    {p : Pool ι S E Q A α} (h : Reachable serve s₀ progs p) :
    Reachable serve s₀ progs (p.play answer schedule) := by
  induction schedule generalizing p with
  | nil => exact h
  | cons i schedule ih => exact ih (h.turn hanswer i)

end Pool

end TechMart.Python
