import TechMart.Python.Cancel

/-!
# Runs to the end

`Runs` is a program run to its end: the calls it made with their answers, in
order, and its result. The rules take a run of a compound program apart; a
`Straight` program makes a fixed list of calls and raises at the first that
does.
-/

namespace TechMart.Python.Prog

variable {E Q A α β : Type}

inductive Runs : Prog E Q A α → List (Q × Except E A) → Except E α → Prop
  | done (a : α) : Runs (.done a) [] (.ok a)
  | raise (e : E) : Runs (.raise e) [] (.error e)
  | call {q : Q} {k : Except E A → Prog E Q A α} {ans : Except E A}
      {log : List (Q × Except E A)} {r : Except E α} :
      Runs (k ans) log r → Runs (.call q k) ((q, ans) :: log) r

variable {p : Prog E Q A α} {log : List (Q × Except E A)} {r : Except E α}

/-! ## Taking a run apart -/

theorem runs_done {a : α} (h : Runs (.done a : Prog E Q A α) log r) : log = [] ∧ r = .ok a := by
  cases h
  exact ⟨rfl, rfl⟩

theorem runs_raise {e : E} (h : Runs (.raise e : Prog E Q A α) log r) :
    log = [] ∧ r = .error e := by
  cases h
  exact ⟨rfl, rfl⟩

theorem runs_call {q : Q} {k : Except E A → Prog E Q A α} (h : Runs (.call q k) log r) :
    ∃ ans rest, log = (q, ans) :: rest ∧ Runs (k ans) rest r := by
  cases h with
  | call hk => exact ⟨_, _, rfl, hk⟩

theorem runs_perform {q : Q} {r : Except E A} (h : Runs (perform q : Prog E Q A A) log r) :
    log = [(q, r)] := by
  obtain ⟨ans, rest, rfl, hk⟩ := runs_call h
  cases ans with
  | ok a =>
    obtain ⟨rfl, rfl⟩ := runs_done hk
    rfl
  | error e =>
    obtain ⟨rfl, rfl⟩ := runs_raise hk
    rfl

theorem runs_bind {f : α → Prog E Q A β} {r : Except E β} (h : Runs (p >>= f) log r) :
    (∃ before a after, log = before ++ after ∧ Runs p before (.ok a) ∧ Runs (f a) after r) ∨
    ∃ e, Runs p log (.error e) ∧ r = .error e := by
  induction p generalizing log with
  | done a => exact Or.inl ⟨[], a, log, rfl, .done a, h⟩
  | raise e =>
    obtain ⟨rfl, rfl⟩ := runs_raise h
    exact Or.inr ⟨e, .raise e, rfl⟩
  | call q k ih =>
    obtain ⟨ans, rest, rfl, hk⟩ := runs_call h
    rcases ih ans hk with ⟨before, a, after, rfl, hp, hf⟩ | ⟨e, hp, rfl⟩
    · exact Or.inl ⟨(q, ans) :: before, a, after, rfl, .call hp, hf⟩
    · exact Or.inr ⟨e, .call hp, rfl⟩

theorem runs_tryCatch {handler : E → Prog E Q A α} (h : Runs (p.tryCatch handler) log r) :
    (∃ a, Runs p log (.ok a) ∧ r = .ok a) ∨
    ∃ before e after, log = before ++ after ∧ Runs p before (.error e) ∧ Runs (handler e) after r := by
  induction p generalizing log with
  | done a =>
    obtain ⟨rfl, rfl⟩ := runs_done h
    exact Or.inl ⟨a, .done a, rfl⟩
  | raise e => exact Or.inr ⟨[], e, log, rfl, .raise e, h⟩
  | call q k ih =>
    obtain ⟨ans, rest, rfl, hk⟩ := runs_call h
    rcases ih ans hk with ⟨a, hp, rfl⟩ | ⟨before, e, after, rfl, hp, hhandler⟩
    · exact Or.inl ⟨a, .call hp, rfl⟩
    · exact Or.inr ⟨(q, ans) :: before, e, after, rfl, .call hp, hhandler⟩

theorem runs_tryFinally {final : Prog E Q A Unit} (h : Runs (p.tryFinally final) log r) :
    ∃ before after r', log = before ++ after ∧ Runs p before r' ∧
      ((Runs final after (.ok ()) ∧ r = r') ∨ ∃ e, Runs final after (.error e) ∧ r = .error e) := by
  induction p generalizing log with
  | done a =>
    refine ⟨[], log, .ok a, rfl, .done a, ?_⟩
    rcases runs_bind h with ⟨before, ⟨⟩, after, rfl, hfinal, hend⟩ | ⟨e, hfinal, rfl⟩
    · obtain ⟨rfl, rfl⟩ := runs_done hend
      rw [List.append_nil]
      exact Or.inl ⟨hfinal, rfl⟩
    · exact Or.inr ⟨e, hfinal, rfl⟩
  | raise e =>
    refine ⟨[], log, .error e, rfl, .raise e, ?_⟩
    rcases runs_bind h with ⟨before, ⟨⟩, after, rfl, hfinal, hend⟩ | ⟨e, hfinal, rfl⟩
    · obtain ⟨rfl, rfl⟩ := runs_raise hend
      rw [List.append_nil]
      exact Or.inl ⟨hfinal, rfl⟩
    · exact Or.inr ⟨e, hfinal, rfl⟩
  | call q k ih =>
    obtain ⟨ans, rest, rfl, hk⟩ := runs_call h
    obtain ⟨before, after, r', rfl, hp, hfinal⟩ := ih ans hk
    exact ⟨(q, ans) :: before, after, r', rfl, .call hp, hfinal⟩

/-! ## Calls made -/

/-- Under any answers, every call of the program satisfies `P`. -/
def Asks (P : Q → Prop) : Prog E Q A α → Prop
  | .done _ => True
  | .raise _ => True
  | .call q k => P q ∧ ∀ ans, Asks P (k ans)

variable {P : Q → Prop}

theorem Asks.bind {f : α → Prog E Q A β} (h : Asks P p) (hf : ∀ a, Asks P (f a)) :
    Asks P (p >>= f) := by
  induction p with
  | done a => exact hf a
  | raise => trivial
  | call q k ih => exact ⟨h.1, fun ans => ih ans (h.2 ans)⟩

theorem Asks.tryCatch {handler : E → Prog E Q A α} (h : Asks P p)
    (hhandler : ∀ e, Asks P (handler e)) : Asks P (p.tryCatch handler) := by
  induction p with
  | done => trivial
  | raise e => exact hhandler e
  | call q k ih => exact ⟨h.1, fun ans => ih ans (h.2 ans)⟩

theorem Asks.tryFinally {final : Prog E Q A Unit} (h : Asks P p) (hfinal : Asks P final) :
    Asks P (p.tryFinally final) := by
  induction p with
  | done a => exact hfinal.bind fun _ => trivial
  | raise e => exact hfinal.bind fun _ => trivial
  | call q k ih => exact ⟨h.1, fun ans => ih ans (h.2 ans)⟩

theorem Asks.perform {q : Q} (h : P q) : Asks P (perform q : Prog E Q A A) := by
  refine ⟨h, ?_⟩
  intro ans
  cases ans <;> trivial

theorem Runs.asks (hrun : Runs p log r) (h : Asks P p) : ∀ c ∈ log, P c.1 := by
  induction hrun with
  | done | raise => exact fun _ hc => absurd hc List.not_mem_nil
  | call _ ih =>
    intro c hc
    rcases List.mem_cons.mp hc with rfl | hc
    · exact h.1
    · exact ih (h.2 _) c hc

/-- The program with its calls renamed. -/
def mapCalls {Q' : Type} (f : Q → Q') : Prog E Q A α → Prog E Q' A α
  | .done a => .done a
  | .raise e => .raise e
  | .call q k => .call (f q) fun ans => (k ans).mapCalls f

theorem Asks.mapCalls {Q' : Type} {f : Q → Q'} {P' : Q' → Prop}
    (h : Asks (fun q => P' (f q)) p) : Asks P' (p.mapCalls f) := by
  induction p with
  | done => trivial
  | raise => trivial
  | call q k ih => exact ⟨h.1, fun ans => ih ans (h.2 ans)⟩

theorem Asks.mono {P' : Q → Prop} (h : Asks P p) (hP : ∀ q, P q → P' q) : Asks P' p := by
  induction p with
  | done => trivial
  | raise => trivial
  | call q k ih => exact ⟨hP q h.1, fun ans => ih ans (h.2 ans)⟩

/-- A run whose calls are answered as they must be ends as it must. -/
theorem Must.runs {serves : Q → Except E A → Prop} {post : Except E α → Prop}
    (h : Must serves post p) (hrun : Runs p log r) (hlog : ∀ c ∈ log, serves c.1 c.2) : post r := by
  induction hrun with
  | done a =>
    cases h with
    | done h => exact h
  | raise e =>
    cases h with
    | raise h => exact h
  | call _ ih =>
    cases h with
    | call h =>
      refine ih (h _ (hlog _ List.mem_cons_self)) ?_
      exact fun c hc => hlog c (List.mem_cons_of_mem _ hc)

theorem Must.perform {serves : Q → Except E A → Prop} {post : Except E A → Prop} {q : Q}
    (h : ∀ ans, serves q ans → post ans) : Must serves post (perform q : Prog E Q A A) := by
  refine .call ?_
  intro ans hans
  cases ans with
  | ok a => exact .done (h _ hans)
  | error e => exact .raise (h _ hans)

/-! ## Straight programs -/

/-- The program makes these calls one after the other and goes on as `p'`; an
exception at one of them is not handled. -/
inductive Straight : Prog E Q Unit α → List Q → Prog E Q Unit α → Prop
  | refl (p : Prog E Q Unit α) : Straight p [] p
  | call {q : Q} {k : Except E Unit → Prog E Q Unit α} {qs : List Q} {p' : Prog E Q Unit α} :
      Straight (k (.ok ())) qs p' → (∀ e, k (.error e) = .raise e) →
      Straight (.call q k) (q :: qs) p'

/-- The calls all answered. -/
def answered (qs : List Q) : List (Q × Except E Unit) := qs.map fun q => (q, .ok ())

/-- The calls up to one that raised `e`. -/
def CutAt (qs : List Q) (log : List (Q × Except E Unit)) (e : E) : Prop :=
  ∃ before q after, qs = before ++ q :: after ∧ log = answered before ++ [(q, .error e)]

@[simp]
theorem answered_nil : (answered [] : List (Q × Except E Unit)) = [] := rfl

@[simp]
theorem answered_cons (q : Q) (qs : List Q) :
    (answered (q :: qs) : List (Q × Except E Unit)) = (q, .ok ()) :: answered qs := rfl

@[simp]
theorem answered_append (qs qs' : List Q) :
    (answered (qs ++ qs') : List (Q × Except E Unit)) = answered qs ++ answered qs' :=
  List.map_append

theorem Straight.trans {p p' p'' : Prog E Q Unit α} {qs qs' : List Q} (h : Straight p qs p')
    (h' : Straight p' qs' p'') : Straight p (qs ++ qs') p'' := by
  induction h with
  | refl => exact h'
  | call _ hraise ih => exact .call (ih h') hraise

theorem Straight.bind {p p' : Prog E Q Unit α} {f : α → Prog E Q Unit β} {qs : List Q}
    (h : Straight p qs p') : Straight (p >>= f) qs (p' >>= f) := by
  induction h with
  | refl => exact .refl _
  | @call q k qs p' _ hraise ih =>
    refine .call ih ?_
    intro e
    show (k (.error e)).bind f = _
    rw [hraise]
    rfl

theorem Straight.perform (q : Q) : Straight (perform q : Prog E Q Unit Unit) [q] (.done ()) :=
  .call (.refl _) fun _ => rfl

theorem Straight.runs {p p' : Prog E Q Unit α} {qs : List Q} (h : Straight p qs p')
    {log : List (Q × Except E Unit)} {r : Except E α} (hrun : Runs p log r) :
    (∃ rest, log = answered qs ++ rest ∧ Runs p' rest r) ∨ ∃ e, CutAt qs log e ∧ r = .error e := by
  induction h generalizing log with
  | refl p => exact Or.inl ⟨log, rfl, hrun⟩
  | @call q k qs p' _ hraise ih =>
    obtain ⟨ans, rest, rfl, hk⟩ := runs_call hrun
    cases ans with
    | ok =>
      rcases ih hk with ⟨rest, rfl, hp'⟩ | ⟨e, ⟨before, q', after, rfl, rfl⟩, rfl⟩
      · exact Or.inl ⟨rest, rfl, hp'⟩
      · exact Or.inr ⟨e, ⟨q :: before, q', after, rfl, rfl⟩, rfl⟩
    | error e =>
      rw [hraise] at hk
      obtain ⟨rfl, rfl⟩ := runs_raise hk
      exact Or.inr ⟨e, ⟨[], q, qs, rfl, rfl⟩, rfl⟩

/-! ## Playing a program -/

/-- The run of a program whose `n`-th call is answered by `answer n`. -/
def play (answer : Nat → Q → Except E A) : Prog E Q A α → List (Q × Except E A) × Except E α
  | .done a => ([], .ok a)
  | .raise e => ([], .error e)
  | .call q k =>
    let rest := play (fun n => answer (n + 1)) (k (answer 0 q))
    ((q, answer 0 q) :: rest.1, rest.2)

theorem runs_play (answer : Nat → Q → Except E A) (p : Prog E Q A α) :
    Runs p (p.play answer).1 (p.play answer).2 := by
  induction p generalizing answer with
  | done a => exact .done a
  | raise e => exact .raise e
  | call q k ih => exact .call (ih ..)

theorem mem_play {answer : Nat → Q → Except E A} {p : Prog E Q A α} {c : Q × Except E A}
    (h : c ∈ (p.play answer).1) : ∃ n, c.2 = answer n c.1 := by
  induction p generalizing answer with
  | done | raise => cases h
  | call q k ih =>
    rcases List.mem_cons.mp h with rfl | h
    · exact ⟨0, rfl⟩
    · obtain ⟨n, hn⟩ := ih _ h
      exact ⟨n + 1, hn⟩

end TechMart.Python.Prog

namespace TechMart.Python.Pool

variable {ι S E Q A α : Type} [DecidableEq ι] {serve : S → Q → Except E A → S → Prop}

/-- What every call the programs may make keeps of the store holds under any
interleaving. -/
theorem Reachable.keeps {P : Q → Prop} {Keeps : S → Prop} {s₀ : S} {progs : ι → Prog E Q A α}
    (hprogs : ∀ i, (progs i).Asks P)
    (hserve : ∀ s q ans s', P q → serve s q ans s' → Keeps s → Keeps s') (hstart : Keeps s₀)
    {p : Pool ι S E Q A α} (h : Reachable serve s₀ progs p) : Keeps p.store := by
  have hinv : Keeps p.store ∧ ∀ i, (p.progs i).Asks P := by
    refine h.invariant (fun p => Keeps p.store ∧ ∀ i, (p.progs i).Asks P) ⟨hstart, hprogs⟩ ?_
    intro p p' ⟨hkeeps, hasks⟩ hstep
    cases hstep with
    | @serve i q k ans s hcall hserved =>
      have hprog := hasks i
      rw [hcall] at hprog
      refine ⟨hserve _ _ _ _ hprog.1 hserved hkeeps, fun j => ?_⟩
      by_cases hj : j = i
      · subst hj
        show (Function.update p.progs j (k ans) j).Asks P
        rw [Function.update_self]
        exact hprog.2 ans
      · show (Function.update p.progs i (k ans) j).Asks P
        rw [Function.update_of_ne hj]
        exact hasks j
  exact hinv.1

end TechMart.Python.Pool
