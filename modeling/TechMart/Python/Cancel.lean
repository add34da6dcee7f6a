import TechMart.Python.Prog

/-!
# Ends of a program and cancellation

`Must` and `May` say how a program ends under any, or under some, answers to
its calls; `Cuts` says what a cancellation does that is delivered at one of its
calls. All three follow the constructs a program is built from.
-/

namespace TechMart.Python.Prog

variable {E Q A α β : Type} (serves : Q → Except E A → Prop)

/-- However its calls are answered, the program ends, and with such a result. -/
inductive Must (post : Except E α → Prop) : Prog E Q A α → Prop
  | done {a : α} : post (.ok a) → Must post (.done a)
  | raise {e : E} : post (.error e) → Must post (.raise e)
  | call {q : Q} {k : Except E A → Prog E Q A α} :
      (∀ ans, serves q ans → Must post (k ans)) → Must post (.call q k)

/-- Its calls can be answered so that the program ends with such a result. -/
inductive May (post : Except E α → Prop) : Prog E Q A α → Prop
  | done {a : α} : post (.ok a) → May post (.done a)
  | raise {e : E} : post (.error e) → May post (.raise e)
  | call {q : Q} {k : Except E A → Prog E Q A α} {ans : Except E A} :
      serves q ans → May post (k ans) → May post (.call q k)

/-- At every call, what is left once it has raised `cancelled` satisfies `P`. -/
def Cuts (cancelled : E) (P : Q → Prog E Q A α → Prop) : Prog E Q A α → Prop
  | .done _ => True
  | .raise _ => True
  | .call q k => P q (k (.error cancelled)) ∧ ∀ ans, serves q ans → Cuts cancelled P (k ans)

variable {serves} {post : Except E α → Prop} {cancelled : E}

/-! ## Under any answers -/

theorem Must.mono {post' : Except E α → Prop} {p : Prog E Q A α} (h : Must serves post p)
    (hpost : ∀ r, post r → post' r) : Must serves post' p := by
  induction h with
  | done h => exact .done (hpost _ h)
  | raise h => exact .raise (hpost _ h)
  | call _ ih => exact .call ih

theorem Must.bind {post' : Except E β → Prop} {p : Prog E Q A α} {f : α → Prog E Q A β}
    (h : Must serves post p) (hok : ∀ a, post (.ok a) → Must serves post' (f a))
    (herror : ∀ e, post (.error e) → post' (.error e)) : Must serves post' (p >>= f) := by
  induction h with
  | done h => exact hok _ h
  | raise h => exact .raise (herror _ h)
  | call _ ih => exact .call ih

theorem Must.tryCatch {post' : Except E α → Prop} {p : Prog E Q A α} {handler : E → Prog E Q A α}
    (h : Must serves post p) (hok : ∀ a, post (.ok a) → post' (.ok a))
    (herror : ∀ e, post (.error e) → Must serves post' (handler e)) :
    Must serves post' (p.tryCatch handler) := by
  induction h with
  | done h => exact .done (hok _ h)
  | raise h => exact herror _ h
  | call _ ih => exact .call ih

/-- A `finally` block leaves the end as it was, unless it raises itself. -/
theorem Must.tryFinally {p : Prog E Q A α} {final : Prog E Q A Unit} (h : Must serves post p)
    (hfinal : Must serves (fun r => ∀ e, r = .error e → post (.error e)) final) :
    Must serves post (p.tryFinally final) := by
  induction h with
  | done h => exact hfinal.bind (fun _ _ => .done h) fun e he => he e rfl
  | raise h => exact hfinal.bind (fun _ _ => .raise h) fun e he => he e rfl
  | call _ ih => exact .call ih

theorem Must.path {p : Prog E Q A α} {calls : List (Q × Except E A)} {a : α}
    (h : Must serves post p) (hpath : Path p calls (.done a))
    (hserves : ∀ c ∈ calls, serves c.1 c.2) : post (.ok a) := by
  induction h generalizing calls with
  | done h =>
    obtain ⟨-, heq⟩ := path_done hpath
    cases heq
    exact h
  | raise => cases hpath
  | call _ ih =>
    obtain ⟨ans, rest, rfl, hrest⟩ := path_call hpath
    exact ih ans (hserves _ List.mem_cons_self) hrest
      fun c hc => hserves c (List.mem_cons_of_mem _ hc)

/-! ## Under some answers -/

theorem May.bind {post' : Except E β → Prop} {p : Prog E Q A α} {f : α → Prog E Q A β}
    (h : May serves post p) (hok : ∀ a, post (.ok a) → May serves post' (f a))
    (herror : ∀ e, post (.error e) → post' (.error e)) : May serves post' (p >>= f) := by
  induction h with
  | done h => exact hok _ h
  | raise h => exact .raise (herror _ h)
  | call hans _ ih => exact .call hans ih

theorem May.tryCatch {post' : Except E α → Prop} {p : Prog E Q A α} {handler : E → Prog E Q A α}
    (h : May serves post p) (hok : ∀ a, post (.ok a) → post' (.ok a))
    (herror : ∀ e, post (.error e) → May serves post' (handler e)) :
    May serves post' (p.tryCatch handler) := by
  induction h with
  | done h => exact .done (hok _ h)
  | raise h => exact herror _ h
  | call hans _ ih => exact .call hans ih

theorem May.tryFinally {p : Prog E Q A α} {final : Prog E Q A Unit} (h : May serves post p)
    (hfinal : May serves (fun r => r = .ok ()) final) : May serves post (p.tryFinally final) := by
  induction h with
  | done h => exact hfinal.bind (fun _ _ => .done h) nofun
  | raise h => exact hfinal.bind (fun _ _ => .raise h) nofun
  | call hans _ ih => exact .call hans ih

/-- What must happen may, where every call has some answer. -/
theorem Must.may (hserves : ∀ q, ∃ ans, serves q ans) {p : Prog E Q A α} (h : Must serves post p) :
    May serves post p := by
  induction h with
  | done h => exact .done h
  | raise h => exact .raise h
  | @call q k _ ih =>
    obtain ⟨ans, hans⟩ := hserves q
    exact .call hans (ih ans hans)

theorem Must.exists_of_may {post' : Except E α → Prop} {p : Prog E Q A α} (h : Must serves post p)
    (hmay : May serves post' p) : ∃ r, post r ∧ post' r := by
  induction hmay with
  | done hpost' =>
    cases h with
    | done hpost => exact ⟨_, hpost, hpost'⟩
  | raise hpost' =>
    cases h with
    | raise hpost => exact ⟨_, hpost, hpost'⟩
  | call hans _ ih =>
    cases h with
    | call h => exact ih (h _ hans)

/-! ## Cut at a call -/

theorem Cuts.mono {P P' : Q → Prog E Q A α → Prop} {p : Prog E Q A α}
    (h : Cuts serves cancelled P p) (hP : ∀ q r, P q r → P' q r) : Cuts serves cancelled P' p := by
  induction p with
  | done | raise => trivial
  | call q k ih => exact ⟨hP _ _ h.1, fun ans hans => ih ans (h.2 ans hans)⟩

theorem Cuts.bind {P : Q → Prog E Q A β → Prop} {p : Prog E Q A α} {f : α → Prog E Q A β}
    (h : Cuts serves cancelled (fun q r => P q (r >>= f)) p)
    (hf : ∀ a, Cuts serves cancelled P (f a)) : Cuts serves cancelled P (p >>= f) := by
  induction p with
  | done a => exact hf a
  | raise => trivial
  | call q k ih => exact ⟨h.1, fun ans hans => ih ans (h.2 ans hans)⟩

theorem Cuts.tryCatch {P : Q → Prog E Q A α → Prop} {p : Prog E Q A α}
    {handler : E → Prog E Q A α} (h : Cuts serves cancelled (fun q r => P q (r.tryCatch handler)) p)
    (hhandler : ∀ e, Cuts serves cancelled P (handler e)) :
    Cuts serves cancelled P (p.tryCatch handler) := by
  induction p with
  | done => trivial
  | raise e => exact hhandler e
  | call q k ih => exact ⟨h.1, fun ans hans => ih ans (h.2 ans hans)⟩

theorem Cuts.tryFinally {P : Q → Prog E Q A α → Prop} {p : Prog E Q A α} {final : Prog E Q A Unit}
    (h : Cuts serves cancelled (fun q r => P q (r.tryFinally final)) p)
    (hdone : ∀ a, Cuts serves cancelled P (final >>= fun _ => .done a))
    (hraise : ∀ e, Cuts serves cancelled P (final >>= fun _ => .raise e)) :
    Cuts serves cancelled P (p.tryFinally final) := by
  induction p with
  | done a => exact hdone a
  | raise e => exact hraise e
  | call q k ih => exact ⟨h.1, fun ans hans => ih ans (h.2 ans hans)⟩

theorem Cuts.perform {P : Q → Prog E Q A A → Prop} {q : Q} (h : P q (.raise cancelled)) :
    Cuts serves cancelled P (perform q) := by
  refine ⟨h, fun ans _ => ?_⟩
  cases ans <;> trivial

/-- Wherever the program has come to, its next call is cut as it should be. -/
theorem Cuts.path {P : Q → Prog E Q A α → Prop} {p p' : Prog E Q A α}
    {calls : List (Q × Except E A)} (h : Cuts serves cancelled P p) (hpath : Path p calls p')
    (hserves : ∀ c ∈ calls, serves c.1 c.2) : Cuts serves cancelled P p' := by
  induction hpath with
  | refl => exact h
  | answered _ ih =>
    exact ih (h.2 _ (hserves _ List.mem_cons_self)) fun c hc => hserves c (List.mem_cons_of_mem _ hc)

end TechMart.Python.Prog
