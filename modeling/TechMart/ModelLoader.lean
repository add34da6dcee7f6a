import TechMart.Python.Lock
import TechMart.Python.Prog
import Mathlib.Logic.Relation

/-!
# The embedding model

`get_sentence_transformer`: a global that is read, a lock, and a second look at
the global behind it. The imports and the log line before the constructor are
part of the construction, which may raise. Any number of calls are interleaved,
one access to the global or the lock at a time.
-/

namespace TechMart.ModelLoader

open Python

variable {ι E M : Type}

/-- `_model` and `_model_lock`. -/
structure Globals (M : Type) where
  model : Option M
  locked : Bool

/-- What a call does to them, one access each. -/
inductive Call (M : Type) where
  | load
  | acquire
  | construct
  | store (model : Option M)
  | release

/-- An access of a call; taking the lock is no step as long as it is held. -/
inductive Serve : Globals M → Call M → Except E (Option M) → Globals M → Prop
  | load (s : Globals M) : Serve s .load (.ok s.model) s
  | acquire {s : Globals M} : s.locked = false →
      Serve s .acquire (.ok none) { s with locked := true }
  | construct (s : Globals M) (m : M) : Serve s .construct (.ok (some m)) s
  | fail (s : Globals M) (e : E) : Serve s .construct (.error e) s
  | store (s : Globals M) (x : Option M) : Serve s (.store x) (.ok none) { s with model := x }
  | release {s : Globals M} : s.locked = true →
      Serve s .release (.ok none) { s with locked := false }
  | overrelease {s : Globals M} (e : E) : s.locked = false → Serve s .release (.error e) s

abbrev LoaderProg (E M α : Type) := Prog E (Call M) (Option M) α

def unlock : LoaderProg E M Unit := do
  let _ ← Prog.perform .release
  pure ()

/-- `with _model_lock`. -/
def withLock (body : LoaderProg E M Unit) : LoaderProg E M Unit := do
  let _ ← Prog.perform .acquire
  body.tryFinally unlock

def construct : LoaderProg E M Unit := do
  let model ← Prog.perform .construct
  let _ ← Prog.perform (.store model)
  pure ()

/-- The body of the `with` block. -/
def checkAgain : LoaderProg E M Unit := do
  let model ← Prog.perform .load
  if model.isNone then construct else pure ()

def getSentenceTransformer : LoaderProg E M (Option M) := do
  let model ← Prog.perform .load
  let _ ← if model.isNone then withLock checkAgain else pure ()
  Prog.perform .load

/-! ## Phases -/

/-- Where a call stands: the access it makes next, or how it ended. -/
inductive Phase (E M : Type) where
  | checking
  | acquiring
  | rechecking
  | constructing
  | storing (model : Option M)
  | releasing (outcome : Except E Unit)
  | reading
  | returned (model : Option M)
  | raised (e : E)

namespace Phase

def call : Phase E M → Option (Call M)
  | checking | rechecking | reading => some .load
  | acquiring => some .acquire
  | constructing => some .construct
  | storing model => some (.store model)
  | releasing _ => some .release
  | returned _ | raised _ => none

/-- The phase after an access that did not raise. -/
def next : Phase E M → Option M → Phase E M
  | checking, model => if model.isNone then acquiring else reading
  | acquiring, _ => rechecking
  | rechecking, model => if model.isNone then constructing else releasing (.ok ())
  | constructing, model => storing model
  | storing _, _ => releasing (.ok ())
  | releasing (.ok _), _ => reading
  | releasing (.error e), _ => raised e
  | reading, model => returned model
  | returned model, _ => returned model
  | raised e, _ => raised e

/-- The phases in the `with` block. -/
def Inside : Phase E M → Prop
  | rechecking | constructing | storing _ | releasing _ => True
  | _ => False

/-- An exception inside is kept until the lock is released. -/
def failed : Phase E M → E → Phase E M
  | rechecking, e | constructing, e | storing _, e => releasing (.error e)
  | _, e => raised e

def after (ph : Phase E M) : Except E (Option M) → Phase E M
  | .ok model => ph.next model
  | .error e => ph.failed e

/-- The rest of a call that has this left to do inside. -/
def insideRest (body : LoaderProg E M Unit) : LoaderProg E M (Option M) := do
  let _ ← body.tryFinally unlock
  Prog.perform .load

def prog : Phase E M → LoaderProg E M (Option M)
  | checking => getSentenceTransformer
  | acquiring => do
    let _ ← withLock checkAgain
    Prog.perform .load
  | rechecking => insideRest checkAgain
  | constructing => insideRest construct
  | storing model => insideRest (do
    let _ ← Prog.perform (.store model)
    pure ())
  | releasing outcome => insideRest (Prog.ofExcept outcome)
  | reading => Prog.perform .load
  | returned model => .done model
  | raised e => .raise e

theorem prog_eq (ph : Phase E M) {q : Call M} (h : ph.call = some q) :
    ph.prog = .call q fun ans => (ph.after ans).prog := by
  cases ph with
  | checking | rechecking =>
    cases h
    show Prog.call _ _ = Prog.call _ _
    congr 1
    funext ans
    rcases ans with e | _ | m <;> rfl
  | releasing outcome =>
    cases h
    cases outcome <;>
    · show Prog.call _ _ = Prog.call _ _
      congr 1
      funext ans
      cases ans <;> rfl
  | acquiring | constructing | storing | reading =>
    cases h
    show Prog.call _ _ = Prog.call _ _
    congr 1
    funext ans
    cases ans <;> rfl
  | returned | raised => cases h

/-- A call in a phase makes that phase's access and goes on as the phase after
the answer. -/
theorem prog_call (ph : Phase E M) {q : Call M}
    {k : Except E (Option M) → LoaderProg E M (Option M)} (h : ph.prog = .call q k) :
    ph.call = some q ∧ ∀ ans, k ans = (ph.after ans).prog := by
  cases hcall : ph.call with
  | none => cases ph <;> simp [call, prog] at hcall h
  | some q' =>
    rw [prog_eq ph hcall] at h
    cases h
    exact ⟨rfl, fun _ => rfl⟩

theorem eq_returned {ph : Phase E M} {x : Option M} (h : ph.prog = .done x) : ph = returned x := by
  cases hcall : ph.call with
  | some q =>
    rw [prog_eq ph hcall] at h
    cases h
  | none =>
    cases ph with
    | returned y =>
      cases h
      rfl
    | raised e => cases h
    | _ => cases hcall

theorem eq_raised {ph : Phase E M} {e : E} (h : ph.prog = .raise e) : ph = raised e := by
  cases hcall : ph.call with
  | some q =>
    rw [prog_eq ph hcall] at h
    cases h
  | none =>
    cases ph with
    | returned y => cases h
    | raised e' =>
      cases h
      rfl
    | _ => cases hcall

/-- A call that has its whole program before it has not begun. -/
theorem eq_checking {ph : Phase E M} (h : ph.prog = getSentenceTransformer) : ph = checking := by
  have hstart : ph.prog = .call .load fun ans => (checking.after ans).prog :=
    h.trans (prog_eq checking rfl)
  obtain ⟨hcall, hrest⟩ := prog_call ph hstart
  have hmissing : (acquiring : Phase E M).prog = (ph.after (.ok none)).prog := hrest (.ok none)
  rw [prog_eq acquiring rfl] at hmissing
  cases ph with
  | checking => rfl
  | rechecking => cases hmissing.trans (prog_eq constructing rfl)
  | reading => cases hmissing
  | _ => cases hcall

end Phase

/-! ## Moves -/

/-- The instance an access made, if it was a construction that succeeded. -/
def instanceOf : Call M → Except E (Option M) → Option M
  | .construct, .ok model => model
  | _, _ => none

/-- All instances made so far. -/
def built (log : List (ι × Call M × Except E (Option M))) : List M :=
  log.filterMap fun c => instanceOf c.2.1 c.2.2

/-- Everything one access of a call can do: to the globals, to its phase, and
the instance it may have made. -/
inductive Move : Globals M → Phase E M → Globals M → Phase E M → Option M → Prop
  | found {s : Globals M} {m : M} : s.model = some m → Move s .checking s .reading none
  | missing {s : Globals M} : s.model = none → Move s .checking s .acquiring none
  | acquire {s : Globals M} : s.locked = false →
      Move s .acquiring { s with locked := true } .rechecking none
  | refound {s : Globals M} {m : M} : s.model = some m →
      Move s .rechecking s (.releasing (.ok ())) none
  | stillMissing {s : Globals M} : s.model = none → Move s .rechecking s .constructing none
  | construct (s : Globals M) (m : M) : Move s .constructing s (.storing (some m)) (some m)
  | fail (s : Globals M) (e : E) : Move s .constructing s (.releasing (.error e)) none
  | store (s : Globals M) (x : Option M) :
      Move s (.storing x) { s with model := x } (.releasing (.ok ())) none
  | release {s : Globals M} : s.locked = true →
      Move s (.releasing (.ok ())) { s with locked := false } .reading none
  | reraise {s : Globals M} {e : E} : s.locked = true →
      Move s (.releasing (.error e)) { s with locked := false } (.raised e) none
  | overrelease {s : Globals M} {outcome : Except E Unit} (e : E) : s.locked = false →
      Move s (.releasing outcome) s (.raised e) none
  | read (s : Globals M) : Move s .reading s (.returned s.model) none

theorem move_of_serve {ph : Phase E M} {q : Call M} {s s' : Globals M} {ans : Except E (Option M)}
    (hcall : ph.call = some q) (h : Serve s q ans s') :
    Move s ph s' (ph.after ans) (instanceOf q ans) := by
  cases ph with
  | checking =>
    cases hcall
    cases h
    cases hmodel : s.model with
    | none => exact .missing hmodel
    | some m => exact .found hmodel
  | acquiring =>
    cases hcall
    cases h with
    | acquire hfree => exact .acquire hfree
  | rechecking =>
    cases hcall
    cases h
    cases hmodel : s.model with
    | none => exact .stillMissing hmodel
    | some m => exact .refound hmodel
  | constructing =>
    cases hcall
    cases h with
    | construct m => exact .construct s m
    | fail e => exact .fail s e
  | storing x =>
    cases hcall
    cases h
    exact .store s x
  | releasing outcome =>
    cases hcall
    cases h with
    | release hheld =>
      cases outcome with
      | ok => exact .release hheld
      | error e => exact .reraise hheld
    | overrelease e hfree => exact .overrelease e hfree
  | reading =>
    cases hcall
    cases h
    exact .read s
  | returned | raised => cases hcall

theorem serve_of_move {ph ph' : Phase E M} {s s' : Globals M} {made : Option M}
    (h : Move s ph s' ph' made) :
    ∃ q ans, ph.call = some q ∧ Serve s q ans s' ∧ ph' = ph.after ans ∧ made = instanceOf q ans := by
  cases h with
  | found hmodel | missing hmodel | refound hmodel | stillMissing hmodel =>
    refine ⟨_, _, rfl, .load s, ?_, rfl⟩
    simp [Phase.after, Phase.next, hmodel]
  | acquire hfree => exact ⟨_, _, rfl, .acquire hfree, rfl, rfl⟩
  | construct m => exact ⟨_, _, rfl, .construct s m, rfl, rfl⟩
  | fail e => exact ⟨_, _, rfl, .fail s e, rfl, rfl⟩
  | store x => exact ⟨_, _, rfl, .store s x, rfl, rfl⟩
  | release hheld | reraise hheld => exact ⟨_, _, rfl, .release hheld, rfl, rfl⟩
  | overrelease e hfree => exact ⟨_, _, rfl, .overrelease e hfree, rfl, rfl⟩
  | read => exact ⟨_, _, rfl, .load s, rfl, rfl⟩

theorem built_append (log : List (ι × Call M × Except E (Option M))) (i : ι) (q : Call M)
    (ans : Except E (Option M)) :
    built (log ++ [(i, q, ans)]) = built log ++ (instanceOf q ans).toList := by
  rw [built, List.filterMap_append]
  rfl

/-! ## The invariant -/

/-- What a phase says of the global and of the instances made. -/
def Fits (model : Option M) (made : List M) : Phase E M → Prop
  | .constructing => model = none
  | .storing x => model = none ∧ ∃ m, x = some m ∧ made = [m]
  | .releasing (.ok _) | .reading => ∃ m, model = some m
  | .returned x => x = model ∧ ∃ m, model = some m
  | _ => True

/-- The one instance is in the global, or on its way there. -/
def Recorded (model : Option M) (made : List M) (phases : ι → Phase E M) : Prop :=
  match model with
  | some m => made = [m]
  | none => made = [] ∨ ∃ i m, phases i = .storing (some m)

abbrev Loader (ι E M : Type) := Pool ι (Globals M) E (Call M) (Option M) (Option M)

structure Inv (p : Loader ι E M) (phases : ι → Phase E M) : Prop where
  progs : ∀ i, p.progs i = (phases i).prog
  guarded : Guarded p.store.locked Phase.Inside phases
  fits : ∀ i, Fits p.store.model (built p.log) (phases i)
  recorded : Recorded p.store.model (built p.log) phases
  failures : ∀ i e, (i, .construct, .error e) ∈ p.log →
    phases i = .releasing (.error e) ∨ phases i = .raised e

section
variable {phases : ι → Phase E M} {s s' : Globals M} {ph ph' : Phase E M} {made : Option M}
  {made₀ : List M}

/-- Outside the block nothing is written. -/
theorem quiet_of_outside (hmove : Move s ph s' ph' made) (hout : ¬ ph.Inside) :
    s'.model = s.model ∧ made = none := by
  cases hmove with
  | found | missing | acquire | read => exact ⟨rfl, rfl⟩
  | refound | stillMissing | construct | fail | store | release | reraise | overrelease =>
    exact absurd trivial hout

/-- The global is written once. -/
theorem model_move (hmove : Move s ph s' ph' made) (hfits : Fits s.model made₀ ph) :
    s'.model = s.model ∨ s.model = none := by
  cases hmove with
  | store x => exact Or.inr hfits.1
  | _ => exact Or.inl rfl

/-- A call outside is not disturbed by the first instance. -/
theorem fits_outside {model model' : Option M} {made₁ : List M} (hout : ¬ ph.Inside)
    (hfits : Fits model made₀ ph) (hmodel : model' = model ∨ model = none) :
    Fits model' made₁ ph := by
  have hsame (m : M) (hm : model = some m) : model' = model := by
    apply hmodel.resolve_right
    rw [hm]
    exact Option.some_ne_none m
  cases ph with
  | rechecking | constructing | storing | releasing => exact absurd trivial hout
  | checking | acquiring | raised => trivial
  | reading =>
    obtain ⟨m, hm⟩ := hfits
    exact ⟨m, (hsame m hm).trans hm⟩
  | returned x =>
    obtain ⟨hx, m, hm⟩ := hfits
    rw [← hsame m hm] at hx hm
    exact ⟨hx, m, hm⟩

theorem fits_move (hmove : Move s ph s' ph' made) (hfits : Fits s.model made₀ ph)
    (hnone : ph = .constructing → made₀ = []) : Fits s'.model (made₀ ++ made.toList) ph' := by
  cases hmove with
  | found hmodel | refound hmodel => exact ⟨_, hmodel⟩
  | missing | acquire | fail | reraise | overrelease => trivial
  | stillMissing hmodel => exact hmodel
  | construct m =>
    rw [hnone rfl]
    exact ⟨hfits, m, rfl, rfl⟩
  | store x =>
    obtain ⟨-, m, hx, -⟩ := hfits
    exact ⟨m, hx⟩
  | release => exact hfits
  | read => exact ⟨rfl, hfits⟩

variable [DecidableEq ι] {i : ι}

theorem guarded_move (h : Guarded s.locked Phase.Inside phases)
    (hmove : Move s (phases i) s' ph' made) :
    Guarded s'.locked Phase.Inside (Function.update phases i ph') := by
  generalize hph : phases i = ph at hmove
  cases hmove with
  | found | missing | read | refound | stillMissing | construct | fail | store =>
    apply h.stay
    rw [hph]
    exact Iff.rfl
  | acquire hfree =>
    rw [hfree] at h
    exact h.enter i trivial
  | release | reraise =>
    have hinside : (phases i).Inside := by
      rw [hph]
      trivial
    exact h.leave hinside not_false
  | overrelease e hfree =>
    have hinside : (phases i).Inside := by
      rw [hph]
      trivial
    rw [h.locked_of_inside hinside] at hfree
    cases hfree

theorem recorded_keep (h : Recorded s.model made₀ phases)
    (hstoring : ∀ m, phases i ≠ .storing (some m)) :
    Recorded s.model made₀ (Function.update phases i ph') := by
  cases hmodel : s.model with
  | some m => rwa [hmodel] at h
  | none =>
    rw [hmodel] at h
    rcases h with hnone | ⟨j, m, hj⟩
    · exact Or.inl hnone
    · refine Or.inr ⟨j, m, ?_⟩
      rw [Function.update_of_ne, hj]
      rintro rfl
      exact hstoring m hj

theorem recorded_move (h : Recorded s.model made₀ phases) (hmove : Move s (phases i) s' ph' made)
    (hfits : Fits s.model made₀ (phases i)) :
    Recorded s'.model (made₀ ++ made.toList) (Function.update phases i ph') := by
  generalize hph : phases i = ph at hmove hfits
  cases hmove with
  | construct m =>
    have hmodel : s.model = none := hfits
    rw [hmodel]
    exact Or.inr ⟨i, m, Function.update_self ..⟩
  | store x =>
    obtain ⟨-, m, rfl, rfl⟩ := hfits
    rfl
  | found | missing | acquire | refound | stillMissing | fail | release | reraise | overrelease
  | read =>
    rw [Option.toList_none, List.append_nil]
    apply recorded_keep h
    intro m hm
    rw [hph] at hm
    cases hm

end

section
variable {p p' : Loader ι E M} {phases : ι → Phase E M}

theorem Inv.start : Inv (⟨⟨none, false⟩, fun _ => getSentenceTransformer, []⟩ : Loader ι E M)
    fun _ => .checking where
  progs _ := rfl
  guarded := .start not_false
  fits _ := trivial
  recorded := Or.inl rfl
  failures _ _ h := absurd h List.not_mem_nil

/-- Before a construction there is no instance. -/
theorem Inv.nothing_built (h : Inv p phases) {i : ι} (hi : phases i = .constructing) :
    built p.log = [] := by
  have hfits := h.fits i
  have hrecorded := h.recorded
  rw [hi] at hfits
  rw [show p.store.model = none from hfits] at hrecorded
  apply hrecorded.resolve_right
  rintro ⟨j, m, hj⟩
  have heq : i = j := by
    apply h.guarded.alone
    · rw [hi]
      trivial
    · rw [hj]
      trivial
  rw [heq, hj] at hi
  cases hi

variable [DecidableEq ι]

/-- A call whose construction raised has nothing left to do but to release. -/
theorem Inv.failures_serve (h : Inv p phases) {i : ι} {q : Call M} {ans : Except E (Option M)}
    {s' : Globals M} (hq : (phases i).call = some q) (hserve : Serve p.store q ans s') {j : ι} {e : E}
    (hj : (j, .construct, .error e) ∈ p.log ++ [(i, q, ans)]) :
    Function.update phases i ((phases i).after ans) j = .releasing (.error e) ∨
      Function.update phases i ((phases i).after ans) j = .raised e := by
  by_cases hij : j = i
  · subst hij
    rw [Function.update_self]
    rcases List.mem_append.mp hj with hj | hj
    · rcases h.failures j e hj with hph | hph
      · have hheld : p.store.locked = true := by
          apply h.guarded.locked_of_inside (i := j)
          rw [hph]
          trivial
        rw [hph] at hq ⊢
        cases hq
        cases hserve with
        | release => exact Or.inr rfl
        | overrelease _ hfree =>
          rw [hheld] at hfree
          cases hfree
      · rw [hph] at hq
        cases hq
    · cases List.mem_singleton.mp hj
      cases hph : phases j with
      | constructing => exact Or.inl rfl
      | _ =>
        rw [hph] at hq
        cases hq
  · rw [Function.update_of_ne hij]
    apply h.failures
    rcases List.mem_append.mp hj with hj | hj
    · exact hj
    · cases List.mem_singleton.mp hj
      exact absurd rfl hij

/-- An access of one call keeps the invariant. -/
theorem Inv.serve (h : Inv p phases) {i : ι} {q : Call M} {ans : Except E (Option M)}
    {s' : Globals M} (hq : (phases i).call = some q) (hserve : Serve p.store q ans s') :
    Inv ⟨s', Function.update p.progs i ((phases i).after ans).prog, p.log ++ [(i, q, ans)]⟩
      (Function.update phases i ((phases i).after ans)) where
  progs j := by
    by_cases hj : j = i
    · subst hj
      simp only [Function.update_self]
    · simp only [Function.update_of_ne hj, h.progs j]
  guarded := guarded_move h.guarded (move_of_serve hq hserve)
  fits j := by
    have hmove := move_of_serve hq hserve
    rw [built_append]
    by_cases hj : j = i
    · subst hj
      rw [Function.update_self]
      exact fits_move hmove (h.fits j) h.nothing_built
    · rw [Function.update_of_ne hj]
      by_cases hin : (phases i).Inside
      · have hout : ¬ (phases j).Inside := fun hjn => hj (h.guarded.alone j i hjn hin)
        exact fits_outside hout (h.fits j) (model_move hmove (h.fits i))
      · obtain ⟨hmodel, hnone⟩ := quiet_of_outside hmove hin
        rw [hmodel, hnone, Option.toList_none, List.append_nil]
        exact h.fits j
  recorded := by
    rw [built_append]
    exact recorded_move h.recorded (move_of_serve hq hserve) (h.fits i)
  failures _ _ hj := h.failures_serve hq hserve hj

theorem Inv.step (h : Inv p phases) (hstep : Pool.Step Serve p p') :
    ∃ i ph' made, Move p.store (phases i) p'.store ph' made ∧
      Inv p' (Function.update phases i ph') := by
  cases hstep with
  | @serve i q k ans s hcall hserve =>
    rw [h.progs i] at hcall
    obtain ⟨hq, hk⟩ := (phases i).prog_call hcall
    rw [hk]
    exact ⟨i, _, _, move_of_serve hq hserve, h.serve hq hserve⟩

/-- Every move can be made. -/
theorem Inv.step_of_move (h : Inv p phases) {i : ι} {s' : Globals M} {ph' : Phase E M}
    {made : Option M} (hmove : Move p.store (phases i) s' ph' made) :
    ∃ p', Pool.Step Serve p p' ∧ p'.store = s' ∧ Inv p' (Function.update phases i ph') := by
  obtain ⟨q, ans, hq, hserve, rfl, rfl⟩ := serve_of_move hmove
  have hcall := (h.progs i).trans ((phases i).prog_eq hq)
  exact ⟨_, .serve hcall hserve, rfl, h.serve hq hserve⟩

theorem Inv.reachable
    (h : Pool.Reachable Serve ⟨none, false⟩ (fun _ : ι => getSentenceTransformer) p) :
    ∃ phases : ι → Phase E M, Inv p phases := by
  apply h.invariant (fun p => ∃ phases, Inv p phases)
  · exact ⟨_, .start⟩
  · rintro p p' ⟨phases, hinv⟩ hstep
    obtain ⟨i, ph', made, -, hinv'⟩ := hinv.step hstep
    exact ⟨_, hinv'⟩

end

/-! ## One call on its own -/

section
variable [DecidableEq ι] {p : Loader ι E M} {phases : ι → Phase E M} {i : ι} {s s' : Globals M}
  {ph ph' : Phase E M} {made : Option M}

/-- With no access of any other, call `i` comes to phase `ph` and the globals to `s`. -/
def Alone (p : Loader ι E M) (phases : ι → Phase E M) (i : ι) (s : Globals M) (ph : Phase E M) :
    Prop :=
  ∃ p', Relation.ReflTransGen (Pool.Step Serve) p p' ∧ p'.store = s ∧
    Inv p' (Function.update phases i ph)

theorem Alone.start (h : Inv p phases) (hi : phases i = ph) : Alone p phases i p.store ph := by
  refine ⟨p, .refl, rfl, ?_⟩
  rwa [← hi, Function.update_eq_self]

theorem Alone.move (h : Alone p phases i s ph) (hmove : Move s ph s' ph' made) :
    Alone p phases i s' ph' := by
  obtain ⟨p₁, hsteps, rfl, hinv⟩ := h
  rw [← Function.update_self i ph phases] at hmove
  obtain ⟨p₂, hstep, rfl, hinv'⟩ := hinv.step_of_move hmove
  rw [Function.update_idem] at hinv'
  exact ⟨p₂, hsteps.tail hstep, rfl, hinv'⟩

/-- Whoever is inside can go on and leave, whatever comes of it. -/
theorem Alone.leave (h : Alone p phases i s ph) (hheld : s.locked = true) (hinside : ph.Inside)
    (m : M) : ∃ s' ph', Alone p phases i s' ph' ∧ s'.locked = false := by
  have releasing {s : Globals M} {outcome : Except E Unit} (hheld : s.locked = true)
      (h : Alone p phases i s (.releasing outcome)) :
      ∃ s' ph', Alone p phases i s' ph' ∧ s'.locked = false := by
    cases outcome with
    | ok => exact ⟨_, _, h.move (.release hheld), rfl⟩
    | error e => exact ⟨_, _, h.move (.reraise hheld), rfl⟩
  have storing {x : Option M} (h : Alone p phases i s (.storing x)) :
      ∃ s' ph', Alone p phases i s' ph' ∧ s'.locked = false :=
    releasing (by exact hheld) (h.move (.store s x))
  cases ph with
  | releasing outcome => exact releasing hheld h
  | storing x => exact storing h
  | constructing => exact storing (h.move (.construct s m))
  | rechecking =>
    cases hmodel : s.model with
    | some m' => exact releasing hheld (h.move (.refound hmodel))
    | none => exact storing ((h.move (.stillMissing hmodel)).move (.construct s m))
  | checking | acquiring | reading | returned | raised => cases hinside

/-- With the lock free, a call that begins can return an instance. -/
theorem Alone.succeed (h : Alone p phases i s .checking) (hfree : s.locked = false) (m : M) :
    ∃ s' m', Alone p phases i s' (.returned (some m')) := by
  cases hmodel : s.model with
  | some m' =>
    have hread := (h.move (.found hmodel)).move (.read s)
    rw [hmodel] at hread
    exact ⟨s, m', hread⟩
  | none =>
    have hin := (h.move (.missing hmodel)).move (.acquire hfree)
    have hmade := (hin.move (.stillMissing hmodel)).move (.construct _ m)
    have hout := (hmade.move (.store _ _)).move (.release rfl)
    exact ⟨_, m, hout.move (.read _)⟩

/-- From any state of the invariant a call that begins can return an instance:
first whoever holds the lock leaves. -/
theorem Inv.succeed (h : Inv p phases) (hi : phases i = .checking) (m : M) :
    ∃ p' m', Relation.ReflTransGen (Pool.Step Serve) p p' ∧ p'.progs i = .done (some m') := by
  obtain ⟨p₁, phases₁, hsteps, hinv, hfree, hchecking⟩ : ∃ p₁ phases₁,
      Relation.ReflTransGen (Pool.Step Serve) p p₁ ∧ Inv p₁ phases₁ ∧ p₁.store.locked = false ∧
        phases₁ i = .checking := by
    cases hlocked : p.store.locked with
    | false => exact ⟨p, phases, .refl, h, hlocked, hi⟩
    | true =>
      obtain ⟨j, hj⟩ := h.guarded.held.mp hlocked
      obtain ⟨s', ph', ⟨p₁, hsteps, rfl, hinv⟩, hfree⟩ := (Alone.start h rfl).leave hlocked hj m
      refine ⟨p₁, _, hsteps, hinv, hfree, ?_⟩
      rw [Function.update_of_ne, hi]
      rintro rfl
      rw [hi] at hj
      cases hj
  obtain ⟨s', m', p₂, hsteps', -, hinv'⟩ := (Alone.start hinv hchecking).succeed hfree m
  refine ⟨p₂, m', hsteps.trans hsteps', ?_⟩
  rw [hinv'.progs i, Function.update_self]
  rfl

end

/-! ## The model is built once -/

section
variable {p p' : Loader ι E M} {phases : ι → Phase E M}

theorem Inv.length_built_le (h : Inv p phases) : (built p.log).length ≤ 1 := by
  have hrecorded := h.recorded
  cases hmodel : p.store.model with
  | some m =>
    rw [hmodel] at hrecorded
    simp [show built p.log = [m] from hrecorded]
  | none =>
    rw [hmodel] at hrecorded
    rcases hrecorded with hnone | ⟨i, m, hi⟩
    · simp [hnone]
    · have hfits := h.fits i
      rw [hi] at hfits
      obtain ⟨-, m', -, hmade⟩ := hfits
      simp [hmade]

theorem Inv.returned (h : Inv p phases) {i : ι} {x : Option M} (hi : p.progs i = .done x) :
    ∃ m, x = some m ∧ built p.log = [m] := by
  have hfits := h.fits i
  have hrecorded := h.recorded
  rw [Phase.eq_returned ((h.progs i).symm.trans hi)] at hfits
  obtain ⟨hx, m, hmodel⟩ := hfits
  rw [hmodel] at hx hrecorded
  exact ⟨m, hx, hrecorded⟩

variable [DecidableEq ι]

/-- A call whose construction raised has raised, or does so at its next access. -/
theorem Inv.raises (h : Inv p phases) {i : ι} {e : E}
    (hfailed : (i, .construct, .error e) ∈ p.log) :
    p.progs i = .raise e ∨ ∃ p', Pool.Step Serve p p' ∧ p'.progs i = .raise e := by
  rcases h.failures i e hfailed with hph | hph
  · have hheld : p.store.locked = true := by
      apply h.guarded.locked_of_inside (i := i)
      rw [hph]
      trivial
    have hmove : Move p.store (phases i) { p.store with locked := false } (.raised e) none := by
      rw [hph]
      exact .reraise hheld
    obtain ⟨p', hstep, -, hinv⟩ := h.step_of_move hmove
    refine Or.inr ⟨p', hstep, ?_⟩
    rw [hinv.progs i, Function.update_self]
    rfl
  · refine Or.inl ?_
    rw [h.progs i, hph]
    rfl

/-- The access a call raises at leaves the lock free. -/
theorem Inv.free_of_raised (h : Inv p phases) (hstep : Pool.Step Serve p p') {i : ι} {e : E}
    (hi : p'.progs i = .raise e) (hbefore : p.progs i ≠ .raise e) : p'.store.locked = false := by
  obtain ⟨j, ph', made, hmove, hinv⟩ := h.step hstep
  by_cases hj : i = j
  · subst hj
    have hph' := hinv.progs i
    rw [Function.update_self, hi] at hph'
    rw [Phase.eq_raised hph'.symm] at hmove
    generalize p.store = s, phases i = ph, p'.store = s' at hmove
    cases hmove with
    | reraise => rfl
    | overrelease _ hfree => exact hfree
  · have hsame := hinv.progs i
    rw [Function.update_of_ne hj, ← h.progs i, hi] at hsame
    exact absurd hsame.symm hbefore

end

/-- **The model is built once.** Whatever number of calls are under way and in
whatever order their accesses come, at most one construction has succeeded, and
every call that returned has returned that instance. A call whose construction
raised ends by that exception at its next access; a call that ends so leaves
the lock free; and at any time a call that begins can return an instance. -/
theorem model_built_once [DecidableEq ι] {p : Loader ι E M}
    (h : Pool.Reachable Serve ⟨none, false⟩ (fun _ : ι => getSentenceTransformer) p) :
    (built p.log).length ≤ 1 ∧
    (∀ i x, p.progs i = .done x → ∃ m, x = some m ∧ built p.log = [m]) ∧
    (∀ i e, (i, .construct, .error e) ∈ p.log →
      p.progs i = .raise e ∨ ∃ p', Pool.Step Serve p p' ∧ p'.progs i = .raise e) ∧
    (∀ p' i e, Pool.Step Serve p p' → p'.progs i = .raise e → p.progs i ≠ .raise e →
      p'.store.locked = false) ∧
    ∀ i, p.progs i = getSentenceTransformer → ∀ _ : M, ∃ p' m,
      Relation.ReflTransGen (Pool.Step Serve) p p' ∧ p'.progs i = .done (some m) := by
  obtain ⟨phases, hinv⟩ := Inv.reachable h
  refine ⟨hinv.length_built_le, fun _ _ => hinv.returned, fun _ _ => hinv.raises, ?_, ?_⟩
  · intro p' i e hstep
    exact hinv.free_of_raised hstep
  · intro i hi m
    exact hinv.succeed (Phase.eq_checking ((hinv.progs i).symm.trans hi)) m

/-- Two calls: the construction of the first raises, that of the second does not. -/
theorem model_built_once_after_failure :
    ∃ p : Loader Bool Unit Nat,
      Pool.Reachable Serve ⟨none, false⟩ (fun _ => getSentenceTransformer) p ∧
      p.progs true = .raise () ∧ p.progs false = .done (some 7) ∧ built p.log = [7] := by
  have hstart : Pool.Reachable (E := Unit) Serve ⟨none, false⟩
      (fun _ : Bool => getSentenceTransformer (M := Nat)) _ := .start
  have hinside := (hstart.next (.serve (i := true) rfl (.load _))).next
    (.serve (i := true) rfl (.acquire rfl))
  have hfailed := ((hinside.next (.serve (i := true) rfl (.load _))).next
    (.serve (i := true) rfl (.fail _ ()))).next (.serve (i := true) rfl (.release rfl))
  have hagain := (hfailed.next (.serve (i := false) rfl (.load _))).next
    (.serve (i := false) rfl (.acquire rfl))
  have hbuilt := ((hagain.next (.serve (i := false) rfl (.load _))).next
    (.serve (i := false) rfl (.construct _ 7))).next (.serve (i := false) rfl (.store _ _))
  have hdone := (hbuilt.next (.serve (i := false) rfl (.release rfl))).next
    (.serve (i := false) rfl (.load _))
  obtain ⟨m, hm, hmade⟩ := (model_built_once hdone).2.1 false (some 7) rfl
  cases hm
  exact ⟨_, hdone, rfl, rfl, hmade⟩

end TechMart.ModelLoader
