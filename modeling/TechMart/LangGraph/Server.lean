import TechMart.LangGraph.Superstep

/-!
# Runs over one checkpointer

Any number of runs of one compiled graph, interleaved task step by task step.
A run starts from its input and the checkpoint of its thread, and saves its
channels there. With fresh thread ids the runs do not see each other:
`Server.Reachable.turn`.
-/

namespace TechMart.LangGraph

variable {ι θ N S U E Q A : Type} [DecidableEq ι] [DecidableEq θ] [DecidableEq N]

/-- The checkpoints by thread, and the runs with their threads. -/
structure Server (ι θ : Type) {N S U E Q A : Type} (g : Graph N S U E Q A) where
  saver : θ → Option S
  turns : ι → Option (θ × Turn g)

namespace Server

/-- The run `i` stands at `turn`, and its thread's checkpoint says so. -/
def put {g : Graph N S U E Q A} (srv : Server ι θ g) (i : ι) (thread : θ) (turn : Turn g) :
    Server ι θ g :=
  ⟨Function.update srv.saver thread (some turn.state),
    Function.update srv.turns i (some (thread, turn))⟩

variable {g : Graph N S U E Q A} (serves : ι → N → Q → Except E A → Prop) (empty : S)
  (input : ι → U)

/-- A run starts on a fresh thread, or one of the started runs takes a step. -/
inductive Step : Server ι θ g → Server ι θ g → Prop
  | start {srv : Server ι θ g} {i : ι} {thread : θ} :
      srv.turns i = none → srv.saver thread = none →
      Step srv (srv.put i thread (Turn.start g ((srv.saver thread).getD empty) (input i)))
  | turn {srv : Server ι θ g} {i : ι} {thread : θ} {t t' : Turn g} :
      srv.turns i = some (thread, t) → Turn.Step (serves i) t t' →
      Step srv (srv.put i thread t')

inductive Reachable : Server ι θ g → Prop
  | start : Reachable ⟨fun _ => none, fun _ => none⟩
  | next {srv srv' : Server ι θ g} : Reachable srv → Step serves empty input srv srv' →
      Reachable srv'

variable {serves empty input}

/-- Whatever runs beside it, a run is a run of the graph from its own input on
empty channels. -/
theorem Reachable.turn {srv : Server ι θ g} (h : Reachable serves empty input srv) {i : ι}
    {thread : θ} {t : Turn g} (ht : srv.turns i = some (thread, t)) :
    Turn.Reachable (serves i) (Turn.start g empty (input i)) t := by
  induction h generalizing i thread t with
  | start => cases ht
  | next _ hstep ih =>
    cases hstep with
    | @start j fresh hnone hfresh =>
      by_cases hij : i = j
      · subst hij
        simp only [put, Function.update_self, hfresh, Option.getD_none, Option.some.injEq,
          Prod.mk.injEq] at ht
        obtain ⟨-, rfl⟩ := ht
        exact .start
      · simp only [put, Function.update_of_ne hij] at ht
        exact ih ht
    | @turn j other u u' hj hstep =>
      by_cases hij : i = j
      · subst hij
        simp only [put, Function.update_self, Option.some.injEq, Prod.mk.injEq] at ht
        obtain ⟨-, rfl⟩ := ht
        exact (ih hj).next hstep
      · simp only [put, Function.update_of_ne hij] at ht
        exact ih ht

/-- Any run of the graph can be added to a server, on a fresh thread. -/
theorem Reachable.add {srv : Server ι θ g} (hsrv : Reachable serves empty input srv) {i : ι}
    (thread : θ) (hi : srv.turns i = none) (hthread : srv.saver thread = none) {t : Turn g}
    (h : Turn.Reachable (serves i) (Turn.start g empty (input i)) t) :
    ∃ srv' : Server ι θ g, Reachable serves empty input srv' ∧
      srv'.turns = Function.update srv.turns i (some (thread, t)) ∧
      srv'.saver = Function.update srv.saver thread (some t.state) := by
  induction h with
  | start =>
    refine ⟨_, hsrv.next (.start hi hthread), ?_, ?_⟩
    · simp only [put, hthread, Option.getD_none]
    · simp only [put, hthread, Option.getD_none]
  | @next u u' _ hstep ih =>
    obtain ⟨srv', hreach, hturns, hsaver⟩ := ih
    have hturn : srv'.turns i = some (thread, u) := by rw [hturns, Function.update_self]
    refine ⟨_, hreach.next (.turn hturn hstep), ?_, ?_⟩
    · simp only [put, hturns, Function.update_idem]
    · simp only [put, hsaver, Function.update_idem]

/-- Any run of the graph is the run of some server. -/
theorem exists_server {i : ι} (thread : θ) {t : Turn g}
    (h : Turn.Reachable (serves i) (Turn.start g empty (input i)) t) :
    ∃ srv : Server ι θ g, Reachable serves empty input srv ∧ srv.turns i = some (thread, t) := by
  have hstart : Reachable serves empty input (⟨fun _ => none, fun _ => none⟩ : Server ι θ g) := .start
  obtain ⟨srv, hsrv, hturns, -⟩ := hstart.add thread rfl rfl h
  exact ⟨srv, hsrv, by rw [hturns, Function.update_self]⟩

end Server

end TechMart.LangGraph
