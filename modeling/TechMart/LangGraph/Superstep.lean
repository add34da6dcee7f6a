import TechMart.Python.Prog
import Mathlib.Data.List.Dedup

/-!
# Supersteps

A compiled graph runs in supersteps: every task of a step reads the same
channels, the reducers take in all updates when the last task has finished,
and each target of the step becomes one task of the next. The first exception
ends the run and the tasks beside it.
-/

namespace TechMart.LangGraph

open Python

/-- Nodes `N`, channels `S`, updates `U`; the nodes are programs. `targets`
are the edges that leave a node, read after the node's own writes. -/
structure Graph (N S U E Q A : Type) where
  entry : N
  node : N → S → Prog E Q A U
  reduce : S → U → S
  targets : N → S → List N

variable {N S U E Q A : Type} {g : Graph N S U E Q A}

/-- A node at work: what it read, what its calls were answered, what is left. -/
structure Task (g : Graph N S U E Q A) where
  node : N
  read : S
  calls : List (Q × Except E A)
  prog : Prog E Q A U
  path : Prog.Path (g.node node read) calls prog

/-- A task that has finished. -/
structure Record (g : Graph N S U E Q A) where
  node : N
  read : S
  calls : List (Q × Except E A)
  update : U
  path : Prog.Path (g.node node read) calls (.done update)

namespace Task

def start (g : Graph N S U E Q A) (n : N) (state : S) : Task g :=
  ⟨n, state, [], g.node n state, .refl _⟩

/-- The task once its next call was answered. -/
def answered (t : Task g) {q : Q} {k : Except E A → Prog E Q A U} (h : t.prog = .call q k)
    (ans : Except E A) : Task g :=
  ⟨t.node, t.read, t.calls ++ [(q, ans)], k ans, (h ▸ t.path).snoc ans⟩

end Task

def Record.task (r : Record g) : Task g := ⟨r.node, r.read, r.calls, .done r.update, r.path⟩

theorem Task.exists_record (t : Task g) {u : U} (h : t.prog = .done u) :
    ∃ r : Record g, r.task = t := by
  obtain ⟨node, read, calls, prog, path⟩ := t
  cases h
  exact ⟨⟨node, read, calls, u, path⟩, rfl⟩

namespace Task

/-- The tasks of a step have all finished, or one of them has something to do. -/
theorem tasks_finished_or (tasks : List (Task g)) :
    (∃ records : List (Record g), tasks = records.map Record.task) ∨
    ∃ before task after, tasks = before ++ task :: after ∧
      ((∃ q k, task.prog = .call q k) ∨ ∃ e, task.prog = .raise e) := by
  induction tasks with
  | nil => exact Or.inl ⟨[], rfl⟩
  | cons task tasks ih =>
    cases hprog : task.prog with
    | call q k => exact Or.inr ⟨[], task, tasks, rfl, Or.inl ⟨q, k, hprog⟩⟩
    | raise e => exact Or.inr ⟨[], task, tasks, rfl, Or.inr ⟨e, hprog⟩⟩
    | done u =>
      rcases ih with ⟨records, rfl⟩ | ⟨before, other, after, rfl, hother⟩
      · obtain ⟨r, rfl⟩ := task.exists_record hprog
        exact Or.inl ⟨r :: records, rfl⟩
      · exact Or.inr ⟨task :: before, other, after, rfl, hother⟩

/-- The first task with something to do: its call answered, or what it raised. -/
def work (answer : N → Q → Except E A) : List (Task g) → Option (List (Task g) ⊕ N × E)
  | [] => none
  | ⟨node, read, calls, .call q k, path⟩ :: tasks =>
    some (.inl (⟨node, read, calls ++ [(q, answer node q)], k (answer node q), path.snoc _⟩ :: tasks))
  | ⟨node, _, _, .raise e, _⟩ :: _ => some (.inr (node, e))
  | ⟨node, read, calls, .done u, path⟩ :: tasks =>
    (work answer tasks).map fun
      | .inl tasks => .inl (⟨node, read, calls, .done u, path⟩ :: tasks)
      | .inr failure => .inr failure

/-- The records of tasks that have all finished. -/
def records : List (Task g) → List (Record g)
  | [] => []
  | ⟨node, read, calls, .done u, path⟩ :: tasks => ⟨node, read, calls, u, path⟩ :: records tasks
  | _ :: tasks => records tasks

theorem work_move {answer : N → Q → Except E A} {tasks tasks' : List (Task g)}
    (h : work answer tasks = some (.inl tasks')) :
    ∃ before, ∃ task : Task g, ∃ after q k, ∃ hprog : task.prog = .call q k,
      tasks = before ++ task :: after ∧
      tasks' = before ++ task.answered hprog (answer task.node q) :: after := by
  induction tasks generalizing tasks' with
  | nil => cases h
  | cons task tasks ih =>
    obtain ⟨node, read, calls, prog, path⟩ := task
    cases prog with
    | call q k =>
      cases h
      exact ⟨[], ⟨node, read, calls, .call q k, path⟩, tasks, q, k, rfl, rfl, rfl⟩
    | raise e => cases h
    | done u =>
      simp only [work, Option.map_eq_some_iff] at h
      obtain ⟨result, hresult, h⟩ := h
      cases result with
      | inr failure => cases h
      | inl rest =>
        cases h
        obtain ⟨before, task, after, q, k, hprog, rfl, rfl⟩ := ih hresult
        exact ⟨_ :: before, task, after, q, k, hprog, rfl, rfl⟩

theorem work_fail {answer : N → Q → Except E A} {tasks : List (Task g)} {n : N} {e : E}
    (h : work answer tasks = some (.inr (n, e))) :
    ∃ before, ∃ task : Task g, ∃ after, tasks = before ++ task :: after ∧
      task.node = n ∧ task.prog = .raise e := by
  induction tasks with
  | nil => cases h
  | cons task tasks ih =>
    obtain ⟨node, read, calls, prog, path⟩ := task
    cases prog with
    | call q k => cases h
    | raise e =>
      cases h
      exact ⟨[], _, tasks, rfl, rfl, rfl⟩
    | done u =>
      simp only [work, Option.map_eq_some_iff] at h
      obtain ⟨result, hresult, h⟩ := h
      cases result with
      | inl rest => cases h
      | inr failure =>
        cases h
        obtain ⟨before, task, after, rfl, hnode, hprog⟩ := ih hresult
        exact ⟨_ :: before, task, after, rfl, hnode, hprog⟩

theorem work_none {answer : N → Q → Except E A} {tasks : List (Task g)}
    (h : work answer tasks = none) : tasks = (records tasks).map Record.task := by
  induction tasks with
  | nil => rfl
  | cons task tasks ih =>
    obtain ⟨node, read, calls, prog, path⟩ := task
    cases prog with
    | call q k => cases h
    | raise e => cases h
    | done u =>
      simp only [work, Option.map_eq_none_iff] at h
      rw [records, List.map_cons, ← ih h]
      rfl

/-- One of the tasks has its next call answered. -/
inductive Answered : List (Task g) → List (Task g) → Prop
  | call (before : List (Task g)) {task : Task g} {q : Q} {k : Except E A → Prog E Q A U}
      (h : task.prog = .call q k) (ans : Except E A) (after : List (Task g)) :
      Answered (before ++ task :: after) (before ++ task.answered h ans :: after)

theorem not_answered_nil (tasks : List (Task g)) : ¬ Answered [] tasks := by
  intro h
  generalize hnil : ([] : List (Task g)) = all at h
  cases h
  simp at hnil

theorem answered_cons {task : Task g} {tasks tasks' : List (Task g)}
    (h : Answered (task :: tasks) tasks') :
    (∃ q k, ∃ h : task.prog = .call q k, ∃ ans, tasks' = task.answered h ans :: tasks) ∨
    ∃ rest, Answered tasks rest ∧ tasks' = task :: rest := by
  generalize hall : task :: tasks = all at h
  cases h with
  | @call before other q k hprog ans after =>
    cases before with
    | nil =>
      cases hall
      exact Or.inl ⟨q, k, hprog, ans, rfl⟩
    | cons first before =>
      cases hall
      exact Or.inr ⟨_, .call before hprog ans after, rfl⟩

/-- A program makes finitely many calls, and so do programs side by side. -/
theorem answered_acc_cons (p : Prog E Q A U) {task : Task g} (hp : task.prog = p)
    {tasks : List (Task g)} (h : Acc (fun ts' ts : List (Task g) => Answered ts ts') tasks) :
    Acc (fun ts' ts : List (Task g) => Answered ts ts') (task :: tasks) := by
  induction p generalizing task tasks with
  | done _ | raise _ =>
    induction h with
    | intro tasks _ ih =>
      constructor
      intro tasks' hstep
      rcases answered_cons hstep with ⟨q, k, hprog, -⟩ | ⟨rest, hrest, rfl⟩
      · cases hp.symm.trans hprog
      · exact ih rest hrest
  | call q k ihp =>
    induction h with
    | intro tasks htasks ih =>
      constructor
      intro tasks' hstep
      rcases answered_cons hstep with ⟨q', k', hprog, ans, rfl⟩ | ⟨rest, hrest, rfl⟩
      · cases hp.symm.trans hprog
        exact ihp ans rfl ⟨tasks, htasks⟩
      · exact ih rest hrest

theorem answered_acc (tasks : List (Task g)) :
    Acc (fun ts' ts : List (Task g) => Answered ts ts') tasks := by
  induction tasks with
  | nil => exact ⟨_, fun tasks h => absurd h (not_answered_nil tasks)⟩
  | cons task tasks ih => exact answered_acc_cons task.prog rfl ih

end Task

/-- How a run stopped before its end. -/
inductive Stop (N E : Type) where
  | failed (node : N) (e : E)
  | cancelled

/-- One run of the graph: its channels, the tasks of the current superstep and
the finished supersteps. -/
structure Turn (g : Graph N S U E Q A) where
  state : S
  tasks : List (Task g)
  steps : List (List (Record g))
  stop : Option (Stop N E)

namespace Turn

def start (g : Graph N S U E Q A) (checkpoint : S) (input : U) : Turn g :=
  ⟨g.reduce checkpoint input, [Task.start g g.entry (g.reduce checkpoint input)], [], none⟩

/-- The run has come to the end of the graph. -/
def Ended (t : Turn g) : Prop := t.tasks = [] ∧ t.stop = none

variable [DecidableEq N]

/-- The nodes of the next superstep: each target once. -/
def nextNodes (records : List (Record g)) : List N :=
  (records.flatMap fun r => g.targets r.node (g.reduce r.read r.update)).dedup

/-- The reducers take in the updates in some order, and the next step starts. -/
def commit (t : Turn g) (records ordered : List (Record g)) : Turn g :=
  let state := ordered.foldl (fun s r => g.reduce s r.update) t.state
  { t with
    state
    tasks := (nextNodes records).map fun n => Task.start g n state
    steps := t.steps ++ [records] }

variable (serves : N → Q → Except E A → Prop)

/-- What a run does by itself. -/
inductive Move : Turn g → Turn g → Prop
  | call {t : Turn g} {before after : List (Task g)} {task : Task g} {q : Q}
      {k : Except E A → Prog E Q A U} {ans : Except E A} :
      t.stop = none → t.tasks = before ++ task :: after → (h : task.prog = .call q k) →
      serves task.node q ans →
      Move t { t with tasks := before ++ task.answered h ans :: after }
  | commit {t : Turn g} {records ordered : List (Record g)} :
      t.stop = none → records ≠ [] → t.tasks = records.map Record.task → ordered.Perm records →
      Move t (t.commit records ordered)
  | fail {t : Turn g} {before after : List (Task g)} {task : Task g} {e : E} :
      t.stop = none → t.tasks = before ++ task :: after → task.prog = .raise e →
      Move t { t with tasks := [], stop := some (.failed task.node e) }

/-- What can happen to a run: a move of its own, or a cancellation. -/
inductive Step : Turn g → Turn g → Prop
  | move {t t' : Turn g} : Move serves t t' → Step t t'
  | cancel {t : Turn g} : t.stop = none → t.tasks ≠ [] →
      Step t { t with tasks := [], stop := some .cancelled }

inductive Reachable (t₀ : Turn g) : Turn g → Prop
  | start : Reachable t₀ t₀
  | next {t t' : Turn g} : Reachable t₀ t → Step serves t t' → Reachable t₀ t'

variable {serves}

theorem Reachable.invariant (Inv : Turn g → Prop) {t₀ t : Turn g} (start : Inv t₀)
    (step : ∀ t t', Inv t → Step serves t t' → Inv t') (h : Reachable serves t₀ t) : Inv t := by
  induction h with
  | start => exact start
  | next _ hstep ih => exact step _ _ ih hstep

/-- A run that was not stopped and has tasks left can move. -/
theorem exists_move (hserves : ∀ n q, ∃ ans, serves n q ans) {t : Turn g} (hstop : t.stop = none)
    (htasks : t.tasks ≠ []) : ∃ t', Move serves t t' := by
  rcases Task.tasks_finished_or t.tasks with
    ⟨records, hrecords⟩ | ⟨before, task, after, hsplit, htask⟩
  · have hne : records ≠ [] := by
      rintro rfl
      exact htasks hrecords
    exact ⟨_, .commit hstop hne hrecords (.refl _)⟩
  · rcases htask with ⟨q, k, hprog⟩ | ⟨e, hprog⟩
    · obtain ⟨ans, hans⟩ := hserves task.node q
      exact ⟨_, .call hstop hsplit hprog hans⟩
    · exact ⟨_, .fail hstop hsplit hprog⟩

/-- A run without tasks has nothing left to do. -/
theorem not_move_of_no_tasks {t t' : Turn g} (htasks : t.tasks = []) : ¬ Move serves t t' := by
  intro h
  cases h with
  | call _ hsplit | fail _ hsplit => simp [htasks] at hsplit
  | commit _ hne hrecords =>
    rw [htasks] at hrecords
    exact hne (List.map_eq_nil_iff.mp hrecords.symm)

/-! ## What a run has done -/

variable (serves) in
/-- The finished supersteps from channels `s₀` on, the channels after them and
the nodes of the next one. -/
inductive Chain (s₀ : S) : List (List (Record g)) → S → List N → Prop
  | start : Chain s₀ [] s₀ [g.entry]
  | step {steps : List (List (Record g))} {state : S} {nodes : List N}
      {records ordered : List (Record g)} :
      Chain s₀ steps state nodes → records ≠ [] → records.map Record.node = nodes →
      (∀ r ∈ records, r.read = state ∧ ∀ c ∈ r.calls, serves r.node c.1 c.2) →
      ordered.Perm records →
      Chain s₀ (steps ++ [records]) (ordered.foldl (fun s r => g.reduce s r.update) state)
        (nextNodes records)

variable (serves) in
/-- Where a run stands that started from channels `s₀`. -/
structure Sound (s₀ : S) (t : Turn g) (nodes : List N) : Prop where
  chain : Chain serves s₀ t.steps t.state nodes
  working : t.stop = none → t.tasks.map Task.node = nodes
  reads : ∀ task ∈ t.tasks, task.read = t.state ∧ ∀ c ∈ task.calls, serves task.node c.1 c.2
  stopped : t.stop ≠ none → t.tasks = []
  failed : ∀ n e, t.stop = some (.failed n e) → n ∈ nodes ∧
    ∃ calls, Prog.Path (g.node n t.state) calls (.raise e) ∧ ∀ c ∈ calls, serves n c.1 c.2

theorem sound_start (checkpoint : S) (input : U) :
    Sound serves (g.reduce checkpoint input) (start g checkpoint input) [g.entry] where
  chain := .start
  working := fun _ => rfl
  reads := by
    intro task htask
    cases List.mem_singleton.mp htask
    exact ⟨rfl, nofun⟩
  stopped := fun h => absurd rfl h
  failed := nofun

theorem sound_move {s₀ : S} {t t' : Turn g} {nodes : List N} (inv : Sound serves s₀ t nodes)
    (h : Move serves t t') : ∃ nodes', Sound serves s₀ t' nodes' := by
  cases h with
  | @call before after task q k ans hstop hsplit hprog hserves =>
    have htask : task ∈ t.tasks := by simp [hsplit]
    refine ⟨nodes, inv.chain, fun _ => ?_, ?_, fun h => absurd hstop h, inv.failed⟩
    · rw [← inv.working hstop, hsplit]
      simp [Task.answered]
    · intro other hother
      rcases List.mem_append.mp hother with hother | hother
      · exact inv.reads other (by simp [hsplit, hother])
      · rcases List.mem_cons.mp hother with rfl | hother
        · obtain ⟨hread, hcalls⟩ := inv.reads task htask
          refine ⟨hread, ?_⟩
          intro c hc
          rcases List.mem_append.mp hc with hc | hc
          · exact hcalls c hc
          · cases List.mem_singleton.mp hc
            exact hserves
        · exact inv.reads other (by simp [hsplit, hother])
  | @commit records ordered hstop hne hrecords hperm =>
    refine ⟨nextNodes records, .step inv.chain hne ?_ ?_ hperm, fun _ => ?_, ?_, ?_, ?_⟩
    · rw [← inv.working hstop, hrecords, List.map_map]
      rfl
    · intro r hr
      exact inv.reads r.task (hrecords ▸ List.mem_map_of_mem hr)
    · exact (List.map_map ..).trans (List.map_id _)
    · intro task htask
      obtain ⟨n, -, rfl⟩ := List.mem_map.mp htask
      exact ⟨rfl, nofun⟩
    · exact fun h => absurd hstop h
    · intro n e h
      rw [show (t.commit records ordered).stop = t.stop from rfl, hstop] at h
      cases h
  | @fail before after task e hstop hsplit hprog =>
    have htask : task ∈ t.tasks := by simp [hsplit]
    refine ⟨nodes, inv.chain, nofun, nofun, fun _ => rfl, ?_⟩
    rintro n e' ⟨⟩
    obtain ⟨hread, hcalls⟩ := inv.reads task htask
    refine ⟨?_, task.calls, ?_, hcalls⟩
    · rw [← inv.working hstop, hsplit]
      simp
    · have := task.path
      rwa [hprog, hread] at this

/-- Every run is a chain of supersteps with the tasks of the next at work. -/
theorem Reachable.sound {checkpoint : S} {input : U} {t : Turn g}
    (h : Reachable serves (Turn.start g checkpoint input) t) :
    ∃ nodes, Sound serves (g.reduce checkpoint input) t nodes := by
  refine h.invariant (fun t => ∃ nodes, Sound serves (g.reduce checkpoint input) t nodes)
    ⟨_, sound_start checkpoint input⟩ ?_
  rintro t t' ⟨nodes, inv⟩ hstep
  cases hstep with
  | move hmove => exact sound_move inv hmove
  | cancel hstop =>
    exact ⟨nodes, inv.chain, nofun, nofun, fun _ => rfl, nofun⟩

/-! ## Coming to rest -/

/-- A run at rest that was not cancelled has no node next, or one of them raised. -/
theorem Sound.at_rest {s₀ : S} {t : Turn g} {nodes : List N} (sound : Sound serves s₀ t nodes)
    (hserves : ∀ n q, ∃ ans, serves n q ans) (hrest : ∀ t', ¬ Move serves t t')
    (hcancel : t.stop ≠ some .cancelled) :
    nodes = [] ∨ ∃ n ∈ nodes, ∃ e calls, t.stop = some (.failed n e) ∧
      Prog.Path (g.node n t.state) calls (.raise e) ∧ ∀ c ∈ calls, serves n c.1 c.2 := by
  cases hstop : t.stop with
  | none =>
    left
    by_contra hnodes
    have htasks : t.tasks ≠ [] := by
      intro hnil
      rw [← sound.working hstop, hnil] at hnodes
      exact hnodes rfl
    obtain ⟨t', hmove⟩ := exists_move hserves hstop htasks
    exact hrest t' hmove
  | some stop =>
    cases stop with
    | cancelled => exact absurd hstop hcancel
    | failed n e =>
      obtain ⟨hn, calls, hpath, hcalls⟩ := sound.failed n e hstop
      exact Or.inr ⟨n, hn, e, calls, rfl, hpath, hcalls⟩

variable (serves) in
/-- The run cannot move forever. -/
def Settles (t : Turn g) : Prop := Acc (fun t' t : Turn g => Move serves t t') t

/-- A run that takes at most `bound` supersteps comes to rest. -/
theorem Reachable.settles {t₀ : Turn g} (bound : ℕ)
    (hbound : ∀ t, Reachable serves t₀ t → t.steps.length ≤ bound) {t : Turn g}
    (h : Reachable serves t₀ t) : t.Settles serves := by
  -- first the supersteps that are left, then the calls that are left in this one
  generalize hleft : bound - t.steps.length = left
  induction left using Nat.strongRecOn generalizing t with
  | _ left ihsteps =>
    generalize htasks : t.tasks = tasks
    have hacc := Task.answered_acc tasks
    induction hacc generalizing t with
    | intro tasks _ ihcalls =>
      constructor
      intro t' hmove
      have ht' : Reachable serves t₀ t' := h.next (.move hmove)
      cases hmove with
      | call _ hsplit hprog _ =>
        refine ihcalls _ ?_ ht' hleft rfl
        rw [← htasks, hsplit]
        exact .call _ hprog _ _
      | commit _ _ _ _ =>
        have hle := hbound _ ht'
        simp only [commit, List.length_append, List.length_singleton] at hle
        refine ihsteps _ ?_ ht' rfl
        simp only [commit, List.length_append, List.length_singleton]
        omega
      | fail _ _ _ => exact ⟨_, fun _ hmove => absurd hmove (not_move_of_no_tasks rfl)⟩

/-! ## Playing a run -/

/-- One move of a run, the first task first. -/
def advance (answer : N → Q → Except E A) (t : Turn g) : Turn g :=
  if t.stop.isSome || t.tasks.isEmpty then t
  else match Task.work answer t.tasks with
    | some (.inl tasks) => { t with tasks }
    | some (.inr (n, e)) => { t with tasks := [], stop := some (.failed n e) }
    | none => t.commit (Task.records t.tasks) (Task.records t.tasks)

def play (answer : N → Q → Except E A) : ℕ → Turn g → Turn g
  | 0, t => t
  | n + 1, t => play answer n (t.advance answer)

/-- A played run is a run. -/
theorem Reachable.advance {answer : N → Q → Except E A} (hserves : ∀ n q, serves n q (answer n q))
    {t₀ t : Turn g} (h : Reachable serves t₀ t) : Reachable serves t₀ (t.advance answer) := by
  unfold Turn.advance
  split
  · exact h
  · rename_i hlive
    simp only [Bool.or_eq_true, Option.isSome_iff_ne_none, List.isEmpty_iff, not_or, ne_eq,
      not_not] at hlive
    obtain ⟨hstop, htasks⟩ := hlive
    split
    · rename_i tasks hwork
      obtain ⟨before, task, after, q, k, hprog, hsplit, rfl⟩ := Task.work_move hwork
      exact h.next (.move (.call hstop hsplit hprog (hserves _ _)))
    · rename_i n e hwork
      obtain ⟨before, task, after, hsplit, rfl, hprog⟩ := Task.work_fail hwork
      exact h.next (.move (.fail hstop hsplit hprog))
    · rename_i hwork
      have hrecords := Task.work_none hwork
      refine h.next (.move (.commit hstop ?_ hrecords (.refl _)))
      intro hnil
      rw [hnil] at hrecords
      exact htasks hrecords

theorem Reachable.play {answer : N → Q → Except E A} (hserves : ∀ n q, serves n q (answer n q))
    (n : ℕ) {t₀ t : Turn g} (h : Reachable serves t₀ t) : Reachable serves t₀ (t.play answer n) := by
  induction n generalizing t with
  | zero => exact h
  | succ n ih => exact ih (h.advance hserves)

end Turn

end TechMart.LangGraph
