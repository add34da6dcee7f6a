import TechMart.Admin.Router
import Mathlib.Data.Fintype.Option

/-!
# Thread-local clients

`get_client` and the threads that call it: the event loop, where the admin
routes run, and the workers of the default executor, where `asyncio.to_thread`
runs everything else. A client cannot execute two queries at once; no two
threads ever have the same one, and there are no more clients than threads.
-/

namespace TechMart.Db

open Python Admin

/-- The event loop, or one of the executor's `n` workers. -/
abbrev Thread (n : ℕ) := Option (Fin n)

/-- What a thread does. A job that runs keeps its client in a local variable;
while a statement is on its way the thread does nothing else. -/
inductive Activity where
  | idle
  | running (client : Option ℕ) (job : Handler Unit)
  | waiting (client : ℕ) (q : Stmt) (rest : Except Exn Sql.Table → Handler Unit)

/-- `client` is the attribute of `_thread_local`. -/
structure Process (n : ℕ) where
  queue : List (Handler Unit)
  activity : Thread n → Activity
  client : Thread n → Option ℕ
  made : ℕ

variable {n : ℕ}

namespace Process

def started (n : ℕ) : Process n := ⟨[], fun _ => .idle, fun _ => none, 0⟩

def does (p : Process n) (t : Thread n) (activity : Activity) : Process n :=
  { p with activity := Function.update p.activity t activity }

/-- What the process and its threads can do next. A caller that is cancelled
takes its job out of the queue; a job that has begun runs on. -/
inductive Step : Process n → Process n → Prop
  | submit (p : Process n) (job : Handler Unit) : Step p { p with queue := p.queue ++ [job] }
  | cancel (p : Process n) (before after : List (Handler Unit)) (job : Handler Unit) :
      p.queue = before ++ job :: after → Step p { p with queue := before ++ after }
  | take (p : Process n) (i : Fin n) (job : Handler Unit) (rest : List (Handler Unit)) :
      p.activity (some i) = .idle → p.queue = job :: rest →
      Step p ({ p with queue := rest }.does (some i) (.running none job))
  /-- a route that runs on the event loop -/
  | route (p : Process n) (job : Handler Unit) : p.activity none = .idle →
      Step p (p.does none (.running none job))
  /-- `get_client` on a thread that has a client -/
  | found (p : Process n) (t : Thread n) (c : Option ℕ) (id : ℕ)
      (k : Except Exn Sql.Table → Handler Unit) :
      p.activity t = .running c (.call .connect k) → p.client t = some id →
      Step p (p.does t (.running (some id) (k (.ok ⟨[], []⟩))))
  /-- on one that has none -/
  | create (p : Process n) (t : Thread n) (c : Option ℕ)
      (k : Except Exn Sql.Table → Handler Unit) :
      p.activity t = .running c (.call .connect k) → p.client t = none →
      Step p ({ p with
        client := Function.update p.client t (some p.made)
        made := p.made + 1 }.does t (.running (some p.made) (k (.ok ⟨[], []⟩))))
  /-- on one that has none, and the server cannot be reached -/
  | fail (p : Process n) (t : Thread n) (c : Option ℕ) (e : Exn)
      (k : Except Exn Sql.Table → Handler Unit) :
      p.activity t = .running c (.call .connect k) → p.client t = none →
      Step p (p.does t (.running c (k (.error e))))
  | send (p : Process n) (t : Thread n) (id : ℕ) (q : Stmt)
      (k : Except Exn Sql.Table → Handler Unit) :
      p.activity t = .running (some id) (.call q k) → q ≠ .connect →
      Step p (p.does t (.waiting id q k))
  | answer (p : Process n) (t : Thread n) (id : ℕ) (q : Stmt)
      (k : Except Exn Sql.Table → Handler Unit) (ans : Except Exn Sql.Table) :
      p.activity t = .waiting id q k → Step p (p.does t (.running (some id) (k ans)))
  | done (p : Process n) (t : Thread n) (c : Option ℕ) :
      p.activity t = .running c (.done ()) → Step p (p.does t .idle)
  | raise (p : Process n) (t : Thread n) (c : Option ℕ) (e : Exn) :
      p.activity t = .running c (.raise e) → Step p (p.does t .idle)

inductive Reachable : Process n → Prop
  | start : Reachable (started n)
  | next {p p' : Process n} : Reachable p → Step p p' → Reachable p'

end Process

/-- The client a job has in hand. -/
def Activity.client : Activity → Option ℕ
  | .idle => none
  | .running c _ => c
  | .waiting id _ _ => some id

namespace Process

/-- A thread's clients are its own: what its job has in hand is the thread's,
two threads have different ones, and every client ever made is some thread's. -/
structure Owned (p : Process n) : Prop where
  inHand : ∀ t id, (p.activity t).client = some id → p.client t = some id
  distinct : ∀ t u id, p.client t = some id → p.client u = some id → t = u
  known : ∀ t id, p.client t = some id → id < p.made
  held : ∀ id < p.made, ∃ t, p.client t = some id

variable {p p' : Process n}

theorem owned_started : (started n).Owned where
  inHand := by
    intro t id h
    cases h
  distinct := by
    intro t u id h
    cases h
  known := by
    intro t id h
    cases h
  held := by
    intro id h
    cases h

/-- A thread goes on with a client that is its own. -/
theorem Owned.does (h : p.Owned) (t : Thread n) {activity : Activity}
    (hown : ∀ id, activity.client = some id → p.client t = some id) : (p.does t activity).Owned where
  inHand := by
    intro u id hu
    have hactivity : (Function.update p.activity t activity u).client = some id := hu
    by_cases hut : u = t
    · subst hut
      rw [Function.update_self] at hactivity
      exact hown id hactivity
    · rw [Function.update_of_ne hut] at hactivity
      exact h.inHand u id hactivity
  distinct := h.distinct
  known := h.known
  held := h.held

theorem Owned.queue (h : p.Owned) (queue : List (Handler Unit)) : { p with queue := queue }.Owned :=
  ⟨h.inHand, h.distinct, h.known, h.held⟩

/-- A new client is nobody else's. -/
theorem Owned.create (h : p.Owned) {t : Thread n} (hnone : p.client t = none) :
    { p with client := Function.update p.client t (some p.made), made := p.made + 1 }.Owned where
  inHand := by
    intro u id hu
    have hclient := h.inHand u id hu
    have hut : u ≠ t := by
      rintro rfl
      rw [hnone] at hclient
      cases hclient
    show Function.update p.client t (some p.made) u = some id
    rw [Function.update_of_ne hut]
    exact hclient
  distinct := by
    intro u v id hu hv
    simp only [Function.update_apply] at hu hv
    split at hu
    · split at hv
      · simp [*]
      · cases hu
        exact absurd (h.known v p.made hv) (Nat.lt_irrefl _)
    · split at hv
      · cases hv
        exact absurd (h.known u p.made hu) (Nat.lt_irrefl _)
      · exact h.distinct u v id hu hv
  known := by
    intro u id hu
    simp only [Function.update_apply] at hu
    split at hu
    · cases hu
      exact Nat.lt_succ_self _
    · exact Nat.lt_succ_of_lt (h.known u id hu)
  held := by
    intro id hid
    by_cases hnew : id = p.made
    · exact ⟨t, by simp [hnew]⟩
    · obtain ⟨u, hu⟩ := h.held id (Nat.lt_of_le_of_ne (Nat.le_of_lt_succ hid) hnew)
      have hut : u ≠ t := by
        rintro rfl
        rw [hnone] at hu
        cases hu
      exact ⟨u, by simp [hut, hu]⟩

theorem owned_step (h : p.Owned) (hstep : Step p p') : p'.Owned := by
  cases hstep with
  | submit job => exact h.queue _
  | cancel before after job hqueue => exact h.queue _
  | take i job rest hidle hqueue =>
    apply (h.queue rest).does
    intro id hid
    cases hid
  | route job hidle =>
    apply h.does
    intro id hid
    cases hid
  | found t c id k hrun hclient =>
    apply h.does
    intro id' hid
    cases hid
    exact hclient
  | create t c k hrun hclient =>
    apply (h.create hclient).does
    intro id hid
    cases hid
    exact Function.update_self ..
  | fail t c e k hrun hclient =>
    apply h.does
    intro id hid
    apply h.inHand t id
    rw [hrun]
    exact hid
  | send t id q k hrun hq =>
    apply h.does
    intro id' hid
    apply h.inHand t id'
    rw [hrun]
    exact hid
  | answer t id q k ans hwait =>
    apply h.does
    intro id' hid
    apply h.inHand t id'
    rw [hwait]
    exact hid
  | done t c hrun =>
    apply h.does
    intro id hid
    cases hid
  | raise t c e hrun =>
    apply h.does
    intro id hid
    cases hid

theorem owned (h : Reachable p) : p.Owned := by
  induction h with
  | start => exact owned_started
  | next _ hstep ih => exact owned_step ih hstep

/-- There are no more clients than threads. -/
theorem Owned.made_le (h : p.Owned) : p.made ≤ n + 1 := by
  choose thread hthread using h.held
  have hinj : Function.Injective fun id : Fin p.made => thread id id.isLt := by
    intro a b hab
    have hsame : thread a a.isLt = thread b b.isLt := hab
    have ha := hthread a a.isLt
    rw [hsame, hthread b b.isLt] at ha
    exact Fin.ext (Option.some.inj ha).symm
  have hcard := Fintype.card_le_of_injective _ hinj
  rwa [Fintype.card_fin, Fintype.card_option, Fintype.card_fin] at hcard

/-- The thread has sent a statement through the client and has no answer yet. -/
def Executing (p : Process n) (t : Thread n) (id : ℕ) : Prop :=
  ∃ q k, p.activity t = .waiting id q k

/-- **One query at a time.** Whatever is submitted, cancelled and run, and in
whatever order the threads go on, no client executes the statements of two
threads at once, and the process never holds more clients than it has threads. -/
theorem one_query_at_a_time (h : Reachable p) :
    (∀ id t u, p.Executing t id → p.Executing u id → t = u) ∧ p.made ≤ n + 1 := by
  have howned := owned h
  refine ⟨fun id t u ht hu => ?_, howned.made_le⟩
  obtain ⟨q, k, ht⟩ := ht
  obtain ⟨q', k', hu⟩ := hu
  have hclientt := howned.inHand t id (by rw [ht]; rfl)
  have hclientu := howned.inHand u id (by rw [hu]; rfl)
  exact howned.distinct t u id hclientt hclientu

/-- The event loop and a worker, each with a query under way. -/
theorem one_query_at_a_time_two : ∃ p : Process 1,
    (p.Executing none 0 ∧ p.Executing (some 0) 1) ∧
      (∀ id t u, p.Executing t id → p.Executing u id → t = u) ∧ p.made ≤ 2 := by
  let job : Handler Unit := .call .connect fun _ => .call (.selectAll []) fun _ => .done ()
  have hloop := ((Reachable.start (n := 1)).next (.route _ job rfl)).next
    (.create _ none none _ rfl rfl)
  have hsent := hloop.next (.send _ none 0 _ _ rfl (by simp))
  have htaken := (hsent.next (.submit _ job)).next (.take _ 0 job [] rfl rfl)
  have hclient := htaken.next (.create _ (some 0) none _ rfl rfl)
  have hboth := hclient.next (.send _ (some 0) 1 _ _ rfl (by simp))
  exact ⟨_, ⟨⟨_, _, rfl⟩, ⟨_, _, rfl⟩⟩, one_query_at_a_time hboth⟩

end Process

end TechMart.Db
