import Mathlib.Data.List.Basic
import Mathlib.Data.List.Induction

/-!
# What becomes of a stream

A machine keeps back what comes in, and in the end passes it on or clears it.
-/

namespace TechMart.Signal

/-- Items that shared a fate: they were passed on, or cleared. -/
structure Stretch (α : Type) where
  passedOn : Bool
  items : List α

variable {α β : Type}

/-- What came is, in its order, in stretches and in what waits; those that were
passed on are what came out. `clean` is when none was cleared. -/
def Accounted (render : List α → Option β) (came waits : List α) (out : List β)
    (clean : Prop) : Prop :=
  ∃ stretches : List (Stretch α),
    came = stretches.flatMap Stretch.items ++ waits ∧
    out = (stretches.filter Stretch.passedOn).filterMap (fun stretch => render stretch.items) ∧
    ((∀ stretch ∈ stretches, stretch.passedOn = true) ↔ clean)

namespace Accounted

variable {render : List α → Option β} {came waits : List α} {out : List β} {clean clean' : Prop}

theorem start : Accounted render [] [] [] True := by
  refine ⟨[], rfl, rfl, iff_of_true ?_ trivial⟩
  intro stretch hstretch
  cases hstretch

theorem iff (h : Accounted render came waits out clean) (hiff : clean ↔ clean') :
    Accounted render came waits out clean' := by
  obtain ⟨stretches, hcame, hout, hclean⟩ := h
  exact ⟨stretches, hcame, hout, hclean.trans hiff⟩

theorem come (h : Accounted render came waits out clean) (new : List α) :
    Accounted render (came ++ new) (waits ++ new) out clean := by
  obtain ⟨stretches, hcame, hout, hclean⟩ := h
  refine ⟨stretches, ?_, hout, hclean⟩
  rw [hcame, List.append_assoc]

/-- A part of what waits is passed on. -/
theorem cut (h : Accounted render came waits out clean) (k : ℕ) :
    Accounted render came (waits.drop k) (out ++ (render (waits.take k)).toList) clean := by
  obtain ⟨stretches, hcame, hout, hclean⟩ := h
  refine ⟨stretches ++ [⟨true, waits.take k⟩], ?_, ?_, ?_⟩
  · rw [List.flatMap_append, List.flatMap_singleton, List.append_assoc, List.take_append_drop]
    exact hcame
  · rw [List.filter_append, List.filterMap_append, ← hout]
    cases hrender : render (waits.take k) <;> simp [hrender]
  · rw [List.forall_mem_append, hclean]
    simp

theorem pass (h : Accounted render came waits out clean) :
    Accounted render came [] (out ++ (render waits).toList) clean := by
  have hcut := h.cut waits.length
  rw [List.drop_length, List.take_length] at hcut
  exact hcut

theorem clear (h : Accounted render came waits out clean) :
    Accounted render came [] out (clean ∧ waits = []) := by
  obtain ⟨stretches, hcame, hout, hclean⟩ := h
  by_cases hempty : waits = []
  · refine ⟨stretches, ?_, hout, ?_⟩
    · rw [hcame, hempty]
    · rw [hclean]
      simp [hempty]
  · refine ⟨stretches ++ [⟨false, waits⟩], ?_, ?_, ?_⟩
    · rw [List.flatMap_append, List.flatMap_singleton, List.append_nil]
      exact hcame
    · rw [List.filter_append, List.filterMap_append, ← hout]
      exact (List.append_nil _).symm
    · rw [List.forall_mem_append]
      simp [hempty]

end Accounted

section Run
variable {σ ε : Type} {step : σ → ε → σ} {adds : ε → List α} {Clears : σ → ε → Prop}
  {render : List α → Option β}

/-- No step of the run clears anything. -/
def Clean (step : σ → ε → σ) (Clears : σ → ε → Prop) (fresh : σ) (events : List ε) : Prop :=
  ∀ before event after, events = before ++ event :: after → ¬ Clears (before.foldl step fresh) event

theorem clean_concat (fresh : σ) (events : List ε) (event : ε) :
    Clean step Clears fresh (events ++ [event]) ↔
      Clean step Clears fresh events ∧ ¬ Clears (events.foldl step fresh) event := by
  constructor
  · intro h
    refine ⟨?_, h events event [] rfl⟩
    rintro before event' after rfl
    exact h before event' (after ++ [event]) (by simp)
  · rintro ⟨hbefore, hlast⟩ before event' after hsplit
    cases after using List.reverseRecOn with
    | nil =>
      obtain ⟨rfl, hevent⟩ := List.append_inj' hsplit rfl
      cases hevent
      exact hlast
    | append_singleton after last =>
      rw [← List.cons_append, ← List.append_assoc] at hsplit
      obtain ⟨rfl, _⟩ := List.append_inj' hsplit rfl
      exact hbefore before event' after rfl

theorem clean_of_forall {fresh : σ} {events : List ε} (h : ∀ event ∈ events, ∀ s, ¬ Clears s event) :
    Clean step Clears fresh events := by
  rintro before event after rfl
  exact h event (by simp) _

/-- If every step accounts for what it adds, every run does. -/
theorem accounted_run (waits : σ → List α) (out : σ → List β)
    (hstep : ∀ s came clean event, Accounted render came (waits s) (out s) clean →
      Accounted render (came ++ adds event) (waits (step s event)) (out (step s event))
        (clean ∧ ¬ Clears s event))
    {fresh : σ} (hfresh : Accounted render [] (waits fresh) (out fresh) True) (events : List ε) :
    Accounted render (events.flatMap adds) (waits (events.foldl step fresh))
      (out (events.foldl step fresh)) (Clean step Clears fresh events) := by
  induction events using List.reverseRecOn with
  | nil =>
    apply hfresh.iff
    refine iff_of_true trivial ?_
    intro before event after hsplit
    simp at hsplit
  | append_singleton events event ih =>
    have hlast := hstep _ _ _ event ih
    rw [List.flatMap_append, List.flatMap_singleton, List.foldl_concat]
    exact hlast.iff (clean_concat fresh events event).symm

end Run

end TechMart.Signal
