import Mathlib.Data.List.Basic

/-!
# Pipelines

Processors in a row, and the frames on their way between them. A frame that is
pushed in a direction visits the neighbours in that direction, one after the
other, until a processor keeps it, an interruption drops it or it leaves the
row; frames overtake each other freely.
-/

namespace TechMart.Pipecat

inductive FrameDirection where
  | downstream
  | upstream
  deriving DecidableEq

/-- A frame in the queue of the processor at a position. -/
structure Hop (F : Type) where
  frame : F
  position : ℕ
  direction : FrameDirection

/-- Processors that share a state `S`: what each does with a frame and pushes
then, and what frames they queue of their own accord. -/
structure Pipeline (S F : Type) where
  length : ℕ
  processFrame : ℕ → F → FrameDirection → S → S × List (F × FrameDirection)
  acts : S → S → List (Hop F) → Prop

/-- The processors' state, the frames under way and those that have left. -/
structure Line (S F : Type) where
  state : S
  hops : List (Hop F)
  left : List F

variable {S F : Type}

/-- The neighbour in a direction. -/
def neighbour (length position : ℕ) : FrameDirection → Option ℕ
  | .downstream => if position + 1 < length then some (position + 1) else none
  | .upstream => if position = 0 then none else some (position - 1)

/-- The hop of a frame that is pushed, if there is a neighbour. -/
def Hop.pushed (length position : ℕ) (out : F × FrameDirection) : Option (Hop F) :=
  (neighbour length position out.2).map fun next => ⟨out.1, next, out.2⟩

namespace Line

/-- A processor pushes one frame. -/
def push (length position : ℕ) (line : Line S F) (out : F × FrameDirection) : Line S F :=
  match Hop.pushed length position out with
  | some hop => { line with hops := line.hops ++ [hop] }
  | none => { line with left := line.left ++ [out.1] }

def pushAll (length position : ℕ) (line : Line S F) (outs : List (F × FrameDirection)) : Line S F :=
  outs.foldl (push length position) line

end Line

variable (pipeline : Pipeline S F)

/-- The processor at a hop takes its frame. -/
def Pipeline.visit (line : Line S F) (before : List (Hop F)) (hop : Hop F) (after : List (Hop F)) :
    Line S F :=
  let result := pipeline.processFrame hop.position hop.frame hop.direction line.state
  Line.pushAll pipeline.length hop.position ⟨result.1, before ++ after, line.left⟩ result.2

inductive Move : Line S F → Line S F → Prop
  | visit {line : Line S F} {before after : List (Hop F)} {hop : Hop F} :
      line.hops = before ++ hop :: after → Move line (pipeline.visit line before hop after)
  | drop {line : Line S F} {before after : List (Hop F)} {hop : Hop F} :
      line.hops = before ++ hop :: after → Move line { line with hops := before ++ after }
  | act {line : Line S F} {state : S} {hops : List (Hop F)} : pipeline.acts line.state state hops →
      Move line { line with state := state, hops := line.hops ++ hops }

inductive Reachable (state : S) : Line S F → Prop
  | start : Reachable state ⟨state, [], []⟩
  | move {line line' : Line S F} : Reachable state line → Move pipeline line line' →
      Reachable state line'

variable {pipeline}

/-- What every step keeps holds in every run. -/
theorem Reachable.invariant {state : S} {Inv : Line S F → Prop} (start : Inv ⟨state, [], []⟩)
    (step : ∀ line line', Inv line → Move pipeline line line' → Inv line') {line : Line S F}
    (h : Reachable pipeline state line) : Inv line := by
  induction h with
  | start => exact start
  | move _ hmove ih => exact step _ _ ih hmove

/-- The first frame under way is taken, so many times. -/
def Pipeline.run (pipeline : Pipeline S F) : ℕ → Line S F → Line S F
  | 0, line => line
  | n + 1, ⟨state, hop :: hops, left⟩ =>
    pipeline.run n (pipeline.visit ⟨state, hop :: hops, left⟩ [] hop hops)
  | _ + 1, line => line

theorem Reachable.run {state : S} (n : ℕ) {line : Line S F} (h : Reachable pipeline state line) :
    Reachable pipeline state (pipeline.run n line) := by
  induction n generalizing line with
  | zero => exact h
  | succ n ih =>
    obtain ⟨now, hops, left⟩ := line
    cases hops with
    | nil => exact h
    | cons hop hops => exact ih (h.move (.visit (List.nil_append _).symm))

/-! ## Pushes -/

theorem pushed_eq_some {length position : ℕ} {out : F × FrameDirection} {hop : Hop F} :
    Hop.pushed length position out = some hop ↔
      neighbour length position hop.direction = some hop.position ∧
        (hop.frame, hop.direction) = out := by
  obtain ⟨frame, direction⟩ := out
  simp only [Hop.pushed, Option.map_eq_some_iff]
  constructor
  · rintro ⟨next, hnext, rfl⟩
    exact ⟨hnext, rfl⟩
  · rintro ⟨hnext, hout⟩
    cases hout
    exact ⟨hop.position, hnext, rfl⟩

theorem mem_hops_push {length position : ℕ} {line : Line S F} {out : F × FrameDirection}
    {hop : Hop F} (h : hop ∈ (line.push length position out).hops) :
    hop ∈ line.hops ∨ Hop.pushed length position out = some hop := by
  unfold Line.push at h
  split at h
  · rename_i next hnext
    rcases List.mem_append.mp h with h | h
    · exact Or.inl h
    · rw [List.mem_singleton.mp h]
      exact Or.inr hnext
  · exact Or.inl h

theorem state_push (length position : ℕ) (line : Line S F) (out : F × FrameDirection) :
    (line.push length position out).state = line.state := by
  unfold Line.push
  split <;> rfl

@[simp]
theorem state_pushAll (length position : ℕ) (line : Line S F) (outs : List (F × FrameDirection)) :
    (line.pushAll length position outs).state = line.state := by
  induction outs generalizing line with
  | nil => rfl
  | cons out outs ih => exact (ih _).trans (state_push length position line out)

theorem mem_hops_pushAll {length position : ℕ} {line : Line S F} {outs : List (F × FrameDirection)}
    {hop : Hop F} (h : hop ∈ (line.pushAll length position outs).hops) :
    hop ∈ line.hops ∨ ∃ out ∈ outs, Hop.pushed length position out = some hop := by
  induction outs generalizing line with
  | nil => exact Or.inl h
  | cons out outs ih =>
    rcases ih h with h | ⟨other, hother, hpushed⟩
    · rcases mem_hops_push h with h | hpushed
      · exact Or.inl h
      · exact Or.inr ⟨out, List.mem_cons_self, hpushed⟩
    · exact Or.inr ⟨other, List.mem_cons_of_mem _ hother, hpushed⟩

/-! ## Ways through the pipeline -/

/-- The frame is on its way from a processor, or in the queue of that one
itself. -/
def Hop.Outbound (origin : ℕ) (hop : Hop F) : Prop :=
  match hop.direction with
  | .downstream => origin ≤ hop.position
  | .upstream => hop.position < origin

/-- A frame that is pushed by its origin is on its way from it. -/
theorem outbound_pushed {origin length : ℕ} {out : F × FrameDirection} {hop : Hop F}
    (h : Hop.pushed length origin out = some hop) : hop.Outbound origin := by
  obtain ⟨hnext, -⟩ := pushed_eq_some.mp h
  unfold Hop.Outbound
  cases hd : hop.direction <;> simp only [hd, neighbour] at hnext ⊢ <;> split at hnext
  · have hposition := Option.some.inj hnext
    omega
  · cases hnext
  · cases hnext
  · have hposition := Option.some.inj hnext
    omega

/-- No frame turns round: passed on, it is still on its way from its origin. -/
theorem Hop.Outbound.pushed {origin length : ℕ} {hop hop' : Hop F} (h : hop.Outbound origin)
    (hpushed : Hop.pushed length hop.position (hop.frame, hop.direction) = some hop') :
    hop'.Outbound origin := by
  obtain ⟨hnext, hout⟩ := pushed_eq_some.mp hpushed
  have hdirection : hop'.direction = hop.direction := congrArg Prod.snd hout
  unfold Hop.Outbound at h ⊢
  rw [hdirection] at hnext ⊢
  cases hd : hop.direction <;> simp only [hd, neighbour] at h hnext ⊢ <;> split at hnext
  · have hposition := Option.some.inj hnext
    omega
  · cases hnext
  · cases hnext
  · have hposition := Option.some.inj hnext
    omega

end TechMart.Pipecat
