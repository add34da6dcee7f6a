import TechMart.Admin.Store

/-!
# A save as a state machine

`save_data` read as a machine with one state for each statement it can stop
at. `prog_call` says the handler is this machine, so that every invariant of
interleaved saves is a case analysis on phases.
-/

namespace TechMart.Admin

open Python Sql

/-- Where a save stands: the statement it sends next, or how it ended. -/
inductive Phase where
  | connecting
  | lookingUp (t : AdminTable)
  | truncating (t : AdminTable)
  | creating (t : AdminTable) (rows : List (Dict Value))
  | filling (t : AdminTable) (rows : List (Dict Value))
  | swapping (t : AdminTable) (rows : List (Dict Value))
  | dropping (t : AdminTable)
  | returned
  | raised (e : Exn)

namespace Phase

def stmt : Phase → Option Stmt
  | connecting => some .connect
  | lookingUp t => some (.selectColumn t.idCol t.name)
  | truncating t => some (.truncate t.name)
  | creating t _ => some (.createAs t.tempName t.name)
  | filling t rows => some (.insert t.tempName (insertData rows) (insertColumns rows))
  | swapping t _ => some (.exchange t.name t.tempName)
  | dropping t => some (.drop t.tempName)
  | returned | raised _ => none

section
variable (rt : Runtime) (encode : Value → Except Exn Value) (data : SaveData)

/-- The phase after the ids in the table are known. -/
def afterLookup (t : AdminTable) (idResult : Table) : Phase :=
  match prepareRows rt encode t (currentMax rt idResult) data.rows with
  | .error e => raised e
  | .ok [] => truncating t
  | .ok rows => creating t rows

/-- The phase after the statement was answered. -/
def next : Phase → Table → Phase
  | connecting, _ => match AdminTable.ofName? data.table with
    | none => raised ⟨"Invalid table"⟩
    | some t => lookingUp t
  | lookingUp t, idResult => afterLookup rt encode data t idResult
  | truncating _, _ => returned
  | creating t rows, _ => filling t rows
  | filling t rows, _ => swapping t rows
  | swapping t _, _ => dropping t
  | dropping _, _ => returned
  | returned, _ => returned
  | raised e, _ => raised e

/-- No handler of `save_data` catches what a statement raises. -/
def after (ph : Phase) : Except Exn Table → Phase
  | .ok a => ph.next rt encode data a
  | .error e => raised e

/-- `DROP TABLE`, the last statement of the swap. -/
def dropRest (t : AdminTable) : Handler Unit :=
  .call (.drop t.tempName) (Prog.andThen fun _ => .done ())

def swapRest (t : AdminTable) : Handler Unit :=
  .call (.exchange t.name t.tempName) (Prog.andThen fun _ => dropRest t)

def fillRest (t : AdminTable) (rows : List (Dict Value)) : Handler Unit :=
  .call (.insert t.tempName (insertData rows) (insertColumns rows))
    (Prog.andThen fun _ => swapRest t)

/-- The rest of the handler in each phase. -/
def prog : Phase → Handler Unit
  | connecting => saveData rt encode data
  | lookingUp t => .call (.selectColumn t.idCol t.name)
      (Prog.andThen fun idResult => writeRows rt encode t data.rows idResult)
  | truncating t => .call (.truncate t.name) (Prog.andThen fun _ => .done ())
  | creating t rows => replaceTable t rows
  | filling t rows => fillRest t rows
  | swapping t _ => swapRest t
  | dropping t => dropRest t
  | returned => .done ()
  | raised e => .raise e

theorem prog_afterLookup (t : AdminTable) (idResult : Table) :
    (afterLookup rt encode data t idResult).prog rt encode data =
      writeRows rt encode t data.rows idResult := by
  unfold afterLookup writeRows
  cases prepareRows rt encode t (currentMax rt idResult) data.rows with
  | error e => rfl
  | ok rows =>
    cases rows with
    | nil => simp only [prog, Prog.perform_bind, Prog.pure_eq]
    | cons r rows => rfl

theorem prog_creating (t : AdminTable) (rows : List (Dict Value)) :
    (creating t rows).prog rt encode data = .call (.createAs t.tempName t.name)
      (Prog.andThen fun _ => (filling t rows).prog rt encode data) := by
  simp only [prog, replaceTable, Prog.perform_bind, Prog.pure_eq, fillRest, swapRest, dropRest]

theorem prog_connecting :
    connecting.prog rt encode data = .call .connect
      (Prog.andThen fun a => (connecting.next rt encode data a).prog rt encode data) := by
  have hrest : ∀ a, (connecting.next rt encode data a).prog rt encode data =
      match AdminTable.ofName? data.table with
      | none => .raise ⟨"Invalid table"⟩
      | some t => .call (.selectColumn t.idCol t.name) (Prog.andThen (writeRows rt encode t data.rows)) := by
    intro a
    simp only [next]
    cases AdminTable.ofName? data.table <;> rfl
  simp only [hrest]
  cases hname : AdminTable.ofName? data.table <;>
    simp only [prog, saveData, Prog.perform_bind, hname]

/-- The handler in a phase sends that phase's statement and goes on as the
phase after the answer. -/
theorem prog_eq (ph : Phase) {q : Stmt} (h : ph.stmt = some q) :
    ph.prog rt encode data = .call q fun ans => (ph.after rt encode data ans).prog rt encode data := by
  have key : ∀ f : Table → Handler Unit,
      (∀ a, f a = (ph.next rt encode data a).prog rt encode data) →
      (Prog.call q (Prog.andThen f) : Handler Unit) =
        .call q fun ans => (ph.after rt encode data ans).prog rt encode data := by
    intro f hf
    congr 1
    funext ans
    cases ans with
    | ok a => exact hf a
    | error e => rfl
  cases ph <;> cases h
  case connecting => rw [prog_connecting]; exact key _ fun _ => rfl
  case lookingUp t => exact key _ fun a => (prog_afterLookup rt encode data t a).symm
  case creating t rows => rw [prog_creating]; exact key _ fun _ => rfl
  case truncating | filling | swapping | dropping => exact key _ fun _ => rfl

theorem prog_call (ph : Phase) {q : Stmt} {k : Except Exn Table → Handler Unit}
    (h : ph.prog rt encode data = .call q k) :
    ph.stmt = some q ∧ ∀ ans, k ans = (ph.after rt encode data ans).prog rt encode data := by
  cases hs : ph.stmt with
  | none => cases ph <;> simp [stmt, prog] at hs h
  | some q' =>
    rw [prog_eq rt encode data ph hs] at h
    cases h
    exact ⟨rfl, fun _ => rfl⟩

end

end Phase

end TechMart.Admin
