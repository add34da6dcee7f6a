import TechMart.Main.AnswerXml

/-!
# The transfer

The document that has the caller's leg dial a human agent. The agent's number
comes from the environment and is put into it as it is.
-/

namespace TechMart.Main

open Python Web

/-- `os.environ.get("TRANSFER_AGENT_NUMBER", ...)`. -/
def agentNumber (env : Option Str) : Str := env.getD "+911234567890"

def beforeDial : Str :=
  "<?xml version=\"1.0\" encoding=\"UTF-8\"?>\n<Response>\n    <Speak voice=\"WOMAN\" language=\"en-US\">Please hold while I transfer you to a human agent.</Speak>\n    "

def transferToHuman (env : Option Str) : Str :=
  beforeDial ++ "<Dial>" ++ agentNumber env ++ "</Dial>\n</Response>"

/-- What the telephony service dials. -/
def dialled (doc : Str) : Option Str := Xml.elementText "Dial" (Xml.tags doc)

/-- A number that stands for itself: all of it is characters of XML, and none of
it is markup. -/
structure Literal (number : Str) : Prop where
  plain : Xml.Plain number
  no_return : '\r' ∉ number
  no_close : ¬ ("]]>" : Str) <:+: number

theorem transferToHuman_eq (env : Option Str) :
    transferToHuman env = beforeDial ++ '<' ::
      (("Dial" : Str) ++ '>' :: (agentNumber env ++ '<' :: "/Dial>\n</Response>")) := by
  have hopen : ("<Dial>" : Str) = '<' :: ("Dial" ++ ['>']) := by decide
  have hassoc (before number after : Str) : before ++ ('<' :: ("Dial" ++ ['>'])) ++ number ++ after =
      before ++ '<' :: (("Dial" : Str) ++ '>' :: (number ++ after)) := by
    rw [List.append_assoc, List.append_assoc]
    rfl
  exact (congrArg (fun tag => beforeDial ++ tag ++ agentNumber env ++ "</Dial>\n</Response>")
    hopen).trans (hassoc ..)

/-- The text of the element, up to the next tag. -/
theorem dialled_eq {data : Str} (hdata : '<' ∉ data) (after : Str) :
    dialled (beforeDial ++ '<' :: (("Dial" : Str) ++ '>' :: (data ++ '<' :: after))) =
      if (((after.splitOn '<').map Xml.tagPiece).map Prod.fst).head? = some "/Dial" then
        Xml.characterData data
      else none :=
  Xml.elementText_tags (by decide +kernel) (by decide) (by decide) (by decide) hdata after

theorem characterData_self {number : Str} (h : Xml.characterData number = some number) :
    Literal number := by
  obtain ⟨hclose, hread⟩ := Xml.characterData_length h
  cases hread with
  | inl hshort => exact absurd hshort (Nat.lt_irrefl _)
  | inr hends =>
    refine ⟨hends.2, ?_, hclose⟩
    rw [hends.1]
    exact Xml.not_mem_lineEnds number

/-- **Whom a handoff calls.** The number that is dialled is the configured one if
and only if it has nothing in it that XML reads as something else. -/
theorem agent_dialled_iff (env : Option Str) :
    dialled (transferToHuman env) = some (agentNumber env) ↔ Literal (agentNumber env) := by
  rw [transferToHuman_eq]
  generalize agentNumber env = number
  by_cases hplain : '<' ∈ number
  · obtain ⟨data, rest, hsplit, hdata⟩ := List.eq_append_cons_of_mem hplain
    constructor
    · intro h
      rw [hsplit, List.append_assoc, List.cons_append, dialled_eq hdata] at h
      split at h
      · have hlong : data.length < (data ++ '<' :: rest).length := by
          rw [List.length_append, List.length_cons]
          omega
        obtain ⟨_, hread⟩ := Xml.characterData_length h
        cases hread with
        | inl hshort => omega
        | inr hends =>
          have hle := Xml.length_lineEnds data
          rw [← hends.1] at hle
          omega
      · cases h
    · intro h
      exact absurd rfl (h.plain '<' hplain).2.1
  · rw [dialled_eq hplain, if_pos (by decide)]
    constructor
    · exact characterData_self
    · intro h
      exact Xml.characterData_plain h.plain h.no_return h.no_close

end TechMart.Main
