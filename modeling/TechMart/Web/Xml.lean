import TechMart.Python.Json

/-!
# XML

The part of XML 1.0 an answer document is written in: elements with attributes,
and character data with references. `characterData` is what a reader takes from
the text between two tags. Comments, CDATA sections, processing instructions and
a document type are left out, so that a `Document` is well formed, and a reader
of `elementText` gets nothing from an element that holds more than text.
-/

namespace TechMart.Web.Xml

open Python

/-- `Char`. -/
def isChar (c : Char) : Bool :=
  let n := c.toNat
  n == 0x9 || n == 0xA || n == 0xD || (0x20 ≤ n && n ≤ 0xD7FF) || (0xE000 ≤ n && n ≤ 0xFFFD) ||
  (0x10000 ≤ n && n ≤ 0x10FFFF)

/-! ## Character data -/

def numeral (base : Nat) (digit : Char → Option Nat) (digits : Str) : Option Nat :=
  if digits.isEmpty then none else digits.foldlM (fun n c => (digit c).map (base * n + ·)) 0

def codePoint (n : Nat) : Option Char :=
  if (Char.ofNat n).toNat = n ∧ isChar (Char.ofNat n) then some (Char.ofNat n) else none

def predefined : Dict Char :=
  [("lt", '<'), ("gt", '>'), ("amp", '&'), ("apos", '\''), ("quot", '"')]

/-- The character of a reference, by what stands between `&` and `;`. -/
def reference : Str → Option Char
  | '#' :: 'x' :: digits => (numeral 16 Json.hexDigit digits).bind codePoint
  | '#' :: digits => (numeral 10 asciiDigit digits).bind codePoint
  | name => predefined.get? name

/-- A line ends in one line feed, however it was written. -/
def lineEnds : Str → Str
  | '\r' :: '\n' :: s => '\n' :: lineEnds s
  | '\r' :: s => '\n' :: lineEnds s
  | c :: s => c :: lineEnds s
  | [] => []

/-- Characters and references; the first argument is the reference begun. -/
def readData : Option Str → Str → Option Str
  | none, [] => some []
  | some _, [] => none
  | none, c :: s =>
    if c = '&' then readData (some []) s
    else if c = '<' ∨ isChar c = false then none
    else (readData none s).map (c :: ·)
  | some name, c :: s =>
    if c = ';' then (reference name).bind fun d => (readData none s).map (d :: ·)
    else readData (some (name ++ [c])) s

/-- The text a reader makes of the character data between two tags. -/
def characterData (s : Str) : Option Str :=
  if contains s "]]>" then none else readData none (lineEnds s)

/-! ## Documents -/

def isNameStart (c : Char) : Bool := c.isAlpha || c == '_' || c == ':'

def isName : Str → Bool
  | [] => false
  | c :: s => isNameStart c && s.all fun c => isNameStart c || c.isDigit || c == '-' || c == '.'

def attributeOf (name value : Str) : Str := ' ' :: name ++ '=' :: '"' :: value ++ ['"']

def elementOf (name attributes content : Str) : Str :=
  '<' :: name ++ attributes ++ '>' :: content ++ '<' :: '/' :: name ++ ['>']

/-- The attributes of a start tag, with their names. -/
inductive Attributes : List Str → Str → Prop
  | nil : Attributes [] []
  | cons {name value rest : Str} {names : List Str} (hname : isName name = true)
      (hfresh : name ∉ names) (hquote : '"' ∉ value) (hdata : (readData none value).isSome)
      (hrest : Attributes names rest) : Attributes (name :: names) (attributeOf name value ++ rest)

mutual

inductive Element : Str → Prop
  | tags {name attributes content : Str} {names : List Str} (hname : isName name = true)
      (hattributes : Attributes names attributes) (hcontent : Content content) :
      Element (elementOf name attributes content)

inductive Content : Str → Prop
  | data {s : Str} (hdata : (characterData s).isSome) : Content s
  | element {data element rest : Str} (hdata : (characterData data).isSome)
      (helement : Element element) (hrest : Content rest) : Content (data ++ element ++ rest)

end

def declaration : Str := "<?xml version=\"1.0\" encoding=\"UTF-8\"?>"

/-- The declaration, white space and the root element. -/
def Document (doc : Str) : Prop :=
  ∃ space root, doc = declaration ++ space ++ root ∧ space.all Json.isWs = true ∧ Element root

/-- A tag without its `<`, and the text after it. The first `>` ends the tag. -/
def tagPiece (piece : Str) : Str × Str :=
  (piece.takeWhile (· ≠ '>'), (piece.dropWhile (· ≠ '>')).drop 1)

def tags (doc : Str) : List (Str × Str) := (doc.splitOn '<').tail.map tagPiece

def tagName (tag : Str) : Str := tag.takeWhile fun c => !Json.isWs c

/-- The text of the first element of a name. -/
def elementText (name : Str) : List (Str × Str) → Option Str
  | [] => none
  | (tag, data) :: rest =>
    if tagName tag = name then
      if (rest.map Prod.fst).head? = some ('/' :: name) then characterData data else none
    else elementText name rest

/-! ## Reading -/

/-- Text that stands for itself. -/
def Plain (s : Str) : Prop := ∀ c ∈ s, isChar c = true ∧ c ≠ '<' ∧ c ≠ '&'

theorem readData_append {begun : Option Str} {s text : Str} (h : readData begun s = some text)
    (rest : Str) : readData begun (s ++ rest) = (readData none rest).map (text ++ ·) := by
  fun_induction readData begun s generalizing text with
  | case1 =>
    obtain rfl := Option.some.inj h
    simp
  | case2 => cases h
  | case3 s ih =>
    rw [List.cons_append, readData, if_pos rfl]
    exact ih h
  | case4 => cases h
  | case5 c s hamp hchar ih =>
    obtain ⟨read, hread, rfl⟩ := Option.map_eq_some_iff.mp h
    rw [List.cons_append, readData, if_neg hamp, if_neg hchar, ih hread, Option.map_map]
    rfl
  | case6 name s ih =>
    obtain ⟨d, href, hmap⟩ := Option.bind_eq_some_iff.mp h
    obtain ⟨read, hread, rfl⟩ := Option.map_eq_some_iff.mp hmap
    rw [List.cons_append, readData, if_pos rfl, href, Option.bind_some, ih hread, Option.map_map]
    rfl
  | case7 name c s hend ih =>
    rw [List.cons_append, readData, if_neg hend]
    exact ih h

theorem readData_plain {s : Str} (h : Plain s) : readData none s = some s := by
  induction s with
  | nil => rfl
  | cons c s ih =>
    obtain ⟨hchar, hlt, hamp⟩ := h c List.mem_cons_self
    have hrest := ih fun d hd => h d (List.mem_cons_of_mem c hd)
    rw [readData, if_neg hamp, if_neg (by simp [hlt, hchar]), hrest]
    rfl

/-- A reference is longer than the character it stands for; all else stands for
itself. -/
theorem readData_length {begun : Option Str} {s text : Str} (h : readData begun s = some text) :
    (begun.isSome → text.length ≤ s.length) ∧
    (begun = none → text.length < s.length ∨ text = s ∧ Plain s) := by
  fun_induction readData begun s generalizing text with
  | case1 =>
    obtain rfl := Option.some.inj h
    exact ⟨fun _ => Nat.le_refl _, fun _ => Or.inr ⟨rfl, fun _ hc => absurd hc List.not_mem_nil⟩⟩
  | case2 => cases h
  | case3 s ih =>
    have hread := (ih h).1 rfl
    exact ⟨fun hbegun => absurd hbegun (by simp), fun _ => Or.inl (Nat.lt_succ_of_le hread)⟩
  | case4 => cases h
  | case5 c s hamp hchar ih =>
    obtain ⟨read, hread, rfl⟩ := Option.map_eq_some_iff.mp h
    refine ⟨fun hbegun => absurd hbegun (by simp), fun _ => ?_⟩
    rcases (ih hread).2 rfl with hshort | ⟨rfl, hplain⟩
    · exact Or.inl (Nat.succ_lt_succ hshort)
    · refine Or.inr ⟨rfl, ?_⟩
      intro d hd
      rcases List.mem_cons.mp hd with rfl | hd
      · rw [not_or, Bool.not_eq_false] at hchar
        exact ⟨hchar.2, hchar.1, hamp⟩
      · exact hplain d hd
  | case6 name s ih =>
    obtain ⟨d, href, hmap⟩ := Option.bind_eq_some_iff.mp h
    obtain ⟨read, hread, rfl⟩ := Option.map_eq_some_iff.mp hmap
    refine ⟨fun _ => Nat.succ_le_succ ?_, fun hbegun => by cases hbegun⟩
    rcases (ih hread).2 rfl with hshort | ⟨rfl, -⟩
    · exact Nat.le_of_lt hshort
    · exact Nat.le_refl _
  | case7 name c s hend ih =>
    have hread := (ih h).1 rfl
    exact ⟨fun _ => Nat.le_succ_of_le hread, fun hbegun => by cases hbegun⟩

theorem lineEnds_append {s : Str} (h : '\r' ∉ s) (rest : Str) :
    lineEnds (s ++ rest) = s ++ lineEnds rest := by
  induction s with
  | nil => rfl
  | cons c s ih =>
    rw [List.mem_cons, not_or] at h
    have hc : c ≠ '\r' := Ne.symm h.1
    rw [List.cons_append, lineEnds.eq_def]
    split
    · rename_i heq
      exact absurd (List.cons.inj heq).1 hc
    · rename_i heq
      exact absurd (List.cons.inj heq).1 hc
    · rename_i heq
      obtain ⟨rfl, rfl⟩ := List.cons.inj heq
      rw [ih h.2]
      rfl
    · rename_i heq
      cases heq

theorem length_lineEnds (s : Str) : (lineEnds s).length ≤ s.length := by
  fun_induction lineEnds s <;> simp only [List.length_cons, List.length_nil] <;> omega

theorem not_mem_lineEnds (s : Str) : '\r' ∉ lineEnds s := by
  fun_induction lineEnds s with
  | case1 s ih => simp [ih]
  | case2 s _ ih => simp [ih]
  | case3 c s _ hc ih =>
    rw [List.mem_cons, not_or]
    exact ⟨fun heq => hc heq.symm, ih⟩
  | case4 => exact List.not_mem_nil

theorem infix_of_infix_append {sub front back : Str} {c : Char} (hc : c ∉ sub)
    (h : sub <:+: front ++ c :: back) : sub <:+: front ∨ sub <:+: back := by
  have hbegin (front : Str) (h : sub <+: front ++ c :: back) : sub <+: front := by
    by_cases hle : sub.length ≤ front.length
    · exact List.prefix_of_prefix_length_le h (List.prefix_append _ _) hle
    · have hfront : front ++ [c] <+: front ++ c :: back := ⟨back, by simp⟩
      have hsub := List.prefix_of_prefix_length_le hfront h (by
        rw [List.length_append, List.length_singleton]
        omega)
      exact absurd (hsub.subset (by simp)) hc
  induction front with
  | nil =>
    rcases List.infix_cons_iff.mp h with hstart | hback
    · exact Or.inl (hbegin [] hstart).isInfix
    · exact Or.inr hback
  | cons d front ih =>
    rcases List.infix_cons_iff.mp h with hstart | hrest
    · exact Or.inl (hbegin (d :: front) hstart).isInfix
    · rcases ih hrest with hfront | hback
      · exact Or.inl (List.infix_cons_iff.mpr (Or.inr hfront))
      · exact Or.inr hback

theorem not_close_of_not_mem {s : Str} (h : '>' ∉ s) : ¬ ("]]>" : Str) <:+: s := by
  intro hclose
  exact h (hclose.subset (by decide +kernel))

/-- Text after a lead that holds no `>` and ends outside `]]>` is read as if it
stood alone. -/
theorem characterData_append {lead read : Str} {last : Char}
    (hread : readData none (lead ++ [last]) = some read) (hreturn : '\r' ∉ lead ++ [last])
    (hclose : '>' ∉ lead ++ [last]) (hlast : last ≠ ']') (s : Str) :
    characterData ((lead ++ [last]) ++ s) = (characterData s).map (read ++ ·) := by
  have hout : last ∉ ("]]>" : Str) := by
    have hgt : last ≠ '>' := fun heq => hclose (heq ▸ List.mem_append_right lead List.mem_cons_self)
    simp [hlast, hgt]
  have hcontains : contains ((lead ++ [last]) ++ s) "]]>" = contains s "]]>" := by
    rw [Bool.eq_iff_iff, contains_iff, contains_iff]
    constructor
    · intro h
      rw [List.append_assoc, List.singleton_append] at h
      rcases infix_of_infix_append hout h with hlead | hs
      · have hnone : '>' ∉ lead := fun hmem => hclose (List.mem_append_left _ hmem)
        exact absurd hlead (not_close_of_not_mem hnone)
      · exact hs
    · intro h
      exact h.trans (List.suffix_append _ _).isInfix
  rw [characterData, characterData, hcontains, lineEnds_append hreturn, readData_append hread]
  split <;> rfl

/-- Text that needs no escape is read as it stands. -/
theorem characterData_plain {s : Str} (h : Plain s) (hreturn : '\r' ∉ s)
    (hclose : ¬ ("]]>" : Str) <:+: s) : characterData s = some s := by
  have hends := lineEnds_append hreturn []
  rw [List.append_nil, lineEnds, List.append_nil] at hends
  rw [characterData, if_neg (mt contains_iff.mp hclose), hends]
  exact readData_plain h

/-- What is read of a text is shorter, unless only its line ends change. -/
theorem characterData_length {s text : Str} (h : characterData s = some text) :
    ¬ ("]]>" : Str) <:+: s ∧ (text.length < s.length ∨ text = lineEnds s ∧ Plain text) := by
  rw [characterData] at h
  split at h
  · cases h
  · rename_i hclose
    refine ⟨mt contains_iff.mpr hclose, ?_⟩
    rcases (readData_length h).2 rfl with hshort | ⟨rfl, hplain⟩
    · exact Or.inl (Nat.lt_of_lt_of_le hshort (length_lineEnds s))
    · exact Or.inr ⟨rfl, hplain⟩

/-! ## Tags -/

theorem tags_append (before rest : Str) :
    tags (before ++ '<' :: rest) = tags before ++ (rest.splitOn '<').map tagPiece := by
  rw [tags, List.splitOn_append_cons_self, List.tail_append_of_ne_nil (List.splitOn_ne_nil _ _),
    List.map_append]
  rfl

theorem tagPiece_append {tag : Str} (h : '>' ∉ tag) (data : Str) :
    tagPiece (tag ++ '>' :: data) = (tag, data) := by
  have htag : ∀ c ∈ tag, decide (c ≠ '>') = true := fun c hc =>
    decide_eq_true fun heq => h (heq ▸ hc)
  rw [tagPiece, List.takeWhile_append_of_pos htag, List.dropWhile_append_of_pos htag]
  simp

theorem elementText_append {name : Str} {front : List (Str × Str)}
    (h : ∀ tag ∈ front, tagName tag.1 ≠ name) (rest : List (Str × Str)) :
    elementText name (front ++ rest) = elementText name rest := by
  induction front with
  | nil => rfl
  | cons tag front ih =>
    rw [List.cons_append, elementText, if_neg (h tag List.mem_cons_self)]
    exact ih fun other hother => h other (List.mem_cons_of_mem tag hother)

/-- The element begun by a tag: its text is what stands before the next tag. -/
theorem elementText_tags {name before tag data : Str}
    (hbefore : ∀ tag ∈ tags before, tagName tag.1 ≠ name) (hname : tagName tag = name)
    (hopen : '<' ∉ tag) (hclose : '>' ∉ tag) (hdata : '<' ∉ data) (after : Str) :
    elementText name (tags (before ++ '<' :: (tag ++ '>' :: (data ++ '<' :: after)))) =
      if (((after.splitOn '<').map tagPiece).map Prod.fst).head? = some ('/' :: name) then
        characterData data
      else none := by
  have hpiece : '<' ∉ tag ++ '>' :: data := by simp [hopen, hdata]
  have hsplit : (tag ++ '>' :: (data ++ '<' :: after)).splitOn '<' =
      (tag ++ '>' :: data) :: after.splitOn '<' := by
    rw [← List.splitOn_append_cons_self_of_not_mem hpiece after, List.append_assoc,
      List.cons_append]
  rw [tags_append, elementText_append hbefore, hsplit, List.map_cons, tagPiece_append hclose,
    elementText, if_pos hname]

end TechMart.Web.Xml
