import TechMart.Graph.Containment

/-!
# Truncation

One rule says how much of its rows a context shows. Every builder keeps to it
but the last resort of the catalog search, which shows its rows in full;
`truncated_alike_iff` says when that makes a difference.
-/

namespace TechMart.Graph

open Python Sql

/-! ## The rule -/

/-- Rows with a newline after each. -/
def lines (rows : List Str) : Str := rows.flatMap fun r => r ++ "\n"

/-- Each row fits the limit behind the ones before it. -/
def Fits (rows : List Str) : Prop :=
  ∀ before r after, rows = before ++ r :: after → (lines before).length + r.length ≤ 2000

/-- The longest beginning of the rows that fits, and the rest. -/
structure CutOff (rows kept rest : List Str) : Prop where
  split : rows = kept ++ rest
  fits : Fits kept
  longest : ∀ r after, rest = r :: after → ¬ Fits (kept ++ [r])

def shown (kept rest : List Str) : Str :=
  lines kept ++ if rest.isEmpty then [] else truncationMarker

/-- The text shows the longest beginning that fits, and the marker if that is
not all. -/
def Truncated (rows : List Str) (text : Str) : Prop :=
  ∃ kept rest, CutOff rows kept rest ∧ text = strip (shown kept rest)

@[simp]
theorem lines_append (rows rows' : List Str) : lines (rows ++ rows') = lines rows ++ lines rows' :=
  List.flatMap_append

@[simp]
theorem lines_singleton (r : Str) : lines [r] = r ++ "\n" := by
  rw [lines, List.flatMap_singleton]

theorem fits_nil : Fits [] := by
  intro before r after h
  simp at h

theorem fits_concat {rows : List Str} {r : Str} :
    Fits (rows ++ [r]) ↔ Fits rows ∧ (lines rows).length + r.length ≤ 2000 := by
  constructor
  · intro h
    refine ⟨?_, h rows r [] rfl⟩
    rintro before r' after rfl
    exact h before r' (after ++ [r]) (by simp)
  · rintro ⟨hrows, hr⟩ before r' after heq
    rcases List.eq_nil_or_concat after with rfl | ⟨after, last, rfl⟩
    · obtain ⟨rfl, hlast⟩ := List.append_inj' heq rfl
      rw [← (List.cons.inj hlast).1]
      exact hr
    · rw [List.concat_eq_append] at heq
      have hfront : rows ++ [r] = (before ++ r' :: after) ++ [last] := by simp [heq]
      obtain ⟨rfl, -⟩ := List.append_inj' hfront rfl
      exact hrows before r' after rfl

theorem Fits.of_start {rows rows' : List Str} (h : Fits rows') (hstart : rows <+: rows') :
    Fits rows := by
  obtain ⟨rest, rfl⟩ := hstart
  rintro before r after rfl
  exact h before r (after ++ rest) (by simp)

theorem Fits.length_lines {rows : List Str} (h : Fits rows) : (lines rows).length ≤ 2001 := by
  rcases List.eq_nil_or_concat rows with rfl | ⟨rows, r, rfl⟩
  · exact Nat.zero_le _
  · rw [List.concat_eq_append] at h ⊢
    have hr := (fits_concat.mp h).2
    have hnewline : ("\n" : Str).length = 1 := rfl
    rw [lines_append, lines_singleton, List.length_append, List.length_append, hnewline]
    omega

theorem CutOff.unique {rows kept rest kept' rest' : List Str} (h : CutOff rows kept rest)
    (h' : CutOff rows kept' rest') : kept = kept' ∧ rest = rest' := by
  have hle {k k' l l' : List Str} (h : CutOff rows k l) (h' : CutOff rows k' l') :
      k'.length ≤ k.length := by
    by_contra hlt
    have hk : k <+: rows := ⟨l, h.split.symm⟩
    have hk' : k' <+: rows := ⟨l', h'.split.symm⟩
    have hstart : k <+: k' := List.prefix_of_prefix_length_le hk hk' (by omega)
    obtain ⟨more, rfl⟩ := hstart
    cases more with
    | nil => simp at hlt
    | cons r more =>
      have hl : l = r :: (more ++ l') := by
        have := h.split.symm.trans h'.split
        simpa using this
      exact h.longest r _ hl (h'.fits.of_start ⟨more, by simp⟩)
  have hlength : kept.length = kept'.length := Nat.le_antisymm (hle h' h) (hle h h')
  exact List.append_inj (h.split.symm.trans h'.split) hlength

/-! ## The loop -/

/-- The loop keeps to the rule, from any beginning that fits. -/
theorem appendRows_cutOff (rest : List Str) : ∀ kept, Fits kept → ∃ more left,
    CutOff (kept ++ rest) (kept ++ more) left ∧
      appendRows (lines kept) rest = shown (kept ++ more) left := by
  induction rest with
  | nil =>
    intro kept hfits
    refine ⟨[], [], ⟨by simp, by simpa using hfits, ?_⟩, ?_⟩
    · intro r after h
      cases h
    · simp [appendRows, shown]
  | cons r rest ih =>
    intro kept hfits
    by_cases hr : (lines kept).length + r.length > 2000
    · refine ⟨[], r :: rest, ⟨by simp, by simpa using hfits, ?_⟩, ?_⟩
      · intro r' after h
        cases h
        rw [List.append_nil, fits_concat]
        omega
      · rw [appendRows, if_pos hr, List.append_nil]
        rfl
    · have hnext : Fits (kept ++ [r]) := fits_concat.mpr ⟨hfits, by omega⟩
      obtain ⟨more, left, hcut, hshown⟩ := ih (kept ++ [r]) hnext
      refine ⟨r :: more, left, ?_, ?_⟩
      · simpa using hcut
      · rw [appendRows, if_neg hr, List.append_cons, ← hshown, lines_append, lines_singleton,
          List.append_assoc]

theorem truncated_renderRows (rows : List Str) : Truncated rows (renderRows rows) := by
  obtain ⟨more, left, hcut, hshown⟩ := appendRows_cutOff rows [] fits_nil
  exact ⟨more, left, hcut, congrArg strip hshown⟩

theorem truncated_iff {rows : List Str} {text : Str} :
    Truncated rows text ↔ text = renderRows rows := by
  constructor
  · rintro ⟨kept, rest, hcut, rfl⟩
    obtain ⟨kept', rest', hcut', hrender⟩ := truncated_renderRows rows
    obtain ⟨rfl, rfl⟩ := hcut.unique hcut'
    exact hrender.symm
  · rintro rfl
    exact truncated_renderRows rows

/-- What is truncated never exceeds the limit by more than a newline and the
marker. -/
theorem Truncated.length_le {rows : List Str} {text : Str} (h : Truncated rows text) :
    text.length ≤ 2001 + truncationMarker.length := by
  obtain ⟨kept, rest, hcut, rfl⟩ := h
  have hkept := hcut.fits.length_lines
  have hstrip := (strip_within (shown kept rest)).length_le
  have hshown : (shown kept rest).length ≤ (lines kept).length + truncationMarker.length := by
    rw [shown, List.length_append]
    split
    · exact Nat.add_le_add_left (Nat.zero_le _) _
    · exact Nat.le_refl _
  omega

/-! ## Rows in full -/

theorem lines_cons_of_head {r : Str} {c : Char} (h : r.head? = some c) (rows : List Str) :
    ∃ t, lines (r :: rows) = c :: t := by
  obtain ⟨t, rfl⟩ := List.head?_eq_some_iff.mp h
  exact ⟨t ++ ("\n" ++ lines rows), by simp [lines]⟩

theorem truncationMarker_ends :
    truncationMarker = '\n' :: truncationMarker.tail.dropLast ++ [']'] := by
  decide

/-- Product lines over the limit are not shown in full by the rule. -/
theorem not_truncated_lines {rows : List Str} (hhead : ∀ r ∈ rows, r.head? = some 'P')
    (h : ¬ Fits rows) : ¬ Truncated rows (strip (lines rows)) := by
  rintro ⟨kept, rest, hcut, heq⟩
  have hsplit := hcut.split
  cases rest with
  | nil =>
    rw [List.append_nil] at hsplit
    exact h (hsplit ▸ hcut.fits)
  | cons r rest =>
    have hr : r ∈ rows := by
      rw [hsplit]
      exact List.mem_append_right kept List.mem_cons_self
    obtain ⟨t, ht⟩ := lines_cons_of_head (hhead r hr) rest
    rw [hsplit, lines_append, ht, shown, List.isEmpty_cons, if_neg Bool.false_ne_true] at heq
    cases kept with
    | nil =>
      have hfront : ['P'] <+: strip ('P' :: t) := by
        rw [strip_of_head rfl]
        exact prefix_rstrip rfl [] t
      have hlines : lines ([] : List Str) = [] := rfl
      rw [hlines, List.nil_append, List.nil_append] at heq
      rw [heq] at hfront
      revert hfront
      decide
    | cons first kept =>
      have hfirst : first ∈ rows := by
        rw [hsplit]
        exact List.mem_cons_self
      obtain ⟨k, hk⟩ := lines_cons_of_head (hhead first hfirst) kept
      have hfront : ('P' :: k) ++ ['P'] <+: strip (('P' :: k) ++ 'P' :: t) := by
        have hstrip : strip (('P' :: k) ++ 'P' :: t) = rstrip (('P' :: k) ++ 'P' :: t) :=
          strip_of_head rfl
        rw [hstrip]
        exact prefix_rstrip rfl ('P' :: k) t
      have hmarked : strip (('P' :: k) ++ truncationMarker) =
          ('P' :: k) ++ '\n' :: (truncationMarker.tail.dropLast ++ [']']) := by
        have hends := @strip_of_ends 'P' ']' (k ++ '\n' :: truncationMarker.tail.dropLast) rfl rfl
        have hassoc : ('P' :: k) ++ '\n' :: (truncationMarker.tail.dropLast ++ [']']) =
            'P' :: (k ++ '\n' :: truncationMarker.tail.dropLast) ++ [']'] := by
          simp only [List.cons_append, List.append_assoc]
        rw [hassoc, ← hends, ← hassoc]
        exact congrArg (fun marker => strip (('P' :: k) ++ marker)) truncationMarker_ends
      rw [hk] at heq
      rw [heq, hmarked, List.prefix_append_right_inj] at hfront
      cases (List.cons_prefix_cons.mp hfront).1

/-! ## The rows of a builder -/

section
variable (rt : Runtime) (svc : Services)

/-- The rows of the filtered search, or of the unfiltered one where it finds
none. -/
def searchRows (vector : Value) (clause : Str) : Except Exn (List (Cells 11)) := do
  let rows ← svc.select 1 11 (vectorSql rt 12 vector clause "5") []
  if rows.isEmpty && clause != ("1=1" : Str) then
    svc.select 2 11 (vectorSql rt 16 vector "1=1" "3") []
  else .ok rows

/-- The filtered search raises, or it finds nothing and the unfiltered one
raises. -/
def SearchFails (vector : Value) (clause : Str) : Prop :=
  (svc.select 1 11 (vectorSql rt 12 vector clause "5") []).isOk = false ∨
  svc.select 1 11 (vectorSql rt 12 vector clause "5") [] = .ok [] ∧ clause ≠ ("1=1" : Str) ∧
    (svc.select 2 11 (vectorSql rt 16 vector "1=1" "3") []).isOk = false

/-- The rows of the last resort, none where it raises too. -/
def lastRows (vector : Value) : List (Cells 11) :=
  match svc.select 3 11 (vectorSql rt 16 vector "1=1" "3") [] with
  | .ok rows => rows
  | .error _ => []

def catalogRows (query clause : Str) : List (Cells 11) :=
  match svc.encode query with
  | .ok vector => match searchRows rt svc vector clause with
    | .ok rows => rows
    | .error _ => lastRows rt svc vector
  | .error _ => []

/-- The answer to the statement of one attempt. -/
def attemptTable (customerId : Value) (query : Str) (attempt : ℕ) (previousError : Option Str) :
    Except Exn Table := do
  let rawResult ← svc.invoke attempt (.sql (rt.str customerId) query previousError)
  let sqlQuery ← checkedSql rt customerId rawResult
  svc.query attempt sqlQuery

def orderTable (customerId : Value) (query : Str) : Except Exn Table :=
  match attemptTable rt svc customerId query 0 none with
  | .ok table => .ok table
  | .error e => attemptTable rt svc customerId query 1 (some e.text)

/-- The builder was answered these rows, as it renders them. -/
def Fetched : Call → List Str → Prop
  | .supportContext query, rows => ∃ vector faqs, svc.encode query = .ok vector ∧
      svc.select 0 4 (faqSql rt vector) [] = .ok faqs ∧ supportLines rt svc 0 faqs = .ok rows
  | .catalogContext query, rows => ∃ catStr, validCategories svc = .ok catStr ∧
      rows = (catalogRows rt svc query (whereClause rt svc catStr query)).map (productLine rt)
  | .orderContext customerId query, rows => ∃ table, orderTable rt svc customerId query = .ok table ∧
      table.rows ≠ [] ∧ rows = table.rows.map (orderLine rt table.columns)
  | .historyContext customerId, rows => ∃ tickets,
      svc.select 0 3 historySql [("cid", customerId)] = .ok tickets ∧
      rows = tickets.map (ticketLine rt)
  | _, _ => False

/-- The rows are those of the catalog's last resort, and go over the limit. -/
def ShownInFull : Call → List Str → Prop
  | .catalogContext query, rows => ∃ catStr vector, validCategories svc = .ok catStr ∧
      svc.encode query = .ok vector ∧
      SearchFails rt svc vector (whereClause rt svc catStr query) ∧ ¬ Fits rows
  | _, _ => False

variable {rt svc}

/-- A second search, where the first one was filtered and found nothing. -/
theorem retried_isOk {α : Type} {first second : Except Exn (List α)} {clause unfiltered : Str} :
    (first >>= fun rows =>
      if rows.isEmpty && clause != unfiltered then second else .ok rows).isOk = false ↔
    first.isOk = false ∨ first = .ok [] ∧ clause ≠ unfiltered ∧ second.isOk = false := by
  cases first with
  | error e => exact iff_of_true rfl (Or.inl rfl)
  | ok rows =>
    cases rows with
    | nil =>
      by_cases hclause : clause = unfiltered <;> simp [bind, Except.bind, hclause]
    | cons r rows => simp [bind, Except.bind]

theorem searchRows_isOk {vector : Value} {clause : Str} :
    (searchRows rt svc vector clause).isOk = false ↔ SearchFails rt svc vector clause :=
  retried_isOk

theorem hybridSearch_eq (vector : Value) (clause : Str) :
    hybridSearch rt svc vector clause =
      (searchRows rt svc vector clause).map fun rows => renderRows (rows.map (productLine rt)) := by
  rw [hybridSearch, searchRows]
  cases svc.select 1 11 (vectorSql rt 12 vector clause "5") [] with
  | error e => rfl
  | ok rows =>
    simp only [bind, Except.bind]
    split
    · cases svc.select 2 11 (vectorSql rt 16 vector "1=1" "3") [] <;> rfl
    · rfl

theorem vectorFallback_eq (vector : Value) :
    vectorFallback rt svc (some vector) =
      strip (lines ((lastRows rt svc vector).map (productLine rt))) := by
  rw [vectorFallback, lastRows]
  cases svc.select 3 11 (vectorSql rt 16 vector "1=1" "3") [] with
  | ok rows =>
    simp only [lines, List.flatMap_map]
  | error e => rfl

theorem head?_append_of_head {s t : Str} {c : Char} (h : s.head? = some c) :
    (s ++ t).head? = some c := by
  rw [List.head?_append, h, Option.some_or]

theorem productLine_head (r : Cells 11) : (productLine rt r).head? = some 'P' := by
  have hproduct : ("Product: " : Str).head? = some 'P' := rfl
  unfold productLine
  iterate 17 refine head?_append_of_head ?_
  exact hproduct

theorem length_name_le (rt : Runtime) (r : Cells 11) :
    (rt.str (r 0)).length ≤ (productLine rt r).length := by
  unfold productLine
  generalize rt.str (r 0) = name
  iterate 16 refine Nat.le_trans ?_ (List.sublist_append_left ..).length_le
  exact (List.sublist_append_right ..).length_le

/-- The catalog's text is that of its rows, in full from the last resort. -/
theorem catalogText_of_fails {query clause : Str} {vector : Value}
    (hvector : svc.encode query = .ok vector) (h : SearchFails rt svc vector clause) :
    catalogText rt svc query clause =
      strip (lines ((catalogRows rt svc query clause).map (productLine rt))) := by
  rw [← searchRows_isOk] at h
  simp only [catalogText, catalogRows, hvector, hybridSearch_eq]
  cases hrows : searchRows rt svc vector clause with
  | error e => exact vectorFallback_eq vector
  | ok rows =>
    rw [hrows] at h
    cases h

theorem catalogText_of_found {query clause : Str}
    (h : ∀ vector, svc.encode query = .ok vector → ¬ SearchFails rt svc vector clause) :
    catalogText rt svc query clause =
      renderRows ((catalogRows rt svc query clause).map (productLine rt)) := by
  simp only [catalogText, catalogRows, hybridSearch_eq]
  cases hvector : svc.encode query with
  | error e => rfl
  | ok vector =>
    have hfound := h vector hvector
    rw [← searchRows_isOk] at hfound
    cases hrows : searchRows rt svc vector clause with
    | error e =>
      rw [hrows] at hfound
      exact absurd rfl hfound
    | ok rows => simp only [hrows, Except.map]

theorem renderRows_of_fits {rows : List Str} (h : Fits rows) : renderRows rows = strip (lines rows) := by
  refine (truncated_iff.mp ⟨rows, [], ⟨by simp, h, ?_⟩, ?_⟩).symm
  · intro r after heq
    cases heq
  · simp [shown]

theorem orderAttempt_eq (customerId : Value) (query : Str) (attempt : ℕ)
    (previousError : Option Str) :
    orderAttempt rt svc customerId query attempt previousError =
      (attemptTable rt svc customerId query attempt previousError).map (renderOrders rt) := by
  rw [orderAttempt, attemptTable]
  cases svc.invoke attempt (.sql (rt.str customerId) query previousError) with
  | error e => rfl
  | ok rawResult =>
    simp only [bind, Except.bind]
    cases checkedSql rt customerId rawResult with
    | error e => rfl
    | ok sqlQuery =>
      simp only
      cases svc.query attempt sqlQuery <;> rfl

theorem orderAttempts_of_table {customerId : Value} {query : Str} {table : Table}
    (h : orderTable rt svc customerId query = .ok table) :
    orderAttempts rt svc customerId query = renderOrders rt table := by
  rw [orderTable] at h
  rw [orderAttempts, orderAttempt_eq]
  cases hfirst : attemptTable rt svc customerId query 0 none with
  | ok found =>
    rw [hfirst] at h
    cases h
    rfl
  | error e =>
    rw [hfirst] at h
    simp only [Except.map, orderAttempt_eq]
    rw [show attemptTable rt svc customerId query 1 (some e.text) = .ok table from h]

/-- **When a fetch is truncated like every other.** The text a builder returns
shows the longest beginning of its rows that fits and the marker if a row was
left out, unless they are the rows of the catalog's last resort and go over
the limit; and a truncated text is never longer than the limit, a newline and
the marker. -/
theorem truncated_alike_iff (rt : Runtime) (svc : Services) (call : Call) (text : Str)
    (rows : List Str) (htext : runTool rt svc call = .ok text) (hrows : Fetched rt svc call rows) :
    (Truncated rows text ↔ ¬ ShownInFull rt svc call rows) ∧
    (Truncated rows text → text.length ≤ 2001 + truncationMarker.length) := by
  refine ⟨?_, fun h => h.length_le⟩
  have hrule (h : ¬ ShownInFull rt svc call rows) (hrender : text = renderRows rows) :
      Truncated rows text ↔ ¬ ShownInFull rt svc call rows :=
    iff_of_true (truncated_iff.mpr hrender) h
  cases call with
  | supportContext query =>
    refine hrule (fun h => h) ?_
    obtain ⟨vector, faqs, hvector, hfaqs, hlines⟩ := hrows
    obtain ⟨-, -, htext⟩ := bind_ok htext
    simp only [hvector, hfaqs, hlines, bind, Except.bind, Except.ok.injEq] at htext
    exact htext.symm
  | catalogContext query =>
    obtain ⟨catStr, hcategories, rfl⟩ := hrows
    obtain ⟨-, -, htext⟩ := bind_ok htext
    obtain ⟨-, -, htext⟩ := bind_ok htext
    rw [hcategories] at htext
    cases htext
    by_cases hfails : ∃ vector, svc.encode query = .ok vector ∧
        SearchFails rt svc vector (whereClause rt svc catStr query)
    · obtain ⟨vector, hvector, hfails⟩ := hfails
      rw [catalogText_of_fails hvector hfails]
      have hshown (rows : List Str) : ShownInFull rt svc (.catalogContext query) rows ↔ ¬ Fits rows := by
        constructor
        · rintro ⟨_, _, _, _, _, h⟩
          exact h
        · intro h
          exact ⟨catStr, vector, hcategories, hvector, hfails, h⟩
      rw [hshown, not_not]
      constructor
      · intro htruncated
        by_contra hfits
        refine not_truncated_lines ?_ hfits htruncated
        intro r hr
        obtain ⟨cells, -, rfl⟩ := List.mem_map.mp hr
        exact productLine_head cells
      · intro hfits
        exact truncated_iff.mpr (renderRows_of_fits hfits).symm
    · refine hrule ?_ (catalogText_of_found fun vector hvector h => hfails ⟨vector, hvector, h⟩)
      rintro ⟨catStr', vector, hcategories', hvector, h, -⟩
      cases hcategories.symm.trans hcategories'
      exact hfails ⟨vector, hvector, h⟩
  | orderContext customerId query =>
    refine hrule (fun h => h) ?_
    obtain ⟨table, htable, hne, rfl⟩ := hrows
    obtain ⟨-, -, htext⟩ := bind_ok htext
    obtain ⟨-, -, htext⟩ := bind_ok htext
    rw [← Except.ok.inj htext, orderAttempts_of_table htable, renderOrders, if_neg]
    simpa using hne
  | historyContext customerId =>
    refine hrule (fun h => h) ?_
    obtain ⟨tickets, htickets, rfl⟩ := hrows
    obtain ⟨-, -, htext⟩ := bind_ok htext
    rw [htickets] at htext
    exact (Except.ok.inj htext).symm
  | routerClient | routerLlm | synthLlm => exact hrows.elim

end

/-! ## A search that times out -/

def longName : Str := List.replicate 2001 'a'

/-- One row whose first column is the long name. -/
def longRow (width : ℕ) : Cells width := fun i => if i.val = 0 then .str longName else .none

/-- The filter LLM and the first search fail, the last resort finds a row. -/
def timingOut : Services where
  getClient := .ok ()
  chatGroq := .ok ()
  encode _ := .ok (.list [])
  invoke _ _ := .error ⟨"Request timed out."⟩
  select place width _ _ := match place with
    | 0 => .ok []
    | 3 => .ok [longRow width]
    | _ => .error ⟨"Timeout exceeded"⟩
  query _ _ := .error ⟨"Timeout exceeded"⟩

theorem length_longCell (width : ℕ) :
    (Runtime.ascii.str (longRow (width + 1) 0)).length = 2001 := by
  have hcell : longRow (width + 1) 0 = .str longName := rfl
  rw [hcell, Runtime.str_str, longName, List.length_replicate]

theorem length_longRow : 2000 < (productLine .ascii (longRow 11)).length := by
  have hname := length_name_le .ascii (longRow 11)
  rw [length_longCell] at hname
  omega

theorem not_fits_long : ¬ Fits ([longRow 11].map (productLine .ascii)) := by
  intro h
  have hsplit : [longRow 11].map (productLine .ascii) =
      [] ++ productLine .ascii (longRow 11) :: [] := by
    rw [List.map_singleton, List.nil_append]
  have hline := h [] _ [] hsplit
  have hlong := length_longRow
  omega

/-- The long row is shown in full, without a marker. -/
theorem last_resort_in_full :
    ∃ text rows, runTool .ascii timingOut (.catalogContext []) = .ok text ∧
      Fetched .ascii timingOut (.catalogContext []) rows ∧ ¬ Truncated rows text := by
  have hclause (catStr : Str) : whereClause .ascii timingOut catStr [] = "1=1" := rfl
  have hrows : catalogRows .ascii timingOut [] "1=1" = [longRow 11] := rfl
  refine ⟨_, [longRow 11].map (productLine .ascii), rfl, ⟨_, rfl, ?_⟩, ?_⟩
  · rw [hclause, hrows]
  · rw [hclause, catalogText_of_fails rfl (Or.inl rfl), hrows]
    refine not_truncated_lines ?_ not_fits_long
    intro r hr
    obtain ⟨cells, -, rfl⟩ := List.mem_map.mp hr
    exact productLine_head cells

theorem length_id_le (rt : Runtime) (r : Cells 3) :
    (rt.str (r 0)).length ≤ (ticketLine rt r).length := by
  unfold ticketLine
  generalize rt.str (r 0) = id
  iterate 4 refine Nat.le_trans ?_ (List.sublist_append_left ..).length_le
  exact (List.sublist_append_right ..).length_le

def shortRow (width : ℕ) : Cells width := fun i => if i.val = 0 then .str "T-1" else .none

/-- Two tickets on record, of which one has room. -/
def twoTickets : Services :=
  { timingOut with select := fun _ width _ _ => .ok [shortRow width, longRow width] }

theorem not_fits_tickets : ¬ Fits ([shortRow 3, longRow 3].map (ticketLine .ascii)) := by
  intro h
  have hsplit : [shortRow 3, longRow 3].map (ticketLine .ascii) =
      [ticketLine .ascii (shortRow 3)] ++ ticketLine .ascii (longRow 3) :: [] := rfl
  have hline := h _ _ [] hsplit
  have hid := length_id_le .ascii (longRow 3)
  rw [length_longCell] at hid
  omega

/-- The second ticket is cut off. -/
theorem truncated_alike_iff_twoTickets : ∃ text rows, ¬ Fits rows ∧
    (Truncated rows text ↔ ¬ ShownInFull .ascii twoTickets (.historyContext (.str "C-1")) rows) ∧
      (Truncated rows text → text.length ≤ 2001 + truncationMarker.length) :=
  ⟨_, _, not_fits_tickets,
    truncated_alike_iff .ascii twoTickets (.historyContext (.str "C-1")) _ _ rfl ⟨_, rfl, rfl⟩⟩

end TechMart.Graph
