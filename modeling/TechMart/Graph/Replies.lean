import TechMart.Graph.Tools
import TechMart.Graph.Workflow
import TechMart.Python.Runs

/-!
# Fenced replies

An LLM may put the object it was asked for between fences. The three cuts of
the clean-up are two functions of the text they are given: one takes an opening
fence away, the other a closing one. Neither touches a text that begins or ends
as an object does.
-/

namespace TechMart.Graph

open Python

/-- The text of a JSON object, as far as its ends go. -/
def ObjectText (j : Str) : Prop := ∃ inner, j = '\x7b' :: inner ++ ['\x7d']

def openings : List Str := [fence, fence ++ "json"]

/-- The replies made of an object and nothing but white space and fences. -/
inductive Wrapped (j : Str) : Str → Prop
  | bare {before after : Str} : Blank before → Blank after → Wrapped j (before ++ j ++ after)
  | opened {before opening inside after : Str} :
      opening ∈ openings → Blank before → Blank inside → Blank after →
      Wrapped j (before ++ (opening ++ (inside ++ j)) ++ after)
  | closed {before opening inside behind after : Str} :
      opening ∈ openings → Blank before → Blank inside → Blank behind → Blank after →
      Wrapped j (before ++ (opening ++ (inside ++ j ++ behind) ++ fence) ++ after)

/-! ## The cuts -/

def cutOpening (s : Str) : Str :=
  let s := if startswith s (fence ++ "json") then sliceFrom s 7 else s
  if startswith s fence then sliceFrom s 3 else s

def cutClosing (s : Str) : Str := if endswith s fence then sliceDropLast s 3 else s

theorem cleanReply_eq (content : Str) :
    cleanReply content = strip (cutClosing (cutOpening (strip content))) := rfl

section
variable {j : Str}

theorem strip_object (hj : ObjectText j) : strip j = j := by
  obtain ⟨inner, rfl⟩ := hj
  exact strip_of_ends rfl rfl

/-- Neither a fence nor its tag begins where an object does. -/
theorem not_startswith_object (hj : ObjectText j) {inside : Str} (hinside : Blank inside)
    (rest : Str) {c : Char} (hc : isspace c = false) (hne : c ≠ '\x7b') (p : Str) :
    startswith (inside ++ j ++ rest) (c :: p) = false := by
  rw [Bool.eq_false_iff, ne_eq, startswith_iff]
  rintro ⟨t, ht⟩
  cases inside with
  | nil =>
    obtain ⟨inner, rfl⟩ := hj
    apply hne
    injection ht
  | cons d inside =>
    have hd : isspace d = true := hinside d List.mem_cons_self
    have hcd : c = d := by injection ht
    rw [hcd, hd] at hc
    cases hc

/-- Both openings go, and with them nothing else. -/
theorem cutOpening_append (hj : ObjectText j) {opening inside : Str} (hopening : opening ∈ openings)
    (hinside : Blank inside) (rest : Str) :
    cutOpening (opening ++ (inside ++ j ++ rest)) = inside ++ j ++ rest := by
  have hfence : startswith (inside ++ j ++ rest) fence = false :=
    not_startswith_object hj hinside rest rfl (by decide) _
  have htag : startswith (inside ++ j ++ rest) "json" = false :=
    not_startswith_object hj hinside rest rfl (by decide) _
  generalize inside ++ j ++ rest = body at hfence htag
  rcases List.mem_cons.mp hopening with rfl | hopening
  · have hjson : startswith (fence ++ body) (fence ++ "json") = false := by
      rw [Bool.eq_false_iff, ne_eq, startswith_iff, List.prefix_append_right_inj, ← startswith_iff]
      exact Bool.eq_false_iff.mp htag
    have hopen : startswith (fence ++ body) fence = true :=
      startswith_iff.mpr (List.prefix_append ..)
    simp only [cutOpening, hjson, hopen, if_true, Bool.false_eq_true, if_false]
    rfl
  · cases List.mem_singleton.mp hopening
    have hjson : startswith (fence ++ "json" ++ body) (fence ++ "json") = true :=
      startswith_iff.mpr (List.prefix_append ..)
    have hbody : sliceFrom (fence ++ "json" ++ body) 7 = body := rfl
    simp only [cutOpening, hjson, hbody, hfence, if_true, Bool.false_eq_true, if_false]

/-- Without an opening there is nothing to cut. -/
theorem cutOpening_object (hj : ObjectText j) : cutOpening j = j := by
  have hnone (p : Str) : startswith j ('`' :: p) = false := by
    have hbody := not_startswith_object hj blank_nil [] (c := '`') rfl (by decide) p
    rwa [List.nil_append, List.append_nil] at hbody
  have hjson : startswith j (fence ++ "json") = false := hnone _
  have hopen : startswith j fence = false := hnone _
  simp only [cutOpening, hjson, hopen, Bool.false_eq_true, if_false]

theorem cutClosing_fence (s : Str) : cutClosing (s ++ fence) = s := by
  have hclose : endswith (s ++ fence) fence = true := endswith_iff.mpr (List.suffix_append ..)
  rw [cutClosing, if_pos hclose]
  exact sliceDropLast_append s fence

/-- A text that ends as an object does has no closing fence. -/
theorem cutClosing_object (hj : ObjectText j) (s : Str) : cutClosing (s ++ j) = s ++ j := by
  obtain ⟨inner, rfl⟩ := hj
  have hclose : ¬ endswith (s ++ ('\x7b' :: inner ++ ['\x7d'])) fence = true := by
    rw [endswith_iff, ← List.append_assoc]
    rintro ⟨front, hfront⟩
    have hlast := congrArg List.getLast? hfront
    rw [List.getLast?_concat, List.getLast?_append_of_ne_nil front (by decide)] at hlast
    revert hlast
    decide
  rw [cutClosing, if_neg hclose]

/-! ## Transparency -/

/-- The outermost characters of a fenced text are no white space. -/
theorem strip_opened (hj : ObjectText j) {opening : Str} (hopening : opening ∈ openings)
    (inside : Str) : strip (opening ++ (inside ++ j)) = opening ++ (inside ++ j) := by
  obtain ⟨inner, rfl⟩ := hj
  have hhead : opening = '`' :: opening.tail := by
    rcases List.mem_cons.mp hopening with rfl | hopening
    · rfl
    · cases List.mem_singleton.mp hopening
      rfl
  rw [hhead, ← List.append_assoc, ← List.append_assoc, List.cons_append]
  exact strip_of_ends rfl rfl

theorem strip_closed {opening : Str} (hopening : opening ∈ openings) (body : Str) :
    strip (opening ++ body ++ fence) = opening ++ body ++ fence := by
  have hhead : opening = '`' :: opening.tail := by
    rcases List.mem_cons.mp hopening with rfl | hopening
    · rfl
    · cases List.mem_singleton.mp hopening
      rfl
  have hfence : fence = ['`', '`'] ++ ['`'] := rfl
  rw [hhead, hfence, ← List.append_assoc]
  exact strip_of_ends rfl rfl

theorem cleanReply_wrapped {reply : Str} (hj : ObjectText j) (h : Wrapped j reply) :
    cleanReply reply = j := by
  rw [cleanReply_eq]
  cases h with
  | bare hbefore hafter =>
    have hclose := cutClosing_object hj []
    rw [strip_between hbefore hafter, strip_object hj, cutOpening_object hj]
    rw [List.nil_append] at hclose
    rw [hclose, strip_object hj]
  | @opened before opening inside after hopening hbefore hinside hafter =>
    have hcut := cutOpening_append hj hopening hinside []
    rw [List.append_nil] at hcut
    rw [strip_between hbefore hafter, strip_opened hj hopening, hcut, cutClosing_object hj,
      strip_blank_append hinside, strip_object hj]
  | @closed before opening inside behind after hopening hbefore hinside hbehind hafter =>
    have hcut := cutOpening_append hj hopening hinside (behind ++ fence)
    rw [strip_between hbefore hafter, strip_closed hopening, List.append_assoc opening,
      List.append_assoc (inside ++ j), hcut, ← List.append_assoc, cutClosing_fence,
      strip_between hinside hbehind, strip_object hj]

/-- An object is a reply of its own. -/
theorem cleanReply_object (hj : ObjectText j) : cleanReply j = j := by
  have hbare : Wrapped j ([] ++ j ++ []) := .bare blank_nil blank_nil
  rw [List.nil_append, List.append_nil] at hbare
  exact cleanReply_wrapped hj hbare

theorem load_wrapped (rt : Runtime) {reply : Str} (hj : ObjectText j) (h : Wrapped j reply) :
    Reply.load rt reply = Json.loads rt j := by
  rw [Reply.load, cleanReply_wrapped hj h]

end

/-! ## What the callers make of it -/

/-- The LLM answers `j` wherever it answered `reply`. -/
def sending (reply j : Str) (ans : Except Exn Str) : Except Exn Str :=
  ans.map fun a => if a = reply then j else a

def Services.sending (svc : Services) (reply j : Str) : Services :=
  { svc with invoke := fun n prompt => Graph.sending reply j (svc.invoke n prompt) }

section
variable {rt : Runtime} {reply j : Str}

/-- Code that reads both replies alike does not see the change. -/
theorem sending_bind {α : Type} {f : Str → Except Exn α} (hf : f j = f reply)
    (ans : Except Exn Str) : sending reply j ans >>= f = ans >>= f := by
  cases ans with
  | error e => rfl
  | ok a =>
    show f (if a = reply then j else a) = f a
    by_cases ha : a = reply
    · rw [if_pos ha, hf, ha]
    · rw [if_neg ha]

theorem routerResult_sending (hload : Reply.load rt j = Reply.load rt reply) (state : AgentState)
    (english : Str) (ans : Except Exn Str) :
    routerResult rt state english (sending reply j ans) = routerResult rt state english ans := by
  cases ans with
  | error e => rfl
  | ok a =>
    show routerResult rt state english (.ok (if a = reply then j else a)) = _
    by_cases ha : a = reply
    · rw [if_pos ha, ha]
      simp only [routerResult, RouterOutput.ofReply, hload]
    · rw [if_neg ha]

theorem routerNode_sending (hload : Reply.load rt j = Reply.load rt reply) (state : AgentState)
    (answer : ℕ → Call → Except Exn Str) :
    ((routerNode rt state).play fun n q => sending reply j (answer n q)).2 =
      ((routerNode rt state).play answer).2 := by
  cases hlast : state.messages.getLast? with
  | none => simp only [routerNode, hlast, Prog.play]
  | some last =>
    rw [routerNode_eq hlast]
    simp only [Prog.play]
    cases answer 0 .routerClient with
    | error e => rfl
    | ok a =>
      show Except.ok (routerUpdate (routerResult rt state last.content (sending reply j _))) = _
      rw [routerResult_sending hload]
      rfl

theorem whereClause_sending (hload : Reply.load rt j = Reply.load rt reply) (svc : Services)
    (catStr query : Str) :
    whereClause rt (svc.sending reply j) catStr query = whereClause rt svc catStr query := by
  let f (rawResult : Str) : Except Exn Str := Reply.load rt rawResult >>= filterOutput rt
  have hf : f j = f reply := by simp only [f, hload]
  have hread := sending_bind hf (svc.invoke 0 (.filter catStr query))
  simp only [f] at hread
  simp only [whereClause, Services.sending, hread]

theorem orderAttempt_sending (hload : Reply.load rt j = Reply.load rt reply) (svc : Services)
    (customerId : Value) (query : Str) (attempt : ℕ) (previousError : Option Str) :
    orderAttempt rt (svc.sending reply j) customerId query attempt previousError =
      orderAttempt rt svc customerId query attempt previousError := by
  have hchecked : checkedSql rt customerId j = checkedSql rt customerId reply := by
    simp only [checkedSql, hload]
  apply sending_bind
  simp only [hchecked]

end

/-- **What a fence hides.** Whatever white space and fences an object comes
between, the clean-up gives back the object, backquotes in its strings and all;
so the router, the catalog and the orders read every such reply as the object
alone. -/
theorem fences_are_transparent (rt : Runtime) {j reply : Str} (hj : ObjectText j)
    (h : Wrapped j reply) :
    cleanReply reply = j ∧ Reply.load rt reply = Json.loads rt j ∧
    (∀ state answer, ((routerNode rt state).play fun n q => sending reply j (answer n q)).2 =
      ((routerNode rt state).play answer).2) ∧
    (∀ svc query, getCatalogContext rt (svc.sending reply j) query =
      getCatalogContext rt svc query) ∧
    ∀ svc customerId query, getOrderContext rt (svc.sending reply j) customerId query =
      getOrderContext rt svc customerId query := by
  have hload : Reply.load rt j = Reply.load rt reply := by
    rw [Reply.load, cleanReply_object hj, load_wrapped rt hj h]
  refine ⟨cleanReply_wrapped hj h, load_wrapped rt hj h, routerNode_sending hload, ?_, ?_⟩
  · intro svc query
    simp only [getCatalogContext, whereClause_sending hload]
    rfl
  · intro svc customerId query
    simp only [getOrderContext, orderAttempts, orderAttempt_sending hload]
    rfl

/-- An object with three backquotes in its one string. -/
def quotingObject : Str :=
  '\x7b' :: ("\"where_clause\": \"name = '```'\"" : Str) ++ ['\x7d']

theorem fences_are_transparent_quoting :
    cleanReply (("\n" : Str) ++
      (fence ++ "json" ++ ("\n" ++ quotingObject ++ " \n") ++ fence) ++ "\n") = quotingObject := by
  have hline : Blank "\n" := blank_cons rfl blank_nil
  have hbehind : Blank " \n" := blank_cons rfl hline
  exact (fences_are_transparent .ascii ⟨_, rfl⟩
    (.closed (by decide) hline hline hbehind hline)).1

end TechMart.Graph
