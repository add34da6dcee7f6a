import TechMart.Bot.Rounds

/-!
# The end of a session

`handle_websocket` from the moment the pipeline exists: the runner, what it
stops with, the `finally` block and the detached task that writes the ticket.
-/

namespace TechMart.Main

open Python TechMart.Graph TechMart.Bot

/-- What the handler does, as far as something can stop it or is left of it. -/
inductive SessionOp where
  | addWorkers
  | runWorkers
  | createTask (transcript : Str)
  | deleteActiveCall

abbrev Handler := Prog Raised SessionOp Unit Unit

/-- A call whose pipeline was created; `messages` is what its context holds when
the runner stops. -/
structure Session where
  ticketId : Str
  sessionId : Str
  customerProfile : Dict Value
  messages : List Message
  isActive : Bool

/-! ## The transcript -/

def rawMessages (messages : List Message) : List Message := messages.filter fun m => m.role ≠ .system

def transcriptLine (m : Message) : Str :=
  (if m.role = .human then "User" else "Agent" : Str) ++ (": " : Str) ++ m.content

def transcript (messages : List Message) : Str := join "\n" (messages.map transcriptLine)

/-- What is kept of it: at most the last 20000 characters. -/
def clip (fullTranscript : Str) : Str :=
  if 20000 < fullTranscript.length then ("..." : Str) ++ sliceLast fullTranscript 20000
  else fullTranscript

/-! ## The handler -/

/-- `except WebSocketDisconnect` and `except Exception`: both only print. -/
def exceptException : Raised → Handler
  | .exception _ => .done ()
  | .cancelled => .raise .cancelled

def initiateTicket (session : Session) : Handler :=
  if 2 ≤ (rawMessages session.messages).length then
    Prog.perform (.createTask (transcript (rawMessages session.messages)))
  else pure ()

def finalBlock (session : Session) : Handler := do
  (initiateTicket session).tryCatch exceptException
  if session.isActive then Prog.perform .deleteActiveCall else pure ()

def handleWebsocket (session : Session) : Handler :=
  ((do
    Prog.perform .addWorkers
    Prog.perform .runWorkers : Handler).tryCatch exceptException).tryFinally (finalBlock session)

abbrev SessionLog := List (SessionOp × Except Raised Unit)

/-- The runner can stop with anything; what follows it awaits nothing. -/
def SessionServes : SessionOp × Except Raised Unit → Prop
  | (.addWorkers, _) | (.runWorkers, _) => True
  | (_, ans) => ans = .ok ()

/-- The transcripts of the tasks that were created. -/
def created (log : SessionLog) : List Str :=
  log.filterMap fun
    | (.createTask transcript, .ok ()) => some transcript
    | _ => none

/-! ## The ticket -/

inductive TicketCall where
  | synthLlm
  | summarise (prompt : Str)
  | encode (summary : Value)
  | getClient
  | insert (table : Str) (row : List Value) (columnNames : List Str)

abbrev TicketProg := Prog Exn TicketCall Value Unit

def ticketColumns : List Str :=
  ["ticket_id", "session_id", "customer_id", "caller_phone", "call_start_time", "call_end_time",
   "call_status", "full_transcript", "summary", "summary_embedding"]

def ticketPrompt (fullTranscript : Str) : Str :=
  ("Summarize the following customer support phone call for a CRM ticket log.\n" : Str) ++
  ("Focus strictly on the user's intent and the agent's resolution " : Str) ++
  ("or provided information.\n\nFull Transcript:\n" : Str) ++ fullTranscript

section
variable (now : Value) (session : Session)

def ticketRow (fullTranscript : Str) (summary embedding : Value) : List Value :=
  [.str session.ticketId, .str session.sessionId,
   session.customerProfile.getD "customer_id" (.str []),
   session.customerProfile.getD "phone" (.str []), now, now, .str "Completed",
   .str fullTranscript, summary, embedding]

/-- The `try` block of `write_call_ticket`. -/
def ticketBody (fullTranscript : Str) : TicketProg := do
  let _ ← Prog.perform .synthLlm
  let summary ← Prog.perform (.summarise (ticketPrompt (clip fullTranscript)))
  let embedding ← Prog.perform (.encode summary)
  let _ ← Prog.perform .getClient
  let _ ← Prog.perform (.insert "call_tickets"
    (ticketRow now session (clip fullTranscript) summary embedding) ticketColumns)
  pure ()

def writeCallTicket (fullTranscript : Str) : TicketProg :=
  (ticketBody now session fullTranscript).tryCatch fun _ => .done ()

def saveTicketBg (fullTranscript : Str) : TicketProg :=
  (writeCallTicket now session fullTranscript).tryCatch fun _ => .done ()

end

abbrev TicketLog := List (TicketCall × Except Exn Value)

def TicketCall.isInsert : TicketCall → Bool
  | .insert .. => true
  | _ => false

/-- The rows that were inserted into `call_tickets`. -/
def inserted (log : TicketLog) : List (List Value) :=
  log.filterMap fun
    | (.insert table row _, .ok _) => if table = ("call_tickets" : Str) then some row else none
    | _ => none

/-- The calls before the insert all returned. -/
def Returned (log : TicketLog) : Prop := ∀ c ∈ log, c.1.isInsert = false → c.2.isOk = true

/-- The task is run to its end, and an insert succeeds. -/
def Ran (now : Value) (session : Session) (fullTranscript : Str) (log : TicketLog) : Prop :=
  (∃ r, Prog.Runs (saveTicketBg now session fullTranscript) log r) ∧
  ∀ c ∈ log, c.1.isInsert = true → c.2.isOk = true

/-! ## One task -/

section
variable {session : Session} {log : SessionLog}

theorem created_append (log' : SessionLog) : created (log ++ log') = created log ++ created log' :=
  List.filterMap_append

/-- The runner creates no task. -/
theorem created_runner {r : Except Raised Unit} (h : Prog.Runs ((do
      Prog.perform .addWorkers
      Prog.perform .runWorkers : Handler).tryCatch exceptException) log r) : created log = [] := by
  have hbody {log : SessionLog} {r : Except Raised Unit} (h : Prog.Runs (do
      Prog.perform .addWorkers
      Prog.perform .runWorkers : Handler) log r) : created log = [] := by
    rcases Prog.runs_bind h with ⟨before, _, after, rfl, hadd, hrun⟩ | ⟨e, hadd, -⟩
    · rw [Prog.runs_perform hadd, Prog.runs_perform hrun]
      rfl
    · rw [Prog.runs_perform hadd]
      rfl
  rcases Prog.runs_tryCatch h with ⟨_, hrun, -⟩ | ⟨before, e, after, rfl, hrun, hhandler⟩
  · exact hbody hrun
  · have hafter : after = [] := by
      cases e with
      | exception => exact (Prog.runs_done hhandler).1
      | cancelled => exact (Prog.runs_raise hhandler).1
    rw [hafter, List.append_nil]
    exact hbody hrun

theorem created_initiate {r : Except Raised Unit} (h : Prog.Runs (initiateTicket session) log r)
    (hserves : ∀ c ∈ log, SessionServes c) : r = .ok () ∧ created log =
      if 2 ≤ (rawMessages session.messages).length then
        [transcript (rawMessages session.messages)]
      else [] := by
  unfold initiateTicket at h
  split
  · rename_i hlong
    rw [if_pos hlong] at h
    obtain rfl := Prog.runs_perform h
    have hok : r = .ok () := hserves _ List.mem_cons_self
    subst hok
    exact ⟨rfl, rfl⟩
  · rename_i hshort
    rw [if_neg hshort] at h
    obtain ⟨rfl, rfl⟩ := Prog.runs_done h
    exact ⟨rfl, rfl⟩

/-- However the runner stops, the `finally` block is run to its end. -/
theorem created_handler {r : Except Raised Unit} (h : Prog.Runs (handleWebsocket session) log r)
    (hserves : ∀ c ∈ log, SessionServes c) : created log =
      if 2 ≤ (rawMessages session.messages).length then
        [transcript (rawMessages session.messages)]
      else [] := by
  obtain ⟨before, after, r', rfl, hrunner, hfinal⟩ := Prog.runs_tryFinally h
  have hfinal : ∃ r, Prog.Runs (finalBlock session) after r := by
    rcases hfinal with ⟨hfinal, -⟩ | ⟨e, hfinal, -⟩
    · exact ⟨_, hfinal⟩
    · exact ⟨_, hfinal⟩
  obtain ⟨r, hfinal⟩ := hfinal
  have hafter : ∀ c ∈ after, SessionServes c := fun c hc => hserves c (List.mem_append_right _ hc)
  rw [created_append, created_runner hrunner, List.nil_append]
  have hinitiate {log : SessionLog} {r : Except Raised Unit}
      (h : Prog.Runs ((initiateTicket session).tryCatch exceptException) log r)
      (hserves : ∀ c ∈ log, SessionServes c) :
      r = .ok () ∧ created log = if 2 ≤ (rawMessages session.messages).length then
        [transcript (rawMessages session.messages)] else [] := by
    rcases Prog.runs_tryCatch h with ⟨_, hrun, rfl⟩ | ⟨first, e, rest, rfl, hrun, -⟩
    · exact created_initiate hrun hserves
    · cases (created_initiate hrun fun c hc => hserves c (List.mem_append_left _ hc)).1
  rcases Prog.runs_bind hfinal with ⟨first, _, rest, rfl, hfirst, hrest⟩ | ⟨e, hfirst, -⟩
  · have hdelete : created rest = [] := by
      split at hrest
      · rw [Prog.runs_perform hrest]
        rfl
      · rw [(Prog.runs_done hrest).1]
        rfl
    rw [created_append, hdelete, List.append_nil]
    exact (hinitiate hfirst fun c hc => hafter c (List.mem_append_left _ hc)).2
  · cases (hinitiate hfirst hafter).1

end

/-! ## One row -/

section
variable {now : Value} {session : Session} {fullTranscript : Str} {log : TicketLog}

/-- A call whose exception is not handled: it raised, or the rest was run. -/
theorem runs_call_then {q : TicketCall} {f : Value → TicketProg} {r : Except Exn Unit}
    (h : Prog.Runs (Prog.perform q >>= f) log r) :
    (∃ e, log = [(q, .error e)]) ∨ ∃ a rest, log = (q, .ok a) :: rest ∧ Prog.Runs (f a) rest r := by
  rw [Prog.perform_bind] at h
  obtain ⟨ans, rest, rfl, hk⟩ := Prog.runs_call h
  cases ans with
  | error e =>
    obtain ⟨rfl, -⟩ := Prog.runs_raise hk
    exact Or.inl ⟨e, rfl⟩
  | ok a => exact Or.inr ⟨a, rest, rfl, hk⟩

/-- Either all calls before the insert returned and the rows are as they should
be, or one raised and there is no row. -/
def Outcome (rows : List (List Value) → Prop) (log : TicketLog) : Prop :=
  Returned log ∧ rows (inserted log) ∨ ¬ Returned log ∧ inserted log = []

theorem outcome_call {q : TicketCall} {f : Value → TicketProg} {r : Except Exn Unit}
    {rows : List (List Value) → Prop} (hq : q.isInsert = false)
    (h : Prog.Runs (Prog.perform q >>= f) log r)
    (hrest : ∀ a rest, rest ⊆ log → Prog.Runs (f a) rest r → Outcome rows rest) :
    Outcome rows log := by
  rcases runs_call_then h with ⟨e, rfl⟩ | ⟨a, rest, rfl, hf⟩
  · refine Or.inr ⟨?_, ?_⟩
    · intro hreturned
      cases hreturned _ List.mem_cons_self hq
    · cases q <;> rfl
  · have hinserted : inserted ((q, .ok a) :: rest) = inserted rest := by
      cases q <;> first | rfl | cases hq
    have hreturned : Returned ((q, .ok a) :: rest) ↔ Returned rest := by
      constructor
      · exact fun h c hc => h c (List.mem_cons_of_mem _ hc)
      · intro h c hc hinsert
        rcases List.mem_cons.mp hc with rfl | hc
        · rfl
        · exact h c hc hinsert
    rw [Outcome, hinserted, hreturned]
    exact hrest a rest (List.subset_cons_self _ _) hf

/-- The ticket is written, or a call before the insert raised. -/
theorem ticketBody_outcome {r : Except Exn Unit}
    (h : Prog.Runs (ticketBody now session fullTranscript) log r)
    (hinsert : ∀ c ∈ log, c.1.isInsert = true → c.2.isOk = true) :
    Outcome (fun rows => ∃ summary embedding,
      rows = [ticketRow now session (clip fullTranscript) summary embedding]) log := by
  apply outcome_call rfl h
  intro _ log₁ hlog₁ h
  apply outcome_call rfl h
  intro summary log₂ hlog₂ h
  apply outcome_call rfl h
  intro embedding log₃ hlog₃ h
  apply outcome_call rfl h
  intro _ log₄ hlog₄ h
  have hlog : log₄ ⊆ log := fun _ hc => hlog₁ (hlog₂ (hlog₃ (hlog₄ hc)))
  rcases runs_call_then h with ⟨e, rfl⟩ | ⟨_, rest, rfl, hdone⟩
  · cases hinsert _ (hlog List.mem_cons_self) rfl
  · obtain ⟨rfl, -⟩ := Prog.runs_done hdone
    refine Or.inl ⟨?_, summary, embedding, rfl⟩
    intro c hc hother
    rw [List.mem_singleton.mp hc] at hother
    cases hother

/-- Both handlers only print. -/
theorem saveTicketBg_outcome (h : Ran now session fullTranscript log) :
    Outcome (fun rows => ∃ summary embedding,
      rows = [ticketRow now session (clip fullTranscript) summary embedding]) log := by
  obtain ⟨⟨r, h⟩, hinsert⟩ := h
  have hwrite {log : TicketLog} {r : Except Exn Unit}
      (h : Prog.Runs (writeCallTicket now session fullTranscript) log r) :
      r = .ok () ∧ ∃ r', Prog.Runs (ticketBody now session fullTranscript) log r' := by
    rcases Prog.runs_tryCatch h with ⟨_, hbody, rfl⟩ | ⟨before, e, after, rfl, hbody, hhandler⟩
    · exact ⟨rfl, _, hbody⟩
    · obtain ⟨rfl, rfl⟩ := Prog.runs_done hhandler
      rw [List.append_nil]
      exact ⟨rfl, _, hbody⟩
  rcases Prog.runs_tryCatch h with ⟨_, hrun, -⟩ | ⟨before, e, after, rfl, hrun, -⟩
  · obtain ⟨-, r', hbody⟩ := hwrite hrun
    exact ticketBody_outcome hbody hinsert
  · cases (hwrite hrun).1

/-- **When a call is recorded.** However the session stops, with two messages in
its context one task is created, and run to its end it inserts one row with the
ticket's id and the transcript (clipped to its last 20000 characters) if the two
models and the client could be had and returned, and no row otherwise. -/
theorem call_recorded (now : Value) (session : Session) (log : SessionLog) (r : Except Raised Unit)
    (logs : List TicketLog) (hsession : Prog.Runs (handleWebsocket session) log r)
    (hserves : ∀ c ∈ log, SessionServes c)
    (hmessages : 2 ≤ (rawMessages session.messages).length)
    (hlogs : List.Forall₂ (Ran now session) (created log) logs) :
    ((∀ log ∈ logs, Returned log) → ∃ summary embedding, logs.flatMap inserted =
      [ticketRow now session (clip (transcript (rawMessages session.messages))) summary
        embedding]) ∧
    ((∃ log ∈ logs, ¬ Returned log) → logs.flatMap inserted = []) := by
  rw [created_handler hsession hserves, if_pos hmessages] at hlogs
  cases hlogs with
  | @cons _ ticketLog _ _ hran hnone =>
    cases hnone
    simp only [List.flatMap_singleton, List.mem_singleton, forall_eq, exists_eq_left]
    rcases saveTicketBg_outcome hran with ⟨hreturned, hrows⟩ | ⟨hraised, hrows⟩
    · exact ⟨fun _ => hrows, fun hraised => absurd hreturned hraised⟩
    · exact ⟨fun hreturned => absurd hreturned hraised, fun _ => hrows⟩

end

/-! ## A summary that fails -/

def greetedSession : Session :=
  ⟨"TKT-1", "session", [], [⟨.ai, "Hello."⟩, ⟨.human, "Hi."⟩], true⟩

/-- The caller hangs up, and the handler is cancelled. -/
def hangUp : ℕ → SessionOp → Except Raised Unit
  | _, .runWorkers => .error .cancelled
  | _, _ => .ok ()

def hangUpLog : SessionLog := ((handleWebsocket greetedSession).play hangUp).1

/-- The answers of the task's calls, with or without a summary. -/
def ticketAnswer (summary : Except Exn Value) : ℕ → TicketCall → Except Exn Value
  | _, .summarise _ => summary
  | _, _ => .ok (.str [])

def ticketLog (summary : Except Exn Value) : TicketLog :=
  ((saveTicketBg (.str "now") greetedSession
    (transcript (rawMessages greetedSession.messages))).play (ticketAnswer summary)).1

theorem hangUpLog_serves : ∀ c ∈ hangUpLog, SessionServes c := by
  rintro ⟨op, ans⟩ hc
  obtain ⟨n, hans⟩ := Prog.mem_play hc
  obtain rfl : ans = hangUp n op := hans
  cases op <;> trivial

theorem hangUpLog_ran (summary : Except Exn Value) : List.Forall₂
    (Ran (.str "now") greetedSession) (created hangUpLog) [ticketLog summary] := by
  refine .cons ⟨⟨_, Prog.runs_play _ _⟩, ?_⟩ .nil
  rintro ⟨q, ans⟩ hc hinsert
  obtain ⟨n, hans⟩ := Prog.mem_play hc
  obtain rfl : ans = ticketAnswer summary n q := hans
  cases q <;> first | rfl | cases hinsert

theorem call_recorded_greetedSession :
    ∃ summary embedding, [ticketLog (.ok (.str "A greeting."))].flatMap inserted =
      [ticketRow (.str "now") greetedSession "Agent: Hello.\nUser: Hi." summary embedding] := by
  refine (call_recorded (.str "now") greetedSession hangUpLog _
    [ticketLog (.ok (.str "A greeting."))] (Prog.runs_play _ _) hangUpLog_serves (by decide)
    (hangUpLog_ran _)).1 ?_
  rintro log hlog ⟨q, ans⟩ hc -
  rw [List.mem_singleton.mp hlog] at hc
  obtain ⟨n, hans⟩ := Prog.mem_play hc
  obtain rfl : ans = ticketAnswer _ n q := hans
  cases q <;> rfl

/-- The summarising model raises, and the call leaves no record. -/
theorem record_lost :
    Prog.Runs (handleWebsocket greetedSession) hangUpLog (.error .cancelled) ∧
    (∀ c ∈ hangUpLog, SessionServes c) ∧
    (rawMessages greetedSession.messages).length = 2 ∧
    List.Forall₂ (Ran (.str "now") greetedSession) (created hangUpLog)
      [ticketLog (.error ⟨"Rate limit reached"⟩)] ∧
    ([ticketLog (.error ⟨"Rate limit reached"⟩)].flatMap inserted).length ≠ 1 :=
  ⟨Prog.runs_play _ _, hangUpLog_serves, rfl, hangUpLog_ran _, by decide⟩

end TechMart.Main
