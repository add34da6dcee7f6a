import TechMart.Db.Schema
import TechMart.Graph.Truncation
import Mathlib.Data.Fin.VecNotation

/-!
# What later calls recall

An ended call leaves a ticket; `get_history_context` tells of a customer's
tickets in a later call. Whatever else the database is used for meanwhile, no
ticket that was saved is lost, and the newest are told first.
-/

namespace TechMart.Db

open Python Sql Admin TechMart.Graph

def tickets (db : Database) : List Row :=
  ((db SchemaTable.callTickets.name).map Table.rows).getD []

def ticketCell (row : Row) (column : Str) : Value :=
  (Dict.get? (SchemaTable.callTickets.columns.zip row) column).getD .none

def ticketCustomer (row : Row) : Option Str :=
  Table.text ⟨SchemaTable.callTickets.columns, []⟩ row "customer_id"

def ticketsOf (db : Database) (customerId : Str) : List Row :=
  (tickets db).filter fun row => ticketCustomer row = some customerId

/-- The columns `get_history_context` selects. -/
def historyCells (row : Row) : Cells 3 :=
  ![ticketCell row "ticket_id", ticketCell row "call_start_time", ticketCell row "summary"]

def historyLine (rt : Runtime) (row : Row) : Str := ticketLine rt (historyCells row)

section
variable (time : Value → ℕ)

/-- `ORDER BY call_start_time DESC`. -/
def NewestFirst (newer older : Row) : Prop :=
  time (ticketCell older "call_start_time") ≤ time (ticketCell newer "call_start_time")

/-- What ClickHouse can answer to the statement of `get_history_context`, where
`time` orders the column: tickets of one time come in any order. -/
def AnswersHistory (db : Database) (customerId : Str) (answer : List (Cells 3)) : Prop :=
  ∃ rows : List Row, rows.Perm (ticketsOf db customerId) ∧ rows.Pairwise (NewestFirst time) ∧
    answer = rows.map historyCells

/-- The customer's tickets, and which of them the text tells: as many of the
newest as fit. -/
structure History (rt : Runtime) (db : Database) (customerId : Str) (kept dropped : List Row)
    (text : Str) : Prop where
  own : (kept ++ dropped).Perm (ticketsOf db customerId)
  newest : (kept ++ dropped).Pairwise (NewestFirst time)
  cut : CutOff ((kept ++ dropped).map (historyLine rt)) (kept.map (historyLine rt))
    (dropped.map (historyLine rt))
  told : text = strip (shown (kept.map (historyLine rt)) (dropped.map (historyLine rt)))

end

/-- A ticket was stored as it was written. -/
structure Stores (ch : ClickHouse) (session : Main.Session) (now summary : Value) (stored : Row) :
    Prop where
  ticketId : ch.write "ticket_id" (.str session.ticketId) = some (ticketCell stored "ticket_id")
  customerId : ch.write "customer_id" (session.customerProfile.getD "customer_id" (.str [])) =
    some (ticketCell stored "customer_id")
  callStartTime : ch.write "call_start_time" now = some (ticketCell stored "call_start_time")
  summary : ch.write "summary" summary = some (ticketCell stored "summary")

/-! ## No ticket is lost -/

section
variable {ch : ClickHouse} {db db' : Database}

/-- A command of a program that does not reset the database. -/
def Kept (c : Command) : Prop := Sent c ∧ ∀ table, c ≠ .dropIfExists table

theorem asks_true {E Q A α : Type} (p : Prog E Q A α) : p.Asks fun _ => True := by
  induction p with
  | done => trivial
  | raise => trivial
  | call q k ih => exact ⟨trivial, ih⟩

theorem Asks.and {E Q A α : Type} {P P' : Q → Prop} {p : Prog E Q A α} (h : p.Asks P)
    (h' : p.Asks P') : p.Asks fun q => P q ∧ P' q := by
  induction p with
  | done => trivial
  | raise => trivial
  | call q k ih => exact ⟨⟨h.1, h'.1⟩, fun ans => ih ans (h.2 ans) (h'.2 ans)⟩

theorem asks_kept {rt : Runtime} {party : Party} (h : party ≠ .deploy true) :
    (party.script rt).Asks Kept := by
  refine Asks.and (asks_script party) ?_
  have hstmt {α : Type} (handler : Handler α) : (handler.mapCalls Command.stmt).Asks
      fun c => ∀ table, c ≠ .dropIfExists table := by
    apply Prog.Asks.mapCalls
    apply (asks_true handler).mono
    rintro q - table ⟨⟩
  cases party with
  | save call => exact hstmt _
  | read table => exact (hstmt _).bind fun _ => trivial
  | load encode files => exact hstmt _
  | ticket row => exact hstmt _
  | deploy reset =>
    cases reset with
    | true => exact absurd rfl h
    | false =>
      have hconnect : ∀ table, Command.stmt .connect ≠ .dropIfExists table := by
        rintro table ⟨⟩
      refine (Prog.Asks.perform hconnect).bind fun _ => ?_
      apply asks_runAll
      rw [List.forall_mem_map]
      rintro t - table ⟨⟩
  | index =>
    have hconnect : ∀ table, Command.stmt .connect ≠ .dropIfExists table := by
      rintro table ⟨⟩
    have hallow : ∀ table, Command.allowVectorIndex ≠ .dropIfExists table := by
      rintro table ⟨⟩
    refine (Prog.Asks.perform hconnect).bind fun _ => (asks_logged hallow).bind fun _ => ?_
    refine (asks_runLogged ?_).bind fun _ => asks_runLogged ?_
    · rw [List.forall_mem_map]
      rintro t - table ⟨⟩
    · rw [List.forall_mem_map]
      rintro t - table ⟨⟩

theorem tickets_set_ne {name : Str} (h : SchemaTable.callTickets.name ≠ name) (t : Option Table) :
    tickets (setTable db name t) = tickets db := by
  rw [tickets, setTable_ne _ h, tickets]

theorem tickets_frame {q : Stmt} {a : Table} (h : exec ch db q = .ok (a, db'))
    (hw : SchemaTable.callTickets.name ∉ q.writes) : tickets db' = tickets db := by
  rw [tickets, exec_frame h hw, tickets]

theorem callTickets_ne_name (t : AdminTable) : SchemaTable.callTickets.name ≠ t.name := by
  cases t <;> decide

/-- An insert only adds tickets. -/
theorem tickets_insert {name : Str} {data : List Row} {columns : List Str} {a : Table}
    (h : exec ch db (.insert name data columns) = .ok (a, db')) : tickets db <+: tickets db' := by
  obtain ⟨table, rows, htable, _, _, rfl⟩ := exec_insert h
  by_cases hname : SchemaTable.callTickets.name = name
  · subst hname
    rw [tickets, tickets, htable, setTable_self]
    exact List.prefix_append ..
  · rw [tickets_set_ne hname]

theorem tickets_stmt {q : Stmt} (hq : SentStmt q) {a : Table}
    (h : exec ch db q = .ok (a, db')) : tickets db <+: tickets db' := by
  have hframe (hw : SchemaTable.callTickets.name ∉ q.writes) : tickets db <+: tickets db' := by
    rw [tickets_frame h hw]
  have hname := callTickets_ne_name
  have htemp := name_ne_tempName .callTickets
  cases hq with
  | connect | selectColumn column table | selectAll table =>
    apply hframe
    simp [Stmt.writes]
  | truncate t =>
    apply hframe
    simp [Stmt.writes, hname t]
  | createAs t =>
    apply hframe
    simp [Stmt.writes, htemp t]
  | exchange t =>
    apply hframe
    simp [Stmt.writes, hname t, htemp t]
  | drop t =>
    apply hframe
    simp [Stmt.writes, htemp t]
  | insert table data columns => exact tickets_insert h

theorem tickets_command {c : Command} (hc : Kept c) {a : Table}
    (h : execCommand ch db c = .ok (a, db')) : tickets db <+: tickets db' := by
  obtain ⟨hsent, hkeep⟩ := hc
  cases c with
  | stmt q => exact tickets_stmt hsent h
  | dropIfExists name => exact absurd rfl (hkeep name)
  | createIfNotExists name columns =>
    simp only [execCommand, done] at h
    split at h
    · cases h
      exact List.prefix_rfl
    · rename_i hnone
      cases h
      by_cases hname : SchemaTable.callTickets.name = name
      · subst hname
        rw [tickets, hnone]
        exact List.nil_prefix
      · rw [tickets_set_ne hname]
  | allowVectorIndex =>
    cases h
    exact List.prefix_rfl
  | addIndex name | materializeIndex name =>
    simp only [execCommand, done] at h
    split at h
    · cases h
      exact List.prefix_rfl
    · cases h

theorem tickets_served {c : Command} (hc : Kept c) {ans : Except Exn Table}
    (h : ServeCommand ch db c ans db') : tickets db <+: tickets db' := by
  cases h with
  | answered hexec => exact tickets_command hc hexec
  | refused e => exact List.prefix_rfl
  | lost e hexec => exact tickets_command hc hexec

end

/-! ## A ticket that is saved -/

def SavedIn (ch : ClickHouse) (db : Database) (row : Row) : Prop :=
  ∃ stored ∈ tickets db,
    storeRow ch SchemaTable.callTickets.columns Main.ticketColumns row = some stored

/-- How far the program that inserts a ticket is. -/
inductive TicketStage (ch : ClickHouse) (db : Database) (row : Row) (script : SqlScript Unit) : Prop
  | begun : script = (insertTicket row).mapCalls .stmt → TicketStage ch db row script
  | connected : script = ((do
      let _ ← Prog.perform (.insert "call_tickets" [row] Main.ticketColumns)
      pure () : Handler Unit)).mapCalls .stmt → TicketStage ch db row script
  | saved : script = .done () → SavedIn ch db row → TicketStage ch db row script
  | failed (e : Exn) : script = .raise e → TicketStage ch db row script

section
variable {ch : ClickHouse} {db db' : Database} {row : Row} {script : SqlScript Unit}

theorem SavedIn.grow (h : SavedIn ch db row) (hgrow : tickets db <+: tickets db') :
    SavedIn ch db' row := by
  obtain ⟨stored, hmem, hstored⟩ := h
  exact ⟨stored, hgrow.subset hmem, hstored⟩

theorem TicketStage.grow (h : TicketStage ch db row script)
    (hgrow : tickets db <+: tickets db') : TicketStage ch db' row script := by
  cases h with
  | begun hscript => exact .begun hscript
  | connected hscript => exact .connected hscript
  | saved hscript hsaved => exact .saved hscript (hsaved.grow hgrow)
  | failed e hscript => exact .failed e hscript

/-- An insert that was answered has stored the ticket. -/
theorem savedIn_of_insert (hsound : Sound ch db) {a : Table}
    (h : exec ch db (.insert "call_tickets" [row] Main.ticketColumns) = .ok (a, db')) :
    SavedIn ch db' row := by
  obtain ⟨table, rows, htable, _, hrows, rfl⟩ := exec_insert h
  have hcolumns := (hsound.table .callTickets table htable).columns_eq
  have htickets : tickets (setTable db "call_tickets" (some ⟨table.columns, table.rows ++ rows⟩)) =
      table.rows ++ rows := congrArg (fun t => (t.map Table.rows).getD []) (setTable_self ..)
  rw [hcolumns] at hrows
  cases forall₂_of_mapM hrows with
  | @cons _ stored _ rest hstored =>
    refine ⟨stored, ?_, hstored⟩
    rw [htickets]
    exact List.mem_append_right _ List.mem_cons_self

/-- The next call of the program that inserts a ticket. -/
theorem TicketStage.serve {c : Command} {k : Except Exn Table → SqlScript Unit}
    (h : TicketStage ch db row (.call c k)) (hsound : Sound ch db) {ans : Except Exn Table}
    (hserve : ServeCommand ch db c ans db') : TicketStage ch db' row (k ans) := by
  cases h with
  | begun hscript =>
    cases hscript
    cases ans with
    | ok a => exact .connected rfl
    | error e => exact .failed e rfl
  | connected hscript =>
    cases hscript
    cases ans with
    | ok a =>
      cases hserve with
      | answered hexec => exact .saved rfl (savedIn_of_insert hsound hexec)
    | error e => exact .failed e rfl
  | saved hscript _ => cases hscript
  | failed e hscript => cases hscript

end

section
variable {ι : Type} [DecidableEq ι] {rt : Runtime} {ch : ClickHouse} {parties : ι → Party}
  {db₀ : Database} {p : Pool ι Database Exn Command Table Unit}

theorem ticket_stage (hkeep : ∀ i, parties i ≠ .deploy true) (hstart : Sound ch db₀)
    (h : Pool.Reachable (ServeCommand ch) db₀ (fun i => (parties i).script rt) p) {i : ι} {row : Row}
    (hi : parties i = .ticket row) : TicketStage ch p.store row (p.progs i) := by
  have hinv : Sound ch p.store ∧ (∀ j, (p.progs j).Asks Kept) ∧
      TicketStage ch p.store row (p.progs i) := by
    refine h.invariant (fun p => Sound ch p.store ∧ (∀ j, (p.progs j).Asks Kept) ∧
      TicketStage ch p.store row (p.progs i)) ?_ ?_
    · refine ⟨hstart, fun j => asks_kept (hkeep j), .begun ?_⟩
      show (parties i).script rt = _
      rw [hi]
      rfl
    · intro p p' ⟨hsound, hasks, hstage⟩ hstep
      cases hstep with
      | @serve j c k ans db' hcall hserved =>
        have hprog := hasks j
        rw [hcall] at hprog
        refine ⟨sound_served hsound hprog.1.1 hserved, fun l => ?_, ?_⟩
        · show (Function.update p.progs j (k ans) l).Asks Kept
          by_cases hl : l = j
          · rw [hl, Function.update_self]
            exact hprog.2 ans
          · rw [Function.update_of_ne hl]
            exact hasks l
        · show TicketStage ch db' row (Function.update p.progs j (k ans) i)
          by_cases hij : i = j
          · subst hij
            rw [hcall] at hstage
            rw [Function.update_self]
            exact hstage.serve hsound hserved
          · rw [Function.update_of_ne hij]
            exact hstage.grow (tickets_served hprog.1 hserved)
  exact hinv.2.2

end

/-! ## What is recalled -/

/-- What the statement's answer is shown as. -/
theorem history_of_answers {time : Value → ℕ} {rt : Runtime} {db : Database} {customerId : Str}
    {answer : List (Cells 3)} (h : AnswersHistory time db customerId answer) :
    ∃ kept dropped, History time rt db customerId kept dropped
      (renderRows (answer.map (ticketLine rt))) := by
  obtain ⟨rows, hperm, hsorted, rfl⟩ := h
  have hlines : (rows.map historyCells).map (ticketLine rt) = rows.map (historyLine rt) := by
    rw [List.map_map]
    rfl
  rw [hlines]
  obtain ⟨kept, dropped, hcut, htext⟩ := truncated_renderRows (rows.map (historyLine rt))
  obtain ⟨keptRows, droppedRows, rfl, rfl, rfl⟩ := List.map_eq_append_iff.mp hcut.split
  exact ⟨keptRows, droppedRows, hperm, hsorted, hcut, htext⟩

theorem ticketCustomer_of_cell {row : Row} {customerId : Str}
    (h : ticketCell row "customer_id" = .str customerId) : ticketCustomer row = some customerId := by
  unfold ticketCell at h
  unfold ticketCustomer Table.text Table.cell
  cases hget : Dict.get? (SchemaTable.callTickets.columns.zip row) "customer_id" with
  | none =>
    rw [hget] at h
    cases h
  | some v =>
    rw [hget] at h
    rw [show v = .str customerId from h]

theorem ticketCell_of_storeRow {ch : ClickHouse} {columns : List Str} {vals stored : Row}
    (h : storeRow ch SchemaTable.callTickets.columns columns vals = some stored) {column : Str}
    (hcolumn : column ∈ SchemaTable.callTickets.columns) {v : Value}
    (hv : Dict.get? (columns.zip vals) column = some v) :
    ch.write column v = some (ticketCell stored column) := by
  obtain ⟨w, hwrite, hget⟩ := Dict.get?_zip_mapM h hcolumn
  rw [hv] at hwrite
  rw [ticketCell, hget]
  exact hwrite

theorem stores_of_storeRow {ch : ClickHouse} {session : Main.Session} {now : Value}
    {fullTranscript : Str} {summary embedding : Value} {stored : Row}
    (h : storeRow ch SchemaTable.callTickets.columns Main.ticketColumns
      (Main.ticketRow now session fullTranscript summary embedding) = some stored) :
    Stores ch session now summary stored where
  ticketId := ticketCell_of_storeRow h (by decide) rfl
  customerId := ticketCell_of_storeRow h (by decide) rfl
  callStartTime := ticketCell_of_storeRow h (by decide) rfl
  summary := ticketCell_of_storeRow h (by decide) rfl

/-- **What later calls recall.** Whatever saves, loads, deployments without a
reset, index builds and ends of other calls are interleaved, and whatever of
them fails: what a call of a customer is told of the calls before it are the
customer's own tickets, newest first and as many as fit, and the ticket of
every call of theirs whose insert has returned is one of those tickets, with the
id, the time and the summary it was written with. -/
theorem calls_recalled (rt : Runtime) (ch : ClickHouse) (time : Value → ℕ) {ι : Type}
    [DecidableEq ι] (parties : ι → Party) (hkeep : ∀ i, parties i ≠ .deploy true) {db₀ : Database}
    (hstart : Sound ch db₀) {p : Pool ι Database Exn Command Table Unit}
    (h : Pool.Reachable (ServeCommand ch) db₀ (fun i => (parties i).script rt) p)
    {svc : Services} (hclient : svc.getClient = .ok ()) {customerId : Str}
    {answer : List (Cells 3)}
    (hselect : svc.select 0 3 historySql [("cid", .str customerId)] = .ok answer)
    (hanswer : AnswersHistory time p.store customerId answer) :
    ∃ kept dropped text, getHistoryContext rt svc (.str customerId) = .ok text ∧
      History time rt p.store customerId kept dropped text ∧
      ∀ i now session fullTranscript summary embedding,
        parties i = .ticket (Main.ticketRow now session fullTranscript summary embedding) →
        p.progs i = .done () →
        ch.write "customer_id" (session.customerProfile.getD "customer_id" (.str [])) =
          some (.str customerId) →
        ∃ stored ∈ kept ++ dropped, Stores ch session now summary stored := by
  obtain ⟨kept, dropped, hhistory⟩ : ∃ kept dropped, History time rt p.store customerId kept
      dropped (renderRows (answer.map (ticketLine rt))) := history_of_answers hanswer
  refine ⟨kept, dropped, _, ?_, hhistory, ?_⟩
  · simp only [getHistoryContext, hclient, hselect, bind, Except.bind]
  · intro i now session fullTranscript summary embedding hparty hdone hcustomer
    have hstage := ticket_stage hkeep hstart h hparty
    rw [hdone] at hstage
    cases hstage with
    | begun hscript => cases hscript
    | connected hscript => cases hscript
    | failed e hscript => cases hscript
    | saved _ hsaved =>
      obtain ⟨stored, hmem, hstored⟩ := hsaved
      have hstores := stores_of_storeRow hstored
      refine ⟨stored, hhistory.own.symm.subset ?_, hstores⟩
      have hcell : ticketCell stored "customer_id" = .str customerId :=
        Option.some.inj (hstores.customerId.symm.trans hcustomer)
      exact List.mem_filter.mpr ⟨hmem, decide_eq_true (ticketCustomer_of_cell hcell)⟩

/-- The ticket of a customer's first call, and nothing else. -/
def firstCall : Main.Session :=
  ⟨"TKT-1", "session", [("customer_id", .str "CUST-001")], [], true⟩

def firstTicket : Unit → Party := fun _ =>
  .ticket (Main.ticketRow (.int 1) firstCall "User: Hi." (.str "A greeting.") (.list []))

def emptyTickets : Database :=
  setTable (fun _ => none) SchemaTable.callTickets.name (some ⟨SchemaTable.callTickets.columns, []⟩)

def ticketedStore : Pool Unit Database Exn Command Table Unit :=
  Pool.play (answerCommand demoClickHouse .none) [(), ()]
    ⟨emptyTickets, fun i => (firstTicket i).script Runtime.ascii, []⟩

/-- The column holds the times of the calls in seconds. -/
def secondsOf : Value → ℕ
  | .int n => n.toNat
  | _ => 0

def recalling : Services :=
  { timingOut with
    select := fun _ width _ _ => match width with
      | 3 => .ok ((ticketsOf ticketedStore.store "CUST-001").map historyCells)
      | _ => .ok [] }

theorem calls_recalled_firstCall : ∃ kept dropped text,
    getHistoryContext Runtime.ascii recalling (.str "CUST-001") = .ok text ∧
      History secondsOf Runtime.ascii ticketedStore.store "CUST-001" kept dropped text ∧
      ∃ stored ∈ kept ++ dropped, Stores demoClickHouse firstCall (.int 1) (.str "A greeting.")
        stored := by
  have hsound : Sound demoClickHouse emptyTickets :=
    (sound_empty demoClickHouse).replaced .callTickets ⟨rfl, fun _ hrow => by cases hrow⟩
  have hone : (ticketsOf ticketedStore.store "CUST-001").length = 1 := rfl
  have hsorted : (ticketsOf ticketedStore.store "CUST-001").Pairwise (NewestFirst secondsOf) := by
    obtain ⟨row, hrow⟩ := List.length_eq_one_iff.mp hone
    rw [hrow]
    exact List.pairwise_singleton ..
  have hclient : recalling.getClient = .ok () := rfl
  have hselect : recalling.select 0 3 historySql [("cid", .str "CUST-001")] =
    .ok ((ticketsOf ticketedStore.store "CUST-001").map historyCells) := rfl
  obtain ⟨kept, dropped, text, htext, hhistory, hall⟩ :=
    calls_recalled Runtime.ascii demoClickHouse secondsOf firstTicket (fun _ h => by cases h) hsound
      (Pool.Reachable.start.play (answerCommand_serves demoClickHouse .none) _) hclient hselect
      ⟨_, .refl _, hsorted, rfl⟩
  exact ⟨kept, dropped, text, htext, hhistory, hall () _ firstCall _ _ _ rfl rfl rfl⟩

end TechMart.Db
