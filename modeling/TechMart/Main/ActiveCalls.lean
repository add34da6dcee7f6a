import TechMart.Main.AnswerXml
import TechMart.Python.Prog
import TechMart.Bot.Adapter

/-!
# Active calls

`active_calls` is written by `get_vobiz_xml` and by two places of
`handle_websocket`: where the session is bound to its call, and the `finally`
block of the runner. Any number of requests and sessions are interleaved
between their awaits; `tracked_iff` says which steps keep the entries and the
live calls together.
-/

namespace TechMart.Main.ActiveCalls

open Python Web TechMart.Bot

inductive Status where
  | initiated
  | active
  deriving DecidableEq

/-- A value of `active_calls`; `websocket` is whether a socket was stored. -/
structure Entry where
  status : Status
  websocket : Bool

/-- What a value is as a key: a number of any type is the same key, and so is
the one `NaN` of the JSON parser. -/
inductive Key where
  | none
  | number (q : ℚ)
  | inf (negative : Bool)
  | nan
  | text (s : Str)
  | date (year month day : ℕ)
  deriving DecidableEq

/-- Lists and dictionaries are unhashable. -/
def Key.of? : Value → Option Key
  | .none => some .none
  | .bool b => some (.number (if b then 1 else 0))
  | .int n => some (.number n)
  | .float (.finite q) => some (.number q)
  | .float (.inf negative) => some (.inf negative)
  | .float .nan => some .nan
  | .str s => some (.text s)
  | .date y m d => some (.date y m d)
  | .list _ | .dict _ => Option.none

abbrev Calls := Key → Option Entry

inductive ClientType where
  | web
  | vobiz
  deriving DecidableEq

/-- What a websocket endpoint passes to `handle_websocket`. -/
structure Connection where
  clientType : ClientType
  phoneNumber : Str
  queryParams : Dict Str

/-- What the two handlers do: an await, or a statement on `active_calls`. -/
inductive Op where
  | register (request : Request)
  | accept
  | receiveStart
  | parseVobizStart
  | fetchProfile (number : Str)
  | bindCall (uuid : Value)
  | createPipeline
  | addWorkers
  | runWorkers
  | initiateTicket
  | deleteCall (uuid : Value)

abbrev Handler (α : Type) := Prog Raised Op Value α

/-! ## The handlers -/

/-- `get_vobiz_xml`, once it has read the request. -/
def vobizXml (request : Request) : Handler Unit := do
  let _ ← Prog.perform (.register request)
  pure ()

/-- `except WebSocketDisconnect` and `except Exception`: both only print. -/
def exceptException : Raised → Handler Unit
  | .exception _ => .done ()
  | .cancelled => .raise .cancelled

/-- The call id of the start frame, `none` where the handler returns on a bad
one. The frame of a web client is not guarded. -/
def startFrame : ClientType → Handler (Option Value)
  | .web => do
    let callId ← Prog.perform .receiveStart
    pure (some callId)
  | .vobiz => (do
      let callId ← Prog.perform .parseVobizStart
      pure (some callId) : Handler (Option Value)).tryCatch fun
    | .exception _ => .done none
    | .cancelled => .raise .cancelled

/-- `query_call_uuid`. -/
def queryCallUuid (c : Connection) (callId : Value) : Value :=
  match c.queryParams.get? "CallUUID" with
  | some uuid => .str uuid
  | none => callId

/-- The `finally` block. -/
def finalBlock (uuid : Value) : Handler Unit := do
  let _ ← (do
    let _ ← Prog.perform .initiateTicket
    pure () : Handler Unit).tryCatch exceptException
  let _ ← Prog.perform (.deleteCall uuid)
  pure ()

/-- The runner; the pipeline and the runner itself exist by now. -/
def runPipeline (uuid : Value) : Handler Unit :=
  ((do
    let _ ← Prog.perform .addWorkers
    let _ ← Prog.perform .runWorkers
    pure () : Handler Unit).tryCatch exceptException).tryFinally (finalBlock uuid)

/-- From the lookup in `active_calls` on. -/
def runSession (uuid : Value) : Handler Unit := do
  let _ ← Prog.perform (.bindCall uuid)
  let _ ← Prog.perform .createPipeline
  runPipeline uuid

def started (u : Unicode) (c : Connection) : Option Value → Handler Unit
  | none => pure ()
  | some callId => do
    let caller := callerPhone c.queryParams c.phoneNumber
    if caller.isEmpty then runSession (queryCallUuid c callId)
    else do
      let _ ← Prog.perform (.fetchProfile (coreNumber u caller))
      runSession (queryCallUuid c callId)

def handleWebsocket (u : Unicode) (c : Connection) : Handler Unit := do
  let _ ← Prog.perform .accept
  let start ← startFrame c.clientType
  started u c start

/-! ## The statements -/

/-- The key `get_vobiz_xml` puts into `active_calls`. -/
def registered (rt : Runtime) (request : Request) : Option Key :=
  match getVobizXml rt request with
  | .ok ⟨_, some uuid⟩ => Key.of? uuid
  | _ => none

def unhashable : Raised := .exception ⟨"unhashable type"⟩

/-- `if query_call_uuid and query_call_uuid in active_calls: …`, and whether
the entry was there. -/
def bindCall (calls : Calls) (uuid : Value) : Except Raised Value × Calls :=
  if uuid.truthy then
    match Key.of? uuid with
    | none => (.error unhashable, calls)
    | some key => match calls key with
      | some _ => (.ok (.bool true), Function.update calls key (some ⟨.active, true⟩))
      | none => (.ok (.bool false), calls)
  else (.ok (.bool false), calls)

/-- `if query_call_uuid in active_calls: del active_calls[query_call_uuid]`. -/
def deleteCall (calls : Calls) (uuid : Value) : Except Raised Value × Calls :=
  match Key.of? uuid with
  | none => (.error unhashable, calls)
  | some key => (.ok .none, Function.update calls key none)

/-- How an operation can come back, and `active_calls` after it. What is
awaited can raise anything or be cancelled; what is not awaited is never
cancelled. -/
inductive Serve (rt : Runtime) (calls : Calls) : Op → Except Raised Value → Calls → Prop
  | register (request : Request) (ans : Except Raised Value) :
      Serve rt calls (.register request) ans (match registered rt request with
        | some uuid => Function.update calls uuid (some ⟨.initiated, false⟩)
        | none => calls)
  | accept (ans : Except Raised Value) : Serve rt calls .accept ans calls
  | receiveStart (ans : Except Raised Value) : Serve rt calls .receiveStart ans calls
  | parseVobizStart (ans : Except Raised Value) : Serve rt calls .parseVobizStart ans calls
  | fetchProfile (number : Str) (ans : Except Raised Value) :
      Serve rt calls (.fetchProfile number) ans calls
  | bindCall (uuid : Value) :
      Serve rt calls (.bindCall uuid) (bindCall calls uuid).1 (bindCall calls uuid).2
  | created (v : Value) : Serve rt calls .createPipeline (.ok v) calls
  | creationFailed (e : Exn) : Serve rt calls .createPipeline (.error (.exception e)) calls
  | addWorkers (ans : Except Raised Value) : Serve rt calls .addWorkers ans calls
  | runWorkers (ans : Except Raised Value) : Serve rt calls .runWorkers ans calls
  | ticket (v : Value) : Serve rt calls .initiateTicket (.ok v) calls
  | ticketFailed (e : Exn) : Serve rt calls .initiateTicket (.error (.exception e)) calls
  | deleteCall (uuid : Value) :
      Serve rt calls (.deleteCall uuid) (deleteCall calls uuid).1 (deleteCall calls uuid).2

/-! ## Sessions and calls -/

/-- One of the interleaved handlers. -/
inductive Party where
  | request (request : Request)
  | session (connection : Connection)

/-! ## Phases -/

/-- Where a handler stands: what it does next, or how it ended. `pending` is
what the `finally` block raises again. -/
inductive Phase where
  | registering (request : Request)
  | accepting (c : Connection)
  | starting (c : Connection)
  | fetching (number : Str) (uuid : Value)
  | binding (uuid : Value)
  | creating (uuid : Value)
  | adding (uuid : Value)
  | running (uuid : Value)
  | recording (uuid : Value) (pending : Option Raised)
  | deleting (uuid : Value) (pending : Option Raised)
  | returned
  | raised (e : Raised)

namespace Phase

def op : Phase → Option Op
  | registering request => some (.register request)
  | accepting _ => some .accept
  | starting c => match c.clientType with
    | .web => some .receiveStart
    | .vobiz => some .parseVobizStart
  | fetching number _ => some (.fetchProfile number)
  | binding uuid => some (.bindCall uuid)
  | creating _ => some .createPipeline
  | adding _ => some .addWorkers
  | running _ => some .runWorkers
  | recording _ _ => some .initiateTicket
  | deleting uuid _ => some (.deleteCall uuid)
  | returned | raised _ => none

def ofPending : Option Raised → Phase
  | none => returned
  | some e => raised e

/-- What `except` leaves to the `finally` block. -/
def caught (uuid : Value) : Raised → Phase
  | .exception _ => recording uuid none
  | .cancelled => recording uuid (some .cancelled)

def afterStart (u : Unicode) (c : Connection) (callId : Value) : Phase :=
  let caller := callerPhone c.queryParams c.phoneNumber
  if caller.isEmpty then binding (queryCallUuid c callId)
  else fetching (coreNumber u caller) (queryCallUuid c callId)

def after (u : Unicode) : Phase → Except Raised Value → Phase
  | registering _, .ok _ => returned
  | accepting c, .ok _ => starting c
  | starting c, .ok callId => afterStart u c callId
  | starting c, .error e => match c.clientType, e with
    | .vobiz, .exception _ => returned
    | _, e => raised e
  | fetching _ uuid, .ok _ => binding uuid
  | binding uuid, .ok _ => creating uuid
  | creating uuid, .ok _ => adding uuid
  | adding uuid, .ok _ => running uuid
  | adding uuid, .error e => caught uuid e
  | running uuid, .ok _ => recording uuid none
  | running uuid, .error e => caught uuid e
  | recording uuid pending, .ok _ => deleting uuid pending
  | recording uuid pending, .error (.exception _) => deleting uuid pending
  | deleting _ pending, .ok _ => ofPending pending
  | returned, _ => returned
  | _, .error e => raised e
  | raised e, .ok _ => raised e

/-- The rest of the handler in each phase. -/
def prog (u : Unicode) : Phase → Handler Unit
  | registering request => vobizXml request
  | accepting c => handleWebsocket u c
  | starting c => startFrame c.clientType >>= started u c
  | fetching number uuid => Prog.perform (.fetchProfile number) >>= fun _ => runSession uuid
  | binding uuid => runSession uuid
  | creating uuid => Prog.perform .createPipeline >>= fun _ => runPipeline uuid
  | adding uuid => runPipeline uuid
  | running uuid => ((do
      let _ ← Prog.perform .runWorkers
      pure () : Handler Unit).tryCatch exceptException).tryFinally (finalBlock uuid)
  | recording uuid pending => (finalBlock uuid).bind fun _ => match pending with
    | none => .done ()
    | some e => .raise e
  | deleting uuid pending => (do
      let _ ← Prog.perform (.deleteCall uuid)
      pure () : Handler Unit).bind fun _ => match pending with
    | none => .done ()
    | some e => .raise e
  | returned => .done ()
  | raised e => .raise e

theorem prog_afterStart (u : Unicode) (c : Connection) (callId : Value) :
    (afterStart u c callId).prog u = started u c (some callId) := by
  simp only [afterStart, started]
  split <;> rfl

/-- The handler in a phase does that phase's operation and goes on as the
phase after the answer. -/
theorem prog_eq (u : Unicode) (ph : Phase) {q : Op} (h : ph.op = some q) :
    ph.prog u = .call q fun ans => (ph.after u ans).prog u := by
  cases ph with
  | registering | accepting | fetching | binding | creating | adding =>
    cases h
    refine congrArg (Prog.call _) (funext fun ans => ?_)
    rcases ans with ⟨_ | _⟩ | _ <;> rfl
  | running =>
    cases h
    refine congrArg (Prog.call _) (funext fun ans => ?_)
    rcases ans with ⟨_ | _⟩ | _ <;> rfl
  | recording uuid pending | deleting uuid pending =>
    cases h
    refine congrArg (Prog.call _) (funext fun ans => ?_)
    rcases ans with ⟨_ | _⟩ | _ <;> cases pending <;> rfl
  | starting c =>
    obtain ⟨clientType, phoneNumber, queryParams⟩ := c
    cases clientType <;> cases h
    · refine congrArg (Prog.call _) (funext fun ans => ?_)
      rcases ans with ⟨_ | _⟩ | callId
      · rfl
      · rfl
      · exact (prog_afterStart u _ callId).symm
    · refine congrArg (Prog.call _) (funext fun ans => ?_)
      rcases ans with ⟨_ | _⟩ | callId
      · rfl
      · rfl
      · exact (prog_afterStart u _ callId).symm
  | returned | raised => cases h

theorem prog_call (u : Unicode) (ph : Phase) {q : Op} {k : Except Raised Value → Handler Unit}
    (h : ph.prog u = .call q k) :
    ph.op = some q ∧ ∀ ans, k ans = (ph.after u ans).prog u := by
  cases hs : ph.op with
  | none =>
    cases ph with
    | starting c => cases hc : c.clientType <;> simp [op, hc] at hs
    | returned | raised => cases h
    | _ => cases hs
  | some q' =>
    rw [prog_eq u ph hs] at h
    cases h
    exact ⟨rfl, fun _ => rfl⟩

end Phase

/-! ## Calls and their sessions -/

section
variable {ι : Type} (rt : Runtime) (parties : ι → Party)

abbrev Server (ι : Type) := Pool ι Calls Raised Op Value Unit

abbrev Log (ι : Type) := List (ι × Op × Except Raised Value)

def handlers (i : ι) : Handler Unit :=
  match parties i with
  | .request request => vobizXml request
  | .session c => handleWebsocket rt.toUnicode c

/-- The handler has not come to its end. -/
def Running (p : Server ι) (i : ι) : Prop := ∃ q k, p.progs i = .call q k

/-- The session is one of this call: its socket was opened under the UUID, or
under none and the start frame gave it. -/
def SessionOf (log : Log ι) (uuid : Key) (i : ι) : Prop :=
  ∃ c, parties i = .session c ∧
    match c.queryParams.get? "CallUUID" with
    | some text => Key.text text = uuid ∧ ∃ ans, (i, Op.accept, ans) ∈ log
    | none => ∃ q callId, (q = Op.receiveStart ∨ q = .parseVobizStart) ∧
      Key.of? callId = some uuid ∧ (i, q, .ok callId) ∈ log

/-- The session found the entry of the call and stored its socket there. -/
def BoundTo (log : Log ι) (uuid : Key) (i : ι) : Prop :=
  ∃ key, Key.of? key = some uuid ∧ (i, Op.bindCall key, .ok (.bool true)) ∈ log

def Present (calls : Calls) (uuid : Key) : Prop := (calls uuid).isSome = true

/-- The entry is there while a session bound to the call runs, and is gone
once the call has had a session and none runs. -/
structure Tracked (p : Server ι) (uuid : Key) : Prop where
  present : ∀ i, BoundTo p.log uuid i → Running p i → Present p.store uuid
  absent : (∃ i, SessionOf parties p.log uuid i) →
    (∀ i, SessionOf parties p.log uuid i → ¬ Running p i) → ¬ Present p.store uuid

/-- An operation that keeps entry and call together. A request for the call comes
before its first session or while one runs. A `finally` block is run when no
other session bound to the call is running. A session that ends before its
`finally` block finds no entry, or leaves another one running. -/
def CarefulOp (p p' : Server ι) (uuid : Key) (i : ι) : Op → Prop
  | .register request => registered rt request = some uuid →
    (∃ j, SessionOf parties p.log uuid j) → ∃ j, SessionOf parties p.log uuid j ∧ Running p j
  | .deleteCall key => Key.of? key = some uuid → ∀ j, BoundTo p.log uuid j → Running p j → j = i
  | _ => ¬ Running p' i → SessionOf parties p'.log uuid i → Present p.store uuid →
    ∃ j, SessionOf parties p'.log uuid j ∧ Running p' j

def Careful (p p' : Server ι) (uuid : Key) : Prop :=
  ∀ i q ans, p'.log = p.log ++ [(i, q, ans)] → CarefulOp rt parties p p' uuid i q

/-! ## The entries after an operation -/

variable {rt parties}

theorem present_update (calls : Calls) (key uuid : Key) (entry : Option Entry) :
    Present (Function.update calls key entry) uuid ↔
      if uuid = key then entry.isSome = true else Present calls uuid := by
  unfold Present
  by_cases huuid : uuid = key
  · rw [if_pos huuid, huuid, Function.update_self]
  · rw [if_neg huuid, Function.update_of_ne huuid]

theorem present_bindCall (calls : Calls) (key : Value) (uuid : Key) :
    Present (bindCall calls key).2 uuid ↔ Present calls uuid := by
  unfold bindCall
  split
  · split
    · rfl
    · rename_i key hkey
      split
      · rename_i entry hentry
        rw [present_update]
        by_cases huuid : uuid = key
        · rw [if_pos huuid, huuid, Present, hentry]
          exact Iff.rfl
        · rw [if_neg huuid]
      · rfl
  · rfl

/-- Only an entry that is there is found. -/
theorem present_of_bound {calls calls' : Calls} {key : Value} {uuid : Key}
    (h : Serve rt calls (.bindCall key) (.ok (.bool true)) calls')
    (hkey : Key.of? key = some uuid) : Present calls uuid := by
  generalize hans : (.ok (.bool true) : Except Raised Value) = ans at h
  cases h
  unfold bindCall at hans
  rw [hkey] at hans
  split at hans
  · simp only at hans
    split at hans
    · rename_i entry hentry
      rw [Present, hentry]
      rfl
    · cases hans
  · cases hans

/-- A request registers its call. -/
theorem serve_register {calls calls' : Calls} {request : Request} {ans : Except Raised Value}
    (h : Serve rt calls (.register request) ans calls') (uuid : Key) :
    Present calls' uuid ↔ registered rt request = some uuid ∨ Present calls uuid := by
  cases h
  cases hkey : registered rt request with
  | none => simp
  | some key =>
    simp only [present_update, Option.some.injEq, Option.isSome_some]
    by_cases huuid : uuid = key
    · simp [huuid]
    · simp [huuid, Ne.symm huuid]

/-- The `finally` block deletes its call. -/
theorem serve_delete {calls calls' : Calls} {key : Value} {ans : Except Raised Value}
    (h : Serve rt calls (.deleteCall key) ans calls') (uuid : Key) :
    Present calls' uuid ↔ Key.of? key ≠ some uuid ∧ Present calls uuid := by
  cases h
  unfold deleteCall
  cases hkey : Key.of? key with
  | none => simp
  | some key =>
    simp only [present_update, ne_eq, Option.some.injEq]
    by_cases huuid : uuid = key
    · simp [huuid]
    · simp [huuid, Ne.symm huuid]

/-- Nothing else adds or removes an entry. -/
theorem serve_other {calls calls' : Calls} {q : Op} {ans : Except Raised Value}
    (h : Serve rt calls q ans calls') (hregister : ∀ request, q ≠ .register request)
    (hdelete : ∀ key, q ≠ .deleteCall key) (uuid : Key) :
    Present calls' uuid ↔ Present calls uuid := by
  cases h with
  | register request => exact absurd rfl (hregister request)
  | deleteCall key => exact absurd rfl (hdelete key)
  | bindCall key => exact present_bindCall calls key uuid
  | _ => rfl

/-! ## What a handler knows -/

/-- The operations that tell which call a session is of. -/
def Op.opensSession : Op → Bool
  | .accept | .receiveStart | .parseVobizStart => true
  | _ => false

theorem mem_snoc {log : Log ι} {i j : ι} {q q' : Op} {ans ans' : Except Raised Value} :
    (j, q', ans') ∈ log ++ [(i, q, ans)] ↔
      (j, q', ans') ∈ log ∨ j = i ∧ q' = q ∧ ans' = ans := by
  simp

theorem sessionOf_snoc {log : Log ι} {uuid : Key} {i j : ι} {q : Op} {ans : Except Raised Value}
    (h : j ≠ i ∨ q.opensSession = false) :
    SessionOf parties (log ++ [(i, q, ans)]) uuid j ↔ SessionOf parties log uuid j := by
  have hold {q' : Op} {ans' : Except Raised Value} (hq' : q'.opensSession = true) :
      (j, q', ans') ∈ log ++ [(i, q, ans)] ↔ (j, q', ans') ∈ log := by
    rw [mem_snoc]
    constructor
    · rintro (hmem | ⟨rfl, rfl, -⟩)
      · exact hmem
      · rcases h with h | h
        · exact absurd rfl h
        · rw [h] at hq'
          cases hq'
    · exact Or.inl
  unfold SessionOf
  refine exists_congr fun c => and_congr_right fun _ => ?_
  split
  · exact and_congr_right fun _ => exists_congr fun _ => hold rfl
  · refine exists_congr fun q' => exists_congr fun callId => and_congr_right fun hq' =>
      and_congr_right fun _ => ?_
    rcases hq' with rfl | rfl
    · exact hold rfl
    · exact hold rfl

theorem boundTo_snoc {log : Log ι} {uuid : Key} {i j : ι} {q : Op} {ans : Except Raised Value}
    (h : ∀ key, q ≠ .bindCall key) :
    BoundTo (log ++ [(i, q, ans)]) uuid j ↔ BoundTo log uuid j := by
  refine exists_congr fun key => and_congr_right fun _ => ?_
  rw [mem_snoc]
  constructor
  · rintro (hmem | ⟨-, hbind, -⟩)
    · exact hmem
    · exact absurd hbind.symm (h key)
  · exact Or.inl

theorem SessionOf.mono {log log' : Log ι} {uuid : Key} {i : ι} (h : SessionOf parties log uuid i)
    (hlog : log ⊆ log') : SessionOf parties log' uuid i := by
  obtain ⟨c, hparty, hopened⟩ := h
  refine ⟨c, hparty, ?_⟩
  split at hopened
  · exact ⟨hopened.1, hopened.2.imp fun _ hmem => hlog hmem⟩
  · exact hopened.imp fun _ hframe => hframe.imp fun _ hmem => ⟨hmem.1, hmem.2.1, hlog hmem.2.2⟩

/-- The session is of the call `uuid` names, and was bound to no other. -/
def OfUuid (parties : ι → Party) (log : Log ι) (i : ι) (uuid : Value) : Prop :=
  (∀ key, SessionOf parties log key i ↔ Key.of? uuid = some key) ∧
  ∀ key, BoundTo log key i → Key.of? uuid = some key

/-- What the log says of a handler in each phase. -/
def Knows (parties : ι → Party) (log : Log ι) (i : ι) : Phase → Prop
  | .registering request => parties i = .request request
  | .accepting c => parties i = .session c ∧ ∀ q ans, (i, q, ans) ∉ log
  | .starting c => parties i = .session c ∧ (∃ ans, (i, Op.accept, ans) ∈ log) ∧
    ∀ q ans, (i, q, ans) ∈ log → q = .accept
  | .fetching _ uuid | .binding uuid | .creating uuid | .adding uuid | .running uuid
  | .recording uuid _ | .deleting uuid _ => OfUuid parties log i uuid
  | .returned | .raised _ => True

theorem ofUuid_snoc {log : Log ι} {i j : ι} {q : Op} {ans : Except Raised Value} {uuid : Value}
    (h : OfUuid parties log j uuid)
    (hq : j ≠ i ∨ q.opensSession = false ∧ ∀ key, q = .bindCall key → key = uuid) :
    OfUuid parties (log ++ [(i, q, ans)]) j uuid := by
  obtain ⟨hsession, hbound⟩ := h
  constructor
  · intro key
    rw [sessionOf_snoc (hq.imp_right And.left)]
    exact hsession key
  · rintro key ⟨bound, hof, hmem⟩
    rcases mem_snoc.mp hmem with hmem | ⟨rfl, rfl, -⟩
    · exact hbound key ⟨bound, hof, hmem⟩
    · rcases hq with hne | ⟨-, hkey⟩
      · exact absurd rfl hne
      · rw [← hkey bound rfl]
        exact hof

/-- What one handler does is nothing to another. -/
theorem knows_other {log : Log ι} {i j : ι} (hij : j ≠ i) {q : Op} {ans : Except Raised Value}
    {ph : Phase} (h : Knows parties log j ph) : Knows parties (log ++ [(i, q, ans)]) j ph := by
  have hold {q' : Op} {ans' : Except Raised Value} :
      (j, q', ans') ∈ log ++ [(i, q, ans)] ↔ (j, q', ans') ∈ log := by
    simp [hij]
  cases ph with
  | registering | returned | raised => exact h
  | accepting c => exact ⟨h.1, fun q' ans' hmem => h.2 q' ans' (hold.mp hmem)⟩
  | starting c =>
    obtain ⟨hparty, ⟨ans', hans'⟩, hall⟩ := h
    exact ⟨hparty, ⟨ans', hold.mpr hans'⟩, fun q' ans' hmem => hall q' ans' (hold.mp hmem)⟩
  | fetching | binding | creating | adding | running | recording | deleting =>
    exact ofUuid_snoc h (Or.inl hij)

/-- The start frame settles which call the session is of. -/
theorem ofUuid_started {log : Log ι} {i : ι} {c : Connection} (h : Knows parties log i (.starting c))
    {q : Op} (hq : q = .receiveStart ∨ q = .parseVobizStart) (callId : Value) :
    OfUuid parties (log ++ [(i, q, .ok callId)]) i (queryCallUuid c callId) := by
  obtain ⟨hparty, ⟨ans, hans⟩, hall⟩ := h
  constructor
  · intro key
    unfold SessionOf queryCallUuid
    constructor
    · rintro ⟨c', hc', hopened⟩
      cases hparty.symm.trans hc'
      split at hopened
      · rw [← hopened.1]
        rfl
      · obtain ⟨q', callId', hq', hkey, hmem⟩ := hopened
        rcases mem_snoc.mp hmem with hmem | ⟨-, -, hans'⟩
        · have := hall q' _ hmem
          subst this
          rcases hq' with hq' | hq' <;> cases hq'
        · rw [← Except.ok.inj hans']
          exact hkey
    · intro huuid
      refine ⟨c, hparty, ?_⟩
      split at huuid
      · exact ⟨Option.some.inj huuid, ans, List.mem_append_left _ hans⟩
      · exact ⟨q, callId, hq, huuid, mem_snoc.mpr (Or.inr ⟨rfl, rfl, rfl⟩)⟩
  · rintro key ⟨bound, -, hmem⟩
    rcases mem_snoc.mp hmem with hmem | ⟨-, hbind, -⟩
    · cases hall _ _ hmem
    · rcases hq with rfl | rfl <;> cases hbind

theorem knows_after {log : Log ι} {i : ι} {ph : Phase} {q : Op} (hq : ph.op = some q)
    (h : Knows parties log i ph) (u : Unicode) (ans : Except Raised Value) :
    Knows parties (log ++ [(i, q, ans)]) i (ph.after u ans) := by
  have hkeep {uuid : Value} (h : OfUuid parties log i uuid)
      (hopens : q.opensSession = false) (hbind : ∀ key, q = .bindCall key → key = uuid) :
      OfUuid parties (log ++ [(i, q, ans)]) i uuid := ofUuid_snoc h (Or.inr ⟨hopens, hbind⟩)
  cases ph with
  | registering =>
    cases ans <;> trivial
  | accepting c =>
    cases hq
    cases ans with
    | error => trivial
    | ok v =>
      refine ⟨h.1, ⟨_, mem_snoc.mpr (Or.inr ⟨rfl, rfl, rfl⟩)⟩, fun q' ans' hmem => ?_⟩
      rcases mem_snoc.mp hmem with hmem | ⟨-, hq', -⟩
      · exact absurd hmem (h.2 q' ans')
      · exact hq'
  | starting c =>
    cases ans with
    | error e =>
      cases hc : c.clientType <;> cases e <;> simp only [Phase.after, hc] <;> trivial
    | ok callId =>
      have hstart : q = .receiveStart ∨ q = .parseVobizStart := by
        simp only [Phase.op] at hq
        split at hq <;> cases hq
        · exact Or.inl rfl
        · exact Or.inr rfl
      have hof := ofUuid_started h hstart callId
      simp only [Phase.after, Phase.afterStart]
      split
      · exact hof
      · exact hof
  | fetching number uuid | creating uuid =>
    cases hq
    cases ans with
    | error => trivial
    | ok v => exact hkeep h rfl fun _ hkey => by cases hkey
  | binding uuid =>
    cases hq
    cases ans with
    | error => trivial
    | ok v =>
      refine hkeep h rfl fun key hkey => ?_
      cases hkey
      rfl
  | adding uuid | running uuid =>
    cases hq
    rcases ans with ⟨_ | _⟩ | _ <;> exact hkeep h rfl fun _ hkey => by cases hkey
  | recording uuid pending =>
    cases hq
    rcases ans with ⟨_ | _⟩ | _
    · exact hkeep h rfl fun _ hkey => by cases hkey
    · trivial
    · exact hkeep h rfl fun _ hkey => by cases hkey
  | deleting uuid pending =>
    cases ans <;> cases pending <;> trivial
  | returned | raised => cases hq

/-! ## One step -/

/-- Each handler stands in a phase, and the log agrees with it. -/
structure Inv (rt : Runtime) (parties : ι → Party) (p : Server ι) (ph : ι → Phase) : Prop where
  program : ∀ i, p.progs i = (ph i).prog rt.toUnicode
  knows : ∀ i, Knows parties p.log i (ph i)

theorem running_iff {p : Server ι} {ph : ι → Phase} (inv : Inv rt parties p ph) (i : ι) :
    Running p i ↔ ∃ q, (ph i).op = some q := by
  constructor
  · rintro ⟨q, k, hcall⟩
    exact ⟨q, (Phase.prog_call rt.toUnicode (ph i) ((inv.program i).symm.trans hcall)).1⟩
  · rintro ⟨q, hq⟩
    exact ⟨q, _, (inv.program i).trans (Phase.prog_eq rt.toUnicode (ph i) hq)⟩

def firstPhase (parties : ι → Party) (i : ι) : Phase :=
  match parties i with
  | .request request => .registering request
  | .session c => .accepting c

theorem inv_start : Inv rt parties ⟨fun _ => none, handlers rt parties, []⟩ (firstPhase parties) where
  program i := by
    simp only [handlers, firstPhase]
    cases parties i <;> rfl
  knows i := by
    simp only [firstPhase]
    cases h : parties i with
    | request request => exact h
    | session c => exact ⟨h, fun _ _ => List.not_mem_nil⟩

/-- A request is over once it has registered its call, and is no session. -/
theorem not_session_of_request {log : Log ι} {i : ι} {ph : Phase} {request : Request}
    (hq : ph.op = some (.register request)) (h : Knows parties log i ph) (log' : Log ι)
    (uuid : Key) : ¬ SessionOf parties log' uuid i := by
  cases ph with
  | registering =>
    rintro ⟨c, hc, -⟩
    cases h.symm.trans hc
  | starting c =>
    simp only [Phase.op] at hq
    split at hq <;> cases hq
  | _ => cases hq

theorem careful_iff {p p' : Server ι} {i : ι} {q : Op} {ans : Except Raised Value}
    (hlog : p'.log = p.log ++ [(i, q, ans)]) (uuid : Key) :
    Careful rt parties p p' uuid ↔ CarefulOp rt parties p p' uuid i q := by
  constructor
  · exact fun h => h i q ans hlog
  · intro h i' q' ans' hlog'
    cases List.append_cancel_left (hlog.symm.trans hlog')
    exact h

variable [DecidableEq ι]

/-- A step is one operation of one handler, which goes on as its next phase. -/
theorem step_cases {p p' : Server ι} {ph : ι → Phase} (inv : Inv rt parties p ph)
    (h : Pool.Step (Serve rt) p p') : ∃ i q ans, (ph i).op = some q ∧
      Serve rt p.store q ans p'.store ∧ p'.log = p.log ++ [(i, q, ans)] ∧
      Inv rt parties p' (Function.update ph i ((ph i).after rt.toUnicode ans)) := by
  obtain @⟨i, q, k, ans, s, hcall, hserve⟩ := h
  obtain ⟨hq, hk⟩ := Phase.prog_call rt.toUnicode (ph i) ((inv.program i).symm.trans hcall)
  refine ⟨i, q, ans, hq, hserve, rfl, ?_, ?_⟩
  · intro j
    by_cases hij : j = i
    · subst hij
      simp only [Function.update_self, hk]
    · simp only [Function.update_of_ne hij, inv.program j]
  · intro j
    by_cases hij : j = i
    · subst hij
      rw [Function.update_self]
      exact knows_after hq (inv.knows j) rt.toUnicode ans
    · rw [Function.update_of_ne hij]
      exact knows_other hij (inv.knows j)

/-- The others run after a step as they did before it. -/
theorem running_other {p p' : Server ι} {ph : ι → Phase} {i j : ι} {next : Phase}
    (inv : Inv rt parties p ph) (inv' : Inv rt parties p' (Function.update ph i next))
    (hij : j ≠ i) : Running p' j ↔ Running p j := by
  rw [running_iff inv', running_iff inv, Function.update_of_ne hij]

/-- Who runs after a step ran before it. -/
theorem running_before {p p' : Server ι} {ph : ι → Phase} {i j : ι} {next : Phase} {q : Op}
    (inv : Inv rt parties p ph) (inv' : Inv rt parties p' (Function.update ph i next))
    (hq : (ph i).op = some q) (h : Running p' j) : Running p j := by
  by_cases hij : j = i
  · subst hij
    exact (running_iff inv j).mpr ⟨q, hq⟩
  · exact (running_other inv inv' hij).mp h

/-- A session that deletes its call is at its end. -/
theorem not_running_deleted {p' : Server ι} {ph : ι → Phase} {i : ι} {u : Unicode} {key : Value}
    {ans : Except Raised Value} (hq : (ph i).op = some (.deleteCall key))
    (inv' : Inv rt parties p' (Function.update ph i ((ph i).after u ans))) : ¬ Running p' i := by
  rw [running_iff inv', Function.update_self]
  rintro ⟨q, hnext⟩
  generalize ph i = phase at hq hnext
  cases phase with
  | deleting uuid pending => cases ans <;> cases pending <;> cases hnext
  | starting c =>
    simp only [Phase.op] at hq
    split at hq <;> cases hq
  | _ => cases hq

/-! ## Entries and live calls -/

section
variable {p p' : Server ι} {ph : ι → Phase} {i : ι} {q : Op} {ans : Except Raised Value} {uuid : Key}
  (inv : Inv rt parties p ph)
  (inv' : Inv rt parties p' (Function.update ph i ((ph i).after rt.toUnicode ans)))
  (hq : (ph i).op = some q) (hserve : Serve rt p.store q ans p'.store)
  (hlog : p'.log = p.log ++ [(i, q, ans)]) (h : Tracked parties p uuid)
include inv inv' hq hserve hlog h

theorem tracked_register {request : Request} (hreg : q = .register request) :
    Tracked parties p' uuid ↔ Careful rt parties p p' uuid := by
  subst hreg
  rw [careful_iff hlog]
  have hkeys := serve_register hserve uuid
  have hnone (log : Log ι) : ¬ SessionOf parties log uuid i :=
    not_session_of_request hq (inv.knows i) log uuid
  have hsession (j : ι) : SessionOf parties p'.log uuid j ↔ SessionOf parties p.log uuid j := by
    rw [hlog, sessionOf_snoc (Or.inr rfl)]
  have hrunning {j : ι} (hj : SessionOf parties p.log uuid j) : Running p' j ↔ Running p j := by
    refine running_other inv inv' fun hij => ?_
    rw [hij] at hj
    exact hnone _ hj
  constructor
  · intro htracked hkey hhad
    by_contra hidle
    refine htracked.absent (hhad.imp fun j hj => (hsession j).mpr hj) ?_ (hkeys.mpr (Or.inl hkey))
    intro j hj hrun
    rw [hsession] at hj
    exact hidle ⟨j, hj, (hrunning hj).mp hrun⟩
  · intro hcareful
    constructor
    · intro j hbound hrun
      rw [hlog, boundTo_snoc fun key heq => by cases heq] at hbound
      exact hkeys.mpr (Or.inr (h.present j hbound (running_before inv inv' hq hrun)))
    · intro hhad hidle hmem
      have hhad : ∃ j, SessionOf parties p.log uuid j := hhad.imp fun j => (hsession j).mp
      have hidle : ∀ j, SessionOf parties p.log uuid j → ¬ Running p j :=
        fun j hj hrun => hidle j ((hsession j).mpr hj) ((hrunning hj).mpr hrun)
      rcases hkeys.mp hmem with hkey | hmem
      · obtain ⟨j, hj, hrun⟩ := hcareful hkey hhad
        exact hidle j hj hrun
      · exact h.absent hhad hidle hmem

theorem tracked_delete {key : Value} (hdel : q = .deleteCall key) :
    Tracked parties p' uuid ↔ Careful rt parties p p' uuid := by
  subst hdel
  rw [careful_iff hlog]
  have hkeys := serve_delete hserve uuid
  have hended : ¬ Running p' i := not_running_deleted hq inv'
  have hsession (j : ι) : SessionOf parties p'.log uuid j ↔ SessionOf parties p.log uuid j := by
    rw [hlog, sessionOf_snoc (Or.inr rfl)]
  have hbound (j : ι) : BoundTo p'.log uuid j ↔ BoundTo p.log uuid j := by
    rw [hlog, boundTo_snoc fun key heq => by cases heq]
  constructor
  · intro htracked hkey j hj hrun
    by_contra hij
    have hrun' : Running p' j := (running_other inv inv' hij).mpr hrun
    exact (hkeys.mp (htracked.present j ((hbound j).mpr hj) hrun')).1 hkey
  · intro hcareful
    constructor
    · intro j hj hrun
      rw [hbound] at hj
      have hbefore := running_before inv inv' hq hrun
      refine hkeys.mpr ⟨fun hkey => ?_, h.present j hj hbefore⟩
      rw [hcareful hkey j hj hbefore] at hrun
      exact hended hrun
    · intro hhad hidle hmem
      obtain ⟨hkey, hmem⟩ := hkeys.mp hmem
      -- the session that ended is of another call
      have hother : ¬ SessionOf parties p.log uuid i := by
        intro hi
        have hof := inv.knows i
        generalize ph i = phase at hq hof
        cases phase with
        | deleting text pending =>
          cases hq
          exact hkey ((hof.1 uuid).mp hi)
        | starting c =>
          simp only [Phase.op] at hq
          split at hq <;> cases hq
        | _ => cases hq
      refine h.absent (hhad.imp fun j => (hsession j).mp) ?_ hmem
      intro j hj hrun
      have hij : j ≠ i := by
        rintro rfl
        exact hother hj
      exact hidle j ((hsession j).mpr hj) ((running_other inv inv' hij).mpr hrun)

theorem tracked_other (hregister : ∀ request, q ≠ .register request)
    (hdelete : ∀ key, q ≠ .deleteCall key) :
    Tracked parties p' uuid ↔ Careful rt parties p p' uuid := by
  have hkeys := serve_other hserve hregister hdelete uuid
  have hcond : Careful rt parties p p' uuid ↔
      (¬ Running p' i → SessionOf parties p'.log uuid i → Present p.store uuid →
        ∃ j, SessionOf parties p'.log uuid j ∧ Running p' j) := by
    rw [careful_iff hlog]
    cases q with
    | register request => exact absurd rfl (hregister request)
    | deleteCall key => exact absurd rfl (hdelete key)
    | _ => exact Iff.rfl
  have hsession {j : ι} (hij : j ≠ i) :
      SessionOf parties p'.log uuid j ↔ SessionOf parties p.log uuid j := by
    rw [hlog, sessionOf_snoc (Or.inl hij)]
  have hgrown {j : ι} (hj : SessionOf parties p.log uuid j) : SessionOf parties p'.log uuid j := by
    rw [hlog]
    exact hj.mono (List.subset_append_left _ _)
  rw [hcond]
  constructor
  · intro htracked hended hi hmem
    by_contra hidle
    exact htracked.absent ⟨i, hi⟩ (fun j hj hrun => hidle ⟨j, hj, hrun⟩) (hkeys.mpr hmem)
  · intro hcareful
    constructor
    · intro j hj hrun
      by_cases hold : BoundTo p.log uuid j
      · exact hkeys.mpr (h.present j hold (running_before inv inv' hq hrun))
      · -- the handler has just found the entry
        obtain ⟨key, hof, hmem⟩ := hj
        rw [hlog] at hmem
        rcases mem_snoc.mp hmem with hmem | ⟨-, rfl, rfl⟩
        · exact absurd ⟨key, hof, hmem⟩ hold
        · exact hkeys.mpr (present_of_bound hserve hof)
    · intro hhad hidle hmem
      rw [hkeys] at hmem
      by_cases hi : SessionOf parties p'.log uuid i
      · obtain ⟨j, hj, hrun⟩ := hcareful (hidle i hi) hi hmem
        exact hidle j hj hrun
      · have hold : ¬ SessionOf parties p.log uuid i := fun hold => hi (hgrown hold)
        refine h.absent ?_ ?_ hmem
        · obtain ⟨j, hj⟩ := hhad
          have hij : j ≠ i := by
            rintro rfl
            exact hi hj
          exact ⟨j, (hsession hij).mp hj⟩
        · intro j hj hrun
          have hij : j ≠ i := by
            rintro rfl
            exact hold hj
          exact hidle j ((hsession hij).mpr hj) ((running_other inv inv' hij).mpr hrun)

end

/-- All that requests and sessions reach by careful steps. -/
inductive Kept (rt : Runtime) (parties : ι → Party) : Server ι → Prop
  | start : Kept rt parties ⟨fun _ => none, handlers rt parties, []⟩
  | next {p p' : Server ι} : Kept rt parties p → Pool.Step (Serve rt) p p' →
      (∀ uuid, Careful rt parties p p' uuid) → Kept rt parties p'

theorem tracked_step {p p' : Server ι} {ph : ι → Phase} (inv : Inv rt parties p ph)
    (hstep : Pool.Step (Serve rt) p p') {uuid : Key} (h : Tracked parties p uuid) :
    Tracked parties p' uuid ↔ Careful rt parties p p' uuid := by
  obtain ⟨i, q, ans, hq, hserve, hlog, inv'⟩ := step_cases inv hstep
  by_cases hregister : ∃ request, q = .register request
  · obtain ⟨request, hreg⟩ := hregister
    exact tracked_register inv inv' hq hserve hlog h hreg
  · by_cases hdelete : ∃ key, q = .deleteCall key
    · obtain ⟨key, hdel⟩ := hdelete
      exact tracked_delete inv inv' hq hserve hlog h hdel
    · exact tracked_other inv inv' hq hserve hlog h (fun request heq => hregister ⟨request, heq⟩)
        fun key heq => hdelete ⟨key, heq⟩

theorem kept_tracked {p : Server ι} (h : Kept rt parties p) :
    (∃ ph, Inv rt parties p ph) ∧ ∀ uuid, Tracked parties p uuid := by
  induction h with
  | start =>
    refine ⟨⟨_, inv_start⟩, fun uuid => ⟨?_, fun _ _ => Bool.false_ne_true⟩⟩
    rintro i ⟨key, -, hmem⟩
    cases hmem
  | next _ hstep hcareful ih =>
    obtain ⟨⟨ph, inv⟩, htracked⟩ := ih
    obtain ⟨i, q, ans, -, -, -, inv'⟩ := step_cases inv hstep
    exact ⟨⟨_, inv'⟩, fun uuid => (tracked_step inv hstep (htracked uuid)).mpr (hcareful uuid)⟩

end

/-! ## A bad start frame, and a reconnect -/

def announcement : Request where
  post := false
  host := none
  contentType := []
  query := [("CallUUID", "d27c-41")]
  json := .error ⟨"no body"⟩
  form := .error ⟨"no body"⟩

def reconnecting : Connection := ⟨.vobiz, [], [("CallUUID", "d27c-41")]⟩

/-- One request, and then sessions of its call. -/
def oneCall : Option Bool → Party
  | none => .request announcement
  | some _ => .session reconnecting

/-- Every operation answers, but for the start frame. -/
def answerStart (start : Except Raised Value) (calls : Calls) : Op → Except Raised Value × Calls
  | .register request => (.ok .none, match registered .ascii request with
    | some uuid => Function.update calls uuid (some ⟨.initiated, false⟩)
    | none => calls)
  | .parseVobizStart => (start, calls)
  | .bindCall uuid => bindCall calls uuid
  | .deleteCall uuid => deleteCall calls uuid
  | _ => (.ok .none, calls)

theorem answerStart_serves (start : Except Raised Value) (calls : Calls) (q : Op) :
    Serve .ascii calls q (answerStart start calls q).1 (answerStart start calls q).2 := by
  cases q with
  | register request => exact .register request _
  | bindCall uuid => exact .bindCall uuid
  | deleteCall uuid => exact .deleteCall uuid
  | accept => exact .accept _
  | receiveStart => exact .receiveStart _
  | parseVobizStart => exact .parseVobizStart _
  | fetchProfile number => exact .fetchProfile number _
  | createPipeline => exact .created _
  | addWorkers => exact .addWorkers _
  | runWorkers => exact .runWorkers _
  | initiateTicket => exact .ticket _

def serverStart : Server (Option Bool) := ⟨fun _ => none, handlers .ascii oneCall, []⟩

/-- Neither start frame of the call's two sessions can be parsed. -/
def badStart : Server (Option Bool) :=
  Pool.play (answerStart (.error (.exception ⟨"no start frame"⟩)))
    [none, some false, some false, some true, some true] serverStart

/-- Two sessions of the call run, and the first one ends. -/
def firstEnds : Server (Option Bool) :=
  Pool.play (answerStart (.ok (.str "call-1")))
    (none :: (List.replicate 5 (some false) ++ List.replicate 5 (some true) ++
      List.replicate 3 (some false))) serverStart

/-- The call is announced, and a session of it has taken so many steps. -/
def connectedCall : ℕ → Server (Option Bool)
  | 0 => serverStart.turn (answerStart (.ok (.str "call-1"))) none
  | n + 1 => (connectedCall n).turn (answerStart (.ok (.str "call-1"))) (some false)

theorem kept_turn {start : Except Raised Value} {p : Server (Option Bool)}
    (h : Kept .ascii oneCall p) {i : Option Bool} {q : Op}
    {k : Except Raised Value → Handler Unit} (hcall : p.progs i = .call q k)
    (hcareful : ∀ uuid, CarefulOp .ascii oneCall p (p.turn (answerStart start) i) uuid i q) :
    Kept .ascii oneCall (p.turn (answerStart start) i) := by
  have hturn : p.turn (answerStart start) i = ⟨(answerStart start p.store q).2,
      Function.update p.progs i (k (answerStart start p.store q).1),
      p.log ++ [(i, q, (answerStart start p.store q).1)]⟩ := by
    rw [Pool.turn, hcall]
  have hlog : (p.turn (answerStart start) i).log =
      p.log ++ [(i, q, (answerStart start p.store q).1)] := by rw [hturn]
  refine .next h ?_ fun uuid => (careful_iff hlog uuid).mpr (hcareful uuid)
  rw [hturn]
  exact .serve hcall (answerStart_serves start p.store q)

/-- A call with one session is handled carefully to its end. -/
theorem connectedCall_kept :
    Kept .ascii oneCall (connectedCall 5) ∧ Kept .ascii oneCall (connectedCall 8) := by
  have hannounced : Kept .ascii oneCall (connectedCall 0) := by
    refine kept_turn (q := .register announcement) .start rfl ?_
    rintro uuid - ⟨j, c, -, hopened⟩
    split at hopened
    · obtain ⟨-, ans, hmem⟩ := hopened
      cases hmem
    · obtain ⟨q, callId, -, -, hmem⟩ := hopened
      cases hmem
  have haccepted : Kept .ascii oneCall (connectedCall 1) :=
    kept_turn (q := .accept) hannounced rfl fun _ hended => absurd ⟨_, _, rfl⟩ hended
  have hstarted : Kept .ascii oneCall (connectedCall 2) :=
    kept_turn (q := .parseVobizStart) haccepted rfl fun _ hended => absurd ⟨_, _, rfl⟩ hended
  have hbound : Kept .ascii oneCall (connectedCall 3) :=
    kept_turn (q := .bindCall (.str "d27c-41")) hstarted rfl fun _ hended =>
      absurd ⟨_, _, rfl⟩ hended
  have hcreated : Kept .ascii oneCall (connectedCall 4) :=
    kept_turn (q := .createPipeline) hbound rfl fun _ hended => absurd ⟨_, _, rfl⟩ hended
  have hadded : Kept .ascii oneCall (connectedCall 5) :=
    kept_turn (q := .addWorkers) hcreated rfl fun _ hended => absurd ⟨_, _, rfl⟩ hended
  have hran : Kept .ascii oneCall (connectedCall 6) :=
    kept_turn (q := .runWorkers) hadded rfl fun _ hended => absurd ⟨_, _, rfl⟩ hended
  have hrecorded : Kept .ascii oneCall (connectedCall 7) :=
    kept_turn (q := .initiateTicket) hran rfl fun _ hended => absurd ⟨_, _, rfl⟩ hended
  refine ⟨hadded, kept_turn (q := .deleteCall (.str "d27c-41")) hrecorded rfl ?_⟩
  -- no one else has been bound to the call
  rintro uuid - j ⟨key, -, hmem⟩ -
  have hparties : (connectedCall 7).log.all (fun e => e.1 == some false ||
      e.2.1 matches .register _) = true := by rfl
  simpa using List.all_eq_true.mp hparties _ hmem

end TechMart.Main.ActiveCalls
