import Mathlib.Logic.Function.Basic
import Mathlib.Tactic.Common

/-!
# The web client's calls

`startCall`, the handlers of its socket and `endCall` of `app.js`, in any order
the browser may run them. Everything a call turns on is kept in a global
variable; what is overwritten there can never be turned off. A permission
prompt that is granted after its call has ended is what goes wrong.
-/

namespace TechMart.WebCallClient

inductive Socket where
  | unmade
  | connecting
  | opened
  | closing
  | closed
  deriving DecidableEq

/-- The socket carries a call, or will. -/
def Socket.isLive : Socket → Bool
  | .connecting | .opened => true
  | _ => false

/-- `ws.close()`. -/
def Socket.close (socket : Socket) : Socket := if socket.isLive then .closing else socket

/-- What `endCall` turns off, besides the socket. -/
inductive Resource where
  | audioContext
  | mediaStream
  | sourceNode
  | processorNode
  deriving DecidableEq

/-- The globals of the page, and what the browser keeps for it: the state of
every socket, what is on, and the open permission prompts. A call is known by
the number of its socket. -/
structure Page where
  ws : Option ℕ
  global : Resource → Option ℕ
  on : Resource → ℕ → Bool
  socket : ℕ → Socket
  prompt : ℕ → Bool
  startBtn : Bool
  endBtn : Bool
  calls : ℕ

def Page.loaded : Page where
  ws := none
  global := fun _ => none
  on := fun _ _ => false
  socket := fun _ => .unmade
  prompt := fun _ => false
  startBtn := true
  endBtn := false
  calls := 0

namespace Page

/-- Something new for the call, in the variable. -/
def make (page : Page) (r : Resource) (k : ℕ) : Page :=
  { page with
    global := Function.update page.global r (some k)
    on := fun r' k' => if r' = r ∧ k' = k then true else page.on r' k' }

/-- What is in the variable is turned off, if anything is there. -/
def drop (page : Page) (r : Resource) : Page :=
  { page with
    global := Function.update page.global r none
    on := fun r' k => if r' = r ∧ page.global r = some k then false else page.on r' k }

def closeSocket (page : Page) : Page :=
  { page with
    ws := none
    socket := fun k => if page.ws = some k then (page.socket k).close else page.socket k }

def startCall (page : Page) : Page :=
  { page with
    ws := some page.calls
    socket := Function.update page.socket page.calls .connecting
    startBtn := false
    calls := page.calls + 1 }

/-- `ws.onopen` as far as its prompt; `ws` is the global one. -/
def onOpen (page : Page) (k : ℕ) : Page :=
  let page := { page with socket := Function.update page.socket k .opened }
  match page.ws with
  | some j =>
    -- `send` raises while the socket is connecting
    if page.socket j = .connecting then page
    else { page.make .audioContext k with prompt := Function.update page.prompt k true }
  | none => page

/-- The rest of `ws.onopen`, once there is a microphone. -/
def granted (page : Page) (k : ℕ) : Page :=
  let page := { page with prompt := Function.update page.prompt k false }.make .mediaStream k
  -- without a context `createMediaStreamSource` raises
  if page.global .audioContext = none then page
  else { (page.make .sourceNode k).make .processorNode k with endBtn := true }

def denied (page : Page) (k : ℕ) : Page :=
  { page with prompt := Function.update page.prompt k false }

def endCall (page : Page) : Page :=
  let page := page.closeSocket.drop .processorNode
  let page := page.drop .sourceNode
  let page := page.drop .mediaStream
  let page := page.drop .audioContext
  { page with startBtn := true, endBtn := false }

/-- `ws.onclose`. -/
def onClose (page : Page) (k : ℕ) : Page :=
  { page with socket := Function.update page.socket k .closed }.endCall

end Page

inductive Event where
  | clickStart
  | opened (k : ℕ)
  | granted (k : ℕ)
  | denied (k : ℕ)
  | clickEnd
  | closed (k : ℕ)
  deriving DecidableEq

/-- When the browser can deliver an event: a button that is shown, a socket
that connects, an open prompt, a socket that is not closed yet. -/
def Page.enabled (page : Page) : Event → Prop
  | .clickStart => page.startBtn = true
  | .opened k => page.socket k = .connecting
  | .granted k | .denied k => page.prompt k = true
  | .clickEnd => page.endBtn = true
  | .closed k => page.socket k = .closing ∨ (page.socket k).isLive = true

instance (page : Page) : DecidablePred page.enabled
  | .clickStart => inferInstanceAs (Decidable (page.startBtn = true))
  | .opened k => inferInstanceAs (Decidable (page.socket k = .connecting))
  | .granted k | .denied k => inferInstanceAs (Decidable (page.prompt k = true))
  | .clickEnd => inferInstanceAs (Decidable (page.endBtn = true))
  | .closed k =>
    inferInstanceAs (Decidable (page.socket k = .closing ∨ (page.socket k).isLive = true))

def Page.step (page : Page) : Event → Page
  | .clickStart => page.startCall
  | .opened k => page.onOpen k
  | .granted k => page.granted k
  | .denied k => page.denied k
  | .clickEnd => page.endCall
  | .closed k => page.onClose k

/-- Each event could be delivered when it was. -/
def Page.Possible (page : Page) : List Event → Prop
  | [] => True
  | e :: es => page.enabled e ∧ (page.step e).Possible es

instance Page.decidablePossible (page : Page) : (events : List Event) →
    Decidable (page.Possible events)
  | [] => .isTrue trivial
  | e :: es => @instDecidableAnd _ _ (inferInstance) (decidablePossible (page.step e) es)

def Page.after (page : Page) (events : List Event) : Page := events.foldl Page.step page

/-- Every page there is in the course of these events. -/
def Page.Always (P : Page → Prop) (page : Page) : List Event → Prop
  | [] => P page
  | e :: es => P page ∧ (page.step e).Always P es

/-- A microphone for a call that is not the one going on. -/
def Page.late (page : Page) : Event → Prop
  | .granted k => page.ws ≠ some k
  | _ => False

def Page.InTime (page : Page) : List Event → Prop
  | [] => True
  | e :: es => ¬ page.late e ∧ (page.step e).InTime es

/-- Whatever is on belongs to the call going on, and its variable holds it. -/
def Page.Owned (page : Page) : Prop :=
  ∀ r k, page.on r k = true → page.ws = some k ∧ page.global r = some k

/-! ## What holds of every page -/

structure Page.Inv (page : Page) : Prop where
  shown : page.startBtn = true ↔ page.ws = none
  current : ∀ k, page.ws = some k ↔ (page.socket k).isLive = true
  unmade : ∀ k, page.calls ≤ k → page.socket k = .unmade ∧ page.prompt k = false ∧
    ∀ r, page.on r k = false
  early : ∀ k, page.socket k = .connecting → page.prompt k = false ∧ ∀ r, page.on r k = false
  held : ∀ r k, page.global r = some k → page.on r k = true
  context : ∀ k, page.on .audioContext k = true →
    page.ws = some k ∧ page.global .audioContext = some k
  prompted : ∀ k r, page.prompt k = true → page.on r k = true → r = .audioContext

namespace Page

variable {page : Page} {k : ℕ}

theorem inv_loaded : loaded.Inv where
  shown := by simp [loaded]
  current := by simp [loaded, Socket.isLive]
  unmade := by simp [loaded]
  early := by simp [loaded]
  held := by simp [loaded]
  context := by simp [loaded]
  prompted := by simp [loaded]

/-! ## Turning off -/

@[simp] theorem endCall_ws (page : Page) : page.endCall.ws = none := rfl
@[simp] theorem endCall_prompt (page : Page) : page.endCall.prompt = page.prompt := rfl
@[simp] theorem endCall_calls (page : Page) : page.endCall.calls = page.calls := rfl
@[simp] theorem endCall_startBtn (page : Page) : page.endCall.startBtn = true := rfl
@[simp] theorem endCall_endBtn (page : Page) : page.endCall.endBtn = false := rfl

@[simp] theorem endCall_socket (page : Page) (k : ℕ) : page.endCall.socket k =
    if page.ws = some k then (page.socket k).close else page.socket k := rfl

@[simp] theorem endCall_global (page : Page) (r : Resource) : page.endCall.global r = none := by
  cases r <;> simp [endCall, drop, closeSocket]

/-- What is in no variable stays on. -/
@[simp] theorem endCall_on (page : Page) (r : Resource) (k : ℕ) :
    page.endCall.on r k = if page.global r = some k then false else page.on r k := by
  cases r <;> simp [endCall, drop, closeSocket]

theorem isLive_close (socket : Socket) : socket.close.isLive = false := by
  cases socket <;> rfl

theorem close_ne_connecting (socket : Socket) : socket.close ≠ .connecting := by
  cases socket <;> decide

theorem endCall_inv (h : page.Inv) : page.endCall.Inv where
  shown := by simp
  current := by
    intro k
    rw [endCall_ws, endCall_socket]
    split
    · simp [isLive_close]
    · rename_i hne
      simpa using fun hlive => hne ((h.current k).mpr hlive)
  unmade := by
    intro k hk
    obtain ⟨hsocket, hprompt, hon⟩ := h.unmade k hk
    refine ⟨?_, hprompt, fun r => ?_⟩
    · rw [endCall_socket, hsocket]
      exact ite_self _
    · simp [hon]
  early := by
    intro k hk
    rw [endCall_socket] at hk
    split at hk
    · exact absurd hk (close_ne_connecting _)
    · obtain ⟨hprompt, hon⟩ := h.early k hk
      exact ⟨hprompt, fun r => by simp [hon]⟩
  held := by simp
  context := by
    intro k hk
    rw [endCall_on] at hk
    split at hk
    · cases hk
    · rename_i hne
      exact absurd (h.context k hk).2 hne
  prompted := by
    intro k r hprompt hon
    rw [endCall_on] at hon
    split at hon
    · cases hon
    · exact h.prompted k r hprompt hon

/-! ## The other events -/

theorem startCall_inv (h : page.Inv) (hstart : page.startBtn = true) : page.startCall.Inv where
  shown := by simp [startCall]
  current := by
    intro k
    have hidle := h.shown.mp hstart
    have hcurrent := h.current k
    rw [hidle] at hcurrent
    simp only [startCall, Function.update_apply, Option.some.injEq]
    split
    · rename_i heq
      simp [heq, Socket.isLive]
    · rename_i hne
      rw [← hcurrent]
      simp [Ne.symm hne]
  unmade := by
    intro k hk
    have hlt : page.calls + 1 ≤ k := hk
    obtain ⟨hsocket, hprompt, hon⟩ := h.unmade k (by omega)
    refine ⟨?_, hprompt, hon⟩
    show Function.update page.socket page.calls .connecting k = .unmade
    rw [Function.update_of_ne (by omega), hsocket]
  early := by
    intro k hk
    simp only [startCall, Function.update_apply] at hk
    split at hk
    · rename_i heq
      obtain ⟨_, hprompt, hon⟩ := h.unmade k (Nat.le_of_eq heq.symm)
      exact ⟨hprompt, hon⟩
    · exact h.early k hk
  held := h.held
  context := by
    intro k hk
    have hws := (h.context k hk).1
    rw [h.shown.mp hstart] at hws
    cases hws
  prompted := h.prompted

/-- A socket that opens is that of the call going on. -/
theorem onOpen_eq (h : page.Inv) (hopen : page.socket k = .connecting) :
    page.ws = some k ∧ page.onOpen k =
      { page.make .audioContext k with
        socket := Function.update page.socket k .opened
        prompt := Function.update page.prompt k true } := by
  have hws : page.ws = some k := by
    rw [h.current, hopen]
    rfl
  refine ⟨hws, ?_⟩
  simp only [onOpen, hws, Function.update_self, make]
  rw [if_neg (by decide)]

theorem onOpen_inv (h : page.Inv) (hopen : page.socket k = .connecting) :
    (page.onOpen k).Inv := by
  obtain ⟨hws, heq⟩ := onOpen_eq h hopen
  obtain ⟨hprompt, hon⟩ := h.early k hopen
  rw [heq]
  constructor
  · simpa [make] using h.shown
  · intro j
    by_cases hj : j = k
    · simp [make, hj, hws, Socket.isLive]
    · simp only [make, Function.update_of_ne hj]
      exact h.current j
  · intro j hj
    have hne : j ≠ k := by
      rintro rfl
      rw [(h.unmade j hj).1] at hopen
      cases hopen
    simp only [make, Function.update_of_ne hne, hne, and_false, if_false]
    exact h.unmade j hj
  · intro j hj
    have hne : j ≠ k := by
      rintro rfl
      simp at hj
    simp only [make, Function.update_of_ne hne, hne, and_false, if_false] at hj ⊢
    exact h.early j hj
  · intro r j hj
    simp only [make, Function.update_apply] at hj ⊢
    split at hj
    · rename_i hr
      simp_all
    · simp [h.held r j hj]
  · intro j hj
    simp only [make, true_and] at hj ⊢
    split at hj
    · rename_i heq
      simp [heq, hws]
    · have hj := (h.context j hj).1
      simp_all
  · intro j r hj hjon
    by_cases hne : j = k
    · subst hne
      by_contra hr
      simp [make, hr, hon] at hjon
    · simp only [make, Function.update_of_ne hne, hne, and_false, if_false] at hj hjon
      exact h.prompted j r hj hjon

theorem denied_inv (h : page.Inv) : (page.denied k).Inv where
  shown := h.shown
  current := h.current
  unmade := by
    intro j hj
    obtain ⟨hsocket, hprompt, hon⟩ := h.unmade j hj
    refine ⟨hsocket, ?_, hon⟩
    simp [denied, Function.update_apply, hprompt]
  early := by
    intro j hj
    obtain ⟨hprompt, hon⟩ := h.early j hj
    refine ⟨?_, hon⟩
    simp [denied, Function.update_apply, hprompt]
  held := h.held
  context := h.context
  prompted := by
    intro j r hj hjon
    by_cases hne : j = k
    · simp [denied, hne] at hj
    · have hother : Function.update page.prompt k false j = true := hj
      rw [Function.update_of_ne hne] at hother
      exact h.prompted j r hother hjon

/-- Turning on what is no audio context, for a call that has no open prompt. -/
theorem make_inv (h : page.Inv) {r : Resource} (hr : r ≠ .audioContext)
    (hmade : k < page.calls) (hsocket : page.socket k ≠ .connecting)
    (hprompt : page.prompt k = false) : (page.make r k).Inv where
  shown := h.shown
  current := h.current
  unmade := by
    intro j hj
    have hlt : page.calls ≤ j := hj
    obtain ⟨hunmade, hclosed, hon⟩ := h.unmade j hlt
    refine ⟨hunmade, hclosed, fun r' => ?_⟩
    have hne : j ≠ k := by omega
    simp [make, hne, hon]
  early := by
    intro j hj
    obtain ⟨hclosed, hon⟩ := h.early j hj
    refine ⟨hclosed, fun r' => ?_⟩
    have hne : j ≠ k := by
      rintro rfl
      exact hsocket hj
    simp [make, hne, hon]
  held := by
    intro r' j hj
    simp only [make, Function.update_apply] at hj ⊢
    split at hj
    · cases hj
      simp [*]
    · simp [h.held r' j hj]
  context := by
    intro j hj
    simp only [make, hr.symm, false_and, if_false, Function.update_of_ne hr.symm] at hj ⊢
    exact h.context j hj
  prompted := by
    intro j r' hj hjon
    have hne : j ≠ k := by
      rintro rfl
      rw [show page.prompt j = true from hj] at hprompt
      cases hprompt
    simp only [make, hne, and_false, if_false] at hjon
    exact h.prompted j r' hj hjon

theorem granted_inv (h : page.Inv) (hprompt : page.prompt k = true) : (page.granted k).Inv := by
  have hmade : k < page.calls := by
    by_contra hle
    rw [(h.unmade k (by omega)).2.1] at hprompt
    cases hprompt
  have hsocket : page.socket k ≠ .connecting := by
    intro hconnecting
    rw [(h.early k hconnecting).1] at hprompt
    cases hprompt
  have hclosed : (page.denied k).prompt k = false := by simp [denied]
  have hstream : ((page.denied k).make .mediaStream k).Inv :=
    make_inv (denied_inv h) (by decide) hmade hsocket hclosed
  rw [granted]
  split
  · exact hstream
  · have hsource := make_inv (r := .sourceNode) hstream (by decide) hmade hsocket hclosed
    have hprocessor := make_inv (r := .processorNode) hsource (by decide) hmade hsocket hclosed
    exact { hprocessor with }

theorem onClose_eq (page : Page) (k : ℕ) : page.onClose k =
    { page.endCall with socket := Function.update page.endCall.socket k .closed } := by
  have hsocket : (page.onClose k).socket = Function.update page.endCall.socket k .closed := by
    funext j
    rw [onClose, endCall_socket]
    by_cases hj : j = k
    · subst hj
      simp only [Function.update_self]
      exact ite_self _
    · simp only [Function.update_of_ne hj, endCall_socket]
  rw [← hsocket]
  rfl

theorem onClose_inv (h : page.Inv) (hopen : page.socket k ≠ .unmade) : (page.onClose k).Inv := by
  have hend := endCall_inv h
  rw [onClose_eq]
  constructor
  · exact hend.shown
  · intro j
    by_cases hj : j = k
    · simp [hj, Socket.isLive]
    · simp only [Function.update_of_ne hj]
      exact hend.current j
  · intro j hj
    have hne : j ≠ k := by
      rintro rfl
      exact hopen (h.unmade j hj).1
    simp only [Function.update_of_ne hne]
    exact hend.unmade j hj
  · intro j hj
    have hne : j ≠ k := by
      rintro rfl
      simp at hj
    simp only [Function.update_of_ne hne] at hj
    exact hend.early j hj
  · exact hend.held
  · exact hend.context
  · exact hend.prompted

theorem socket_ne_unmade {socket : Socket} (h : socket = .closing ∨ socket.isLive = true) :
    socket ≠ .unmade := by
  rintro rfl
  cases h with
  | inl h => cases h
  | inr h => cases h

theorem step_inv (h : page.Inv) {e : Event} (he : page.enabled e) : (page.step e).Inv := by
  cases e with
  | clickStart => exact startCall_inv h he
  | opened k => exact onOpen_inv h he
  | granted k => exact granted_inv h he
  | denied k => exact denied_inv h
  | clickEnd => exact endCall_inv h
  | closed k => exact onClose_inv h (socket_ne_unmade he)

theorem after_inv (h : page.Inv) {events : List Event} (he : page.Possible events) :
    (page.after events).Inv := by
  induction events generalizing page with
  | nil => exact h
  | cons e events ih => exact ih (step_inv h he.1) he.2

/-! ## Whose is what is on -/

theorem owned_loaded : loaded.Owned := by
  intro r k hk
  cases hk

/-- Once a call has ended nothing is on. -/
theorem endCall_owned (h : page.Owned) : page.endCall.Owned := by
  intro r k hk
  rw [endCall_on] at hk
  split at hk
  · cases hk
  · rename_i hne
    exact absurd (h r k hk).2 hne

theorem make_owned (h : page.Owned) {r : Resource} (hws : page.ws = some k) :
    (page.make r k).Owned := by
  intro r' j hj
  simp only [make, Function.update_apply] at hj ⊢
  by_cases hnew : r' = r ∧ j = k
  · simp [hnew, hws]
  · rw [if_neg hnew] at hj
    obtain ⟨hcurrent, hglobal⟩ := h r' j hj
    have hsame : j = k := Option.some.inj (hcurrent.symm.trans hws)
    have hother : r' ≠ r := fun hr => hnew ⟨hr, hsame⟩
    rw [if_neg hother]
    exact ⟨hcurrent, hglobal⟩

theorem granted_owned (h : page.Owned) (hws : page.ws = some k) : (page.granted k).Owned := by
  have hdenied : (page.denied k).Owned := h
  have hstream : ((page.denied k).make .mediaStream k).Owned := make_owned hdenied hws
  rw [granted]
  split
  · exact hstream
  · exact make_owned (r := .processorNode) (make_owned (r := .sourceNode) hstream hws) hws

theorem granted_on (page : Page) (k : ℕ) : (page.granted k).on .mediaStream k = true := by
  rw [granted]
  split
  · simp [make]
  · simp [make]

theorem granted_ws (page : Page) (k : ℕ) : (page.granted k).ws = page.ws := by
  rw [granted]
  split
  · rfl
  · rfl

/-- One event keeps it so unless it is a microphone that comes late. -/
theorem step_owned_iff (hinv : page.Inv) (h : page.Owned) {e : Event} (he : page.enabled e) :
    (page.step e).Owned ↔ ¬ page.late e := by
  cases e with
  | clickStart =>
    refine iff_of_true (fun r k hk => ?_) id
    have hws := (h r k hk).1
    rw [hinv.shown.mp he] at hws
    cases hws
  | opened k =>
    obtain ⟨hws, heq⟩ := onOpen_eq hinv he
    refine iff_of_true ?_ id
    show (page.onOpen k).Owned
    rw [heq]
    have hmade : (page.make .audioContext k).Owned := make_owned h hws
    exact hmade
  | granted k =>
    constructor
    · intro howned hlate
      have hws := (howned .mediaStream k (granted_on page k)).1
      exact hlate ((granted_ws page k).symm.trans hws)
    · intro hlate
      exact granted_owned h (not_not.mp hlate)
  | denied k => exact iff_of_true h id
  | clickEnd => exact iff_of_true (endCall_owned h) id
  | closed k =>
    refine iff_of_true ?_ id
    show (page.onClose k).Owned
    rw [onClose_eq]
    exact endCall_owned h

theorem always_owned_iff (hinv : page.Inv) (h : page.Owned) {events : List Event}
    (he : page.Possible events) : page.Always Owned events ↔ page.InTime events := by
  induction events generalizing page with
  | nil => exact iff_of_true h trivial
  | cons e events ih =>
    rw [Always, InTime, ← step_owned_iff hinv h he.1]
    constructor
    · rintro ⟨_, hrest⟩
      have hstep : (page.step e).Owned := by
        cases events with
        | nil => exact hrest
        | cons e' events => exact hrest.1
      exact ⟨hstep, (ih (step_inv hinv he.1) hstep he.2).mp hrest⟩
    · rintro ⟨hstep, hrest⟩
      exact ⟨h, (ih (step_inv hinv he.1) hstep he.2).mpr hrest⟩

theorem possible_append {events rest : List Event} :
    page.Possible (events ++ rest) ↔ page.Possible events ∧ (page.after events).Possible rest := by
  induction events generalizing page with
  | nil => exact (iff_of_eq (true_and _)).symm
  | cons e events ih =>
    rw [List.cons_append, Possible, Possible, ih, and_assoc]
    rfl

theorem after_append (page : Page) (events rest : List Event) :
    page.after (events ++ rest) = (page.after events).after rest := List.foldl_append

/-- What holds of every page holds in the course of every run. -/
theorem always_of_inv {P : Page → Prop} (hP : ∀ page : Page, page.Inv → P page) (h : page.Inv)
    {events : List Event} (he : page.Possible events) : page.Always P events := by
  induction events generalizing page with
  | nil => exact hP page h
  | cons e events ih => exact ⟨hP page h, ih (step_inv h he.1) he.2⟩

/-! ## What was overwritten -/

/-- A microphone that no variable holds. -/
def Lost (k : ℕ) (page : Page) : Prop :=
  page.on .mediaStream k = true ∧ page.global .mediaStream ≠ some k

theorem endCall_lost (h : page.Lost k) : page.endCall.Lost k := by
  constructor
  · rw [endCall_on, if_neg h.2]
    exact h.1
  · simp

theorem make_lost {j : ℕ} {r : Resource} (h : page.Lost k) (hj : r = .mediaStream → j ≠ k) :
    (page.make r j).Lost k := by
  constructor
  · simp [make, h.1]
  · simp only [make, Function.update_apply]
    split
    · rename_i hr
      exact fun heq => hj hr.symm (Option.some.inj heq)
    · exact h.2

theorem step_lost (hinv : page.Inv) (h : page.Lost k) {e : Event} (he : page.enabled e) :
    (page.step e).Lost k := by
  cases e with
  | clickStart | denied => exact h
  | opened j =>
    show (page.onOpen j).Lost k
    rw [(onOpen_eq hinv he).2]
    exact make_lost (r := .audioContext) (j := j) h (absurd · (by decide))
  | granted j =>
    have hj : j ≠ k := by
      rintro rfl
      cases hinv.prompted j .mediaStream he h.1
    have hdenied : (page.denied j).Lost k := h
    have hstream : ((page.denied j).make .mediaStream j).Lost k := make_lost hdenied fun _ => hj
    show (page.granted j).Lost k
    rw [granted]
    split
    · exact hstream
    · have hsource := make_lost (r := .sourceNode) (j := j) hstream (absurd · (by decide))
      exact make_lost (r := .processorNode) (j := j) hsource (absurd · (by decide))
  | clickEnd => exact endCall_lost h
  | closed j =>
    show (page.onClose j).Lost k
    rw [onClose_eq]
    exact endCall_lost h

theorem after_lost (hinv : page.Inv) (h : page.Lost k) {events : List Event}
    (he : page.Possible events) : (page.after events).Lost k := by
  induction events generalizing page with
  | nil => exact h
  | cons e events ih => exact ih (step_inv hinv he.1) (step_lost hinv h he.1) he.2

/-- From every page some events lead to `endCall`. -/
theorem exists_endCall (h : page.Inv) : ∃ events, page.Possible events ∧
    ∀ r k, page.global r = some k → (page.after events).on r k = false := by
  cases hws : page.ws with
  | some j =>
    refine ⟨[.closed j], ⟨Or.inr ((h.current j).mp hws), trivial⟩, fun r k hk => ?_⟩
    show (page.onClose j).on r k = false
    rw [onClose_eq]
    simp [hk]
  | none =>
    refine ⟨[.clickStart, .closed page.calls], ⟨h.shown.mpr hws, ?_, trivial⟩, fun r k hk => ?_⟩
    · refine Or.inr ?_
      simp [step, startCall, Socket.isLive]
    · show (page.startCall.onClose page.calls).on r k = false
      have hheld : page.startCall.global r = some k := hk
      rw [onClose_eq, endCall_on, if_pos hheld]

/-! ## Whose close event it is -/

/-- The call `k` has no other socket that is still to close. -/
def Alone (k : ℕ) (page : Page) : Prop :=
  k < page.calls ∧ (page.ws = some k → ∀ j, j ≠ k → page.socket j ≠ .closing)

theorem step_alone (hinv : page.Inv) (h : page.Alone k) {e : Event} (he : page.enabled e) :
    (page.step e).Alone k := by
  cases e with
  | clickStart =>
    refine ⟨Nat.lt_succ_of_lt h.1, fun hws => ?_⟩
    have heq : page.calls = k := Option.some.inj hws
    exact absurd heq (Nat.ne_of_gt h.1)
  | opened j =>
    show (page.onOpen j).Alone k
    rw [(onOpen_eq hinv he).2]
    refine ⟨h.1, fun hws i hi => ?_⟩
    simp only [Function.update_apply]
    split
    · decide
    · exact h.2 hws i hi
  | granted j =>
    show (page.granted j).Alone k
    rw [granted]
    split
    · exact h
    · exact h
  | denied j => exact h
  | clickEnd => exact ⟨h.1, fun hws => absurd hws (by simp [step])⟩
  | closed j => exact ⟨h.1, fun hws => absurd hws (by simp [step, onClose])⟩

theorem after_alone (hinv : page.Inv) (h : page.Alone k) {events : List Event}
    (he : page.Possible events) : (page.after events).Alone k := by
  induction events generalizing page with
  | nil => exact h
  | cons e events ih => exact ih (step_inv hinv he.1) (step_alone hinv h he.1) he.2

/-- The close event of the socket `j` is due and ends the call `k`. -/
structure CutShort (page : Page) (k j : ℕ) : Prop where
  current : page.ws = some k
  other : j ≠ k
  due : page.enabled (.closed j)

end Page

open Page

/-! ## The runs of the page -/

/-- **Nothing stays on.** Whatever the user, the server and the browser do, the
call going on has the only connection and the only audio context. And whatever
else is on belongs to that call, too, all the time, if and only if no
permission prompt is granted after its call. -/
theorem owned_iff_in_time {events : List Event} (he : loaded.Possible events) :
    loaded.Always (fun page =>
        (∀ k, (page.socket k).isLive = true → page.ws = some k) ∧
        ∀ k, page.on .audioContext k = true → page.ws = some k) events ∧
      (loaded.Always Owned events ↔ loaded.InTime events) := by
  constructor
  · apply always_of_inv _ inv_loaded he
    intro page h
    exact ⟨fun k => (h.current k).mpr, fun k hk => (h.context k hk).1⟩
  · exact always_owned_iff inv_loaded owned_loaded he

theorem owned_iff_in_time_call :
    loaded.Always Owned [.clickStart, .opened 0, .granted 0, .clickEnd, .closed 0] ↔
      loaded.InTime [.clickStart, .opened 0, .granted 0, .clickEnd, .closed 0] :=
  (owned_iff_in_time (by decide)).2

/-- **A microphone can be stopped** as long as it was not overwritten, and never
after that. -/
theorem stream_stops_iff {events : List Event} (he : loaded.Possible events) {k : ℕ}
    (hon : (loaded.after events).on .mediaStream k = true) :
    (∃ rest, loaded.Possible (events ++ rest) ∧
        (loaded.after (events ++ rest)).on .mediaStream k = false) ↔
      (loaded.after events).global .mediaStream = some k := by
  have hinv := after_inv inv_loaded he
  constructor
  · rintro ⟨rest, hpossible, hoff⟩
    by_contra hlost
    have hrest := (possible_append.mp hpossible).2
    have hstill := (after_lost hinv ⟨hon, hlost⟩ hrest).1
    rw [← after_append, hoff] at hstill
    cases hstill
  · intro hheld
    obtain ⟨rest, hrest, hoff⟩ := exists_endCall hinv
    refine ⟨rest, possible_append.mpr ⟨he, hrest⟩, ?_⟩
    rw [after_append]
    exact hoff .mediaStream k hheld

/-- Two prompts are open, and the first is answered last. -/
def twoPrompts : List Event :=
  [.clickStart, .opened 0, .closed 0, .clickStart, .opened 1, .granted 1, .granted 0]

theorem stream_stops_iff_twoPrompts : ¬ ∃ rest, loaded.Possible (twoPrompts ++ rest) ∧
    (loaded.after (twoPrompts ++ rest)).on .mediaStream 1 = false := by
  rw [stream_stops_iff (by decide) (by decide)]
  decide

/-- **A call is cut short** by the close event of an earlier one if and only if
it is started while that one is still closing. -/
theorem cut_short_iff {events : List Event} (he : loaded.Possible (events ++ [.clickStart])) :
    (∃ rest j, loaded.Possible (events ++ .clickStart :: rest) ∧
        (loaded.after (events ++ .clickStart :: rest)).CutShort (loaded.after events).calls j) ↔
      ∃ j, (loaded.after events).socket j = .closing := by
  obtain ⟨hevents, hstart, _⟩ := possible_append.mp he
  have hinv := after_inv inv_loaded hevents
  have hstarted := step_inv hinv hstart
  constructor
  · rintro ⟨rest, j, hpossible, hcut⟩
    by_contra hnone
    have hrest := (possible_append.mp hpossible).2.2
    have halone : ((loaded.after events).step .clickStart).Alone (loaded.after events).calls := by
      refine ⟨Nat.lt_succ_self _, fun _ i hi hclosing => hnone ⟨i, ?_⟩⟩
      have hsame : Function.update (loaded.after events).socket (loaded.after events).calls
          Socket.connecting i = .closing := hclosing
      rwa [Function.update_of_ne hi] at hsame
    have hafter := after_alone hstarted halone hrest
    have hafterInv := after_inv hstarted hrest
    rw [after_append] at hcut
    cases hcut.due with
    | inl hclosing => exact hafter.2 hcut.current j hcut.other hclosing
    | inr hlive =>
      have hws := hcut.current.symm.trans ((hafterInv.current j).mpr hlive)
      exact hcut.other (Option.some.inj hws).symm
  · rintro ⟨j, hj⟩
    have hother : j ≠ (loaded.after events).calls := by
      intro heq
      rw [(hinv.unmade j (Nat.le_of_eq heq.symm)).1] at hj
      cases hj
    refine ⟨[], j, he, ?_⟩
    rw [after_append]
    refine ⟨rfl, hother, Or.inl ?_⟩
    have hsame : Function.update (loaded.after events).socket (loaded.after events).calls
        Socket.connecting j = (loaded.after events).socket j := Function.update_of_ne hother ..
    exact hsame.trans hj

theorem cut_short_iff_hurried :
    ∃ rest j, loaded.Possible ([.clickStart, .opened 0, .granted 0, .clickEnd] ++ .clickStart :: rest) ∧
      (loaded.after ([.clickStart, .opened 0, .granted 0, .clickEnd] ++ .clickStart :: rest)).CutShort
        1 j := by
  have hpossible : loaded.Possible
      ([.clickStart, .opened 0, .granted 0, .clickEnd] ++ [.clickStart]) := by
    decide
  exact (cut_short_iff hpossible).mpr ⟨0, by decide⟩

end TechMart.WebCallClient
