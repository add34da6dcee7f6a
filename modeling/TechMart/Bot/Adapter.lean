import TechMart.Graph.Workflow
import TechMart.Python.Cancel

/-!
# The LLM stage

`LangGraphLLMService._process_context` as a coroutine, await by await, and
around it the base class's `process_frame`. Every await expression of the
source has its own name in `Await`.
-/

namespace TechMart.Bot

open Python TechMart.Graph

/-! ## Awaits -/

inductive Await where
  | onBeforeProcessFrame
  | superProcessFrame
  | pushFrame
  | pushResponseStart
  | startProcessingMetrics
  | startTtfbMetrics
  | pushTtsUpdateSettings (language : Str)
  | nextEvent
  | stopTtfbMetrics
  | pushFirstTokenStart
  | pushText (content : Str)
  | finalizeResponse
  | post (vobizUrl authId authToken alegUrl : Str)
  | closeSession
  | pushRingback
  | pushEnd
  | onCompletionTimeout
  | pushError (errorMsg : Str)
  | stopProcessingMetrics
  | pushResponseEnd
  | onAfterProcessFrame

namespace Await

/-- It stands in the `try` block that catches `CancelledError`. -/
def guarded : Await → Bool
  | nextEvent | stopTtfbMetrics | pushFirstTokenStart | pushText _ | finalizeResponse
  | post .. | closeSession | pushRingback | pushEnd => true
  | _ => false

/-- It runs code outside Pipecat, whose own awaits catch what goes wrong in them. -/
def external : Await → Bool
  | nextEvent | post .. | closeSession => true
  | _ => false

end Await

/-- What can be raised at an await. -/
inductive Raised where
  | exception (e : Exn)
  | cancelled

/-- The calls of the coroutine: an await, or the one field it writes. -/
inductive Op where
  | await (a : Await)
  | setHandoffStatus (status : Str)

abbrev Coro := Prog Raised Op Unit

/-- How a call can end by itself. -/
def serves : Op → Except Raised Unit → Prop
  | .await a, ans => ans = .ok () ∨ a.external = true ∧ ∃ e, ans = .error (.exception e)
  | .setHandoffStatus _, ans => ans = .ok ()

def awaitOn (a : Await) : Coro Unit := Prog.perform (.await a)

/-- `except Exception as e`, which lets a cancellation through. -/
def exceptException (handler : Exn → Coro Unit) : Raised → Coro Unit
  | .exception e => handler e
  | .cancelled => .raise .cancelled

/-- `except asyncio.CancelledError: pass`. -/
def exceptCancelled : Raised → Coro Unit
  | .cancelled => .done ()
  | .exception e => .raise (.exception e)

/-! ## The service -/

structure LLMService where
  customerProfile : Dict Value
  callId : Str
  sessionId : Str
  ticketId : Str
  handoffStatus : Str
  userEmotion : Str

/-- The state it starts a turn from. -/
def LLMService.turnInput (svc : LLMService) (messages : List Message) : TurnInput where
  messages := messages
  customerProfile := svc.customerProfile
  sessionId := svc.sessionId
  ticketId := svc.ticketId
  handoffStatus := svc.handoffStatus
  userEmotion := svc.userEmotion

/-- The environment variables, and which exceptions are timeouts. -/
structure Env where
  vobizAuthId : Option Str
  vobizAuthToken : Option Str
  publicUrl : Option Str
  isTimeout : Exn → Bool

/-- What the graph streams. -/
inductive StreamEvent where
  | messages (langgraphNode : Option Str) (content : Value)
  | values (state : AgentState)

def ttsSupportedLanguages : List Str :=
  ["bn-IN", "en-IN", "gu-IN", "hi-IN", "kn-IN", "ml-IN", "mr-IN", "od-IN", "pa-IN", "ta-IN", "te-IN"]

/-- The language the TTS is set to; `Language` knows all of them but `od-IN`. -/
def ttsLanguage (profile : Dict Value) : Str :=
  match profile.getD "detected_language" (.str "en-IN") with
  | .str code => if code ∈ ttsSupportedLanguages ∧ code ≠ ("od-IN" : Str) then code else "en-IN"
  | _ => "en-IN"

/-- `content.replace("*", "").replace("#", "").replace("-", " ")`. -/
def spokenText (content : Str) : Str := (plainReply content).map fun c => if c = '-' then ' ' else c

/-! ## A turn -/

section
variable (env : Env) (svc : LLMService)

/-- The text of an event that is to be spoken. -/
def spoken : StreamEvent → Option Str
  | .messages (some langgraphNode) (.str content) =>
    if langgraphNode = ("synthesizer" : Str) ∧ content ≠ [] then some (spokenText content) else none
  | _ => none

/-- The `async for` over what the graph streams; its value is the handoff status
of `final_state`. -/
def streamLoop : (firstToken : Bool) → (finalStatus : Str) → List StreamEvent → Coro Str
  | _, finalStatus, [] => do
    awaitOn .nextEvent
    pure finalStatus
  | firstToken, finalStatus, event :: events => do
    awaitOn .nextEvent
    match spoken event with
    | some content =>
      if firstToken then do
        awaitOn .stopTtfbMetrics
        awaitOn .pushFirstTokenStart
        awaitOn (.pushText content)
        streamLoop false finalStatus events
      else do
        awaitOn (.pushText content)
        streamLoop false finalStatus events
    | none => match event with
      | .values state => streamLoop firstToken (state.handoffStatus.getD "None") events
      | .messages .. => streamLoop firstToken finalStatus events

/-- `url.rstrip('/')`. -/
def rstripSlash (url : Str) : Str := (url.reverse.dropWhile (· = '/')).reverse

/-- The request for the transfer; what goes wrong with it is printed. -/
def postTransfer (vobizUrl authId authToken alegUrl : Str) : Coro Unit :=
  ((awaitOn (.post vobizUrl authId authToken alegUrl)).tryFinally (awaitOn .closeSession)).tryCatch
    (exceptException fun _ => .done ())

/-- The transfer of an accepted handoff, if all it needs is configured. -/
def transfer : Coro Unit :=
  let authId := env.vobizAuthId.getD []
  let authToken := env.vobizAuthToken.getD []
  let publicUrl := env.publicUrl.getD []
  if authId.isEmpty || authToken.isEmpty || publicUrl.isEmpty || svc.callId.isEmpty then pure ()
  else postTransfer
    (("https://api.vobiz.ai/api/v1/Account/" : Str) ++ authId ++ "/Call/" ++ svc.callId ++ "/")
    authId authToken (rstripSlash publicUrl ++ "/transfer-to-human")

/-- The body of the `try` block. -/
def respond (events : List StreamEvent) : Coro Unit := do
  let handoffStatus ← streamLoop true svc.handoffStatus events
  awaitOn .finalizeResponse
  Prog.perform (.setHandoffStatus handoffStatus)
  if handoffStatus = ("Accepted" : Str) then do
    transfer env svc
    awaitOn .pushRingback
    awaitOn .pushEnd
  else pure ()

def processContext (events : List StreamEvent) : Coro Unit := do
  awaitOn .startTtfbMetrics
  awaitOn (.pushTtsUpdateSettings (ttsLanguage svc.customerProfile))
  (respond env svc events).tryCatch exceptCancelled

/-! ## The base class -/

/-- A frame of the processing queue. -/
inductive QueuedFrame where
  | context
  | other (uninterruptible : Bool)

def QueuedFrame.uninterruptible : QueuedFrame → Bool
  | context => false
  | other uninterruptible => uninterruptible

def completionFailed (e : Exn) : Coro Unit :=
  if env.isTimeout e then do
    awaitOn .onCompletionTimeout
    awaitOn (.pushError "LLM completion timeout")
  else awaitOn (.pushError (("Error during completion: " : Str) ++ e.text))

/-- `process_frame`; a context frame is a turn over `events`. -/
def baseProcessFrame (events : List StreamEvent) : QueuedFrame → Coro Unit
  | .context => do
    awaitOn .superProcessFrame
    ((do
      awaitOn .pushResponseStart
      awaitOn .startProcessingMetrics
      processContext env svc events : Coro Unit).tryCatch
        (exceptException (completionFailed env))).tryFinally (do
      awaitOn .stopProcessingMetrics
      awaitOn .pushResponseEnd)
  | .other _ => do
    awaitOn .superProcessFrame
    awaitOn .pushFrame

/-- One round of the processing task, between two frames it takes. -/
def processFrame (events : List StreamEvent) (frame : QueuedFrame) : Coro Unit :=
  (do
    awaitOn .onBeforeProcessFrame
    baseProcessFrame env svc events frame
    awaitOn .onAfterProcessFrame : Coro Unit).tryCatch
      (exceptException fun e => awaitOn (.pushError (("Error processing frame: " : Str) ++ e.text)))

end

end TechMart.Bot
