import TechMart.Python.Json
import TechMart.Python.Prog

/-!
# The graph state

`AgentState` with its reducers, and the JSON replies of the LLMs: the fence
stripping all three of them share, and the router's validated output.
-/

namespace TechMart.Graph

open Python

inductive Role where
  | human
  | ai
  | tool
  | system
  deriving DecidableEq

structure Message where
  role : Role
  content : Str
  deriving DecidableEq

/-- The channels, and just as well an update of some of them: a key that is
absent is `none`, or the empty list of an additive channel. -/
structure AgentState where
  messages : List Message := []
  ragContexts : List Str := []
  customerProfile : Option (Dict Value) := none
  activeIntents : Option (List Str) := none
  englishQuery : Option Str := none
  sessionId : Option Str := none
  ticketId : Option Str := none
  handoffStatus : Option Str := none
  userEmotion : Option Str := none
  structuredMemory : Option (Dict Value) := none

/-- The reducers: messages and contexts add up, the last write of any other
channel stands. -/
def AgentState.reduce (s u : AgentState) : AgentState where
  messages := s.messages ++ u.messages
  ragContexts := s.ragContexts ++ u.ragContexts
  customerProfile := u.customerProfile.or s.customerProfile
  activeIntents := u.activeIntents.or s.activeIntents
  englishQuery := u.englishQuery.or s.englishQuery
  sessionId := u.sessionId.or s.sessionId
  ticketId := u.ticketId.or s.ticketId
  handoffStatus := u.handoffStatus.or s.handoffStatus
  userEmotion := u.userEmotion.or s.userEmotion
  structuredMemory := u.structuredMemory.or s.structuredMemory

/-! ## Replies -/

def fence : Str := "```"

/-- The clean-up before `json.loads`. -/
def cleanReply (content : Str) : Str :=
  let s := strip content
  let s := if startswith s (fence ++ "json") then sliceFrom s 7 else s
  let s := if startswith s fence then sliceFrom s 3 else s
  let s := if endswith s fence then sliceDropLast s 3 else s
  strip s

def Reply.load (rt : Runtime) (content : Str) : Except Exn Value :=
  Json.loads rt (cleanReply content)

/-- A list whose entries are all strings. -/
def strings : List Value → Option (List Str)
  | [] => some []
  | .str s :: vs => (strings vs).map (s :: ·)
  | _ :: _ => none

structure RouterOutput where
  standaloneQuery : Str
  intents : List Str
  handoffAction : Str
  structuredMemory : Dict Value

/-- The string field of a model, with its default where it has one. -/
def strField (rt : Runtime) (kvs : Dict Value) (name : Str) (default : Option Str) :
    Except Exn Str :=
  match kvs.get? name, default with
  | some (.str s), _ => .ok s
  | none, some s => .ok s
  | _, _ => .error ⟨rt.validationError (.dict kvs)⟩

def intentsField (rt : Runtime) (kvs : Dict Value) : Except Exn (List Str) :=
  match kvs.get? "intents" with
  | some (.list vs) => match strings vs with
    | some intents => .ok intents
    | none => .error ⟨rt.validationError (.dict kvs)⟩
  | _ => .error ⟨rt.validationError (.dict kvs)⟩

def memoryField (rt : Runtime) (kvs : Dict Value) : Except Exn (Dict Value) :=
  match kvs.get? "structured_memory" with
  | some (.dict memory) => .ok memory
  | none => .ok []
  | some _ => .error ⟨rt.validationError (.dict kvs)⟩

/-- `RouterOutput(**parsed_json)`. -/
def RouterOutput.ofJson (rt : Runtime) : Value → Except Exn RouterOutput
  | .dict kvs => do
    let standaloneQuery ← strField rt kvs "standalone_query" none
    let intents ← intentsField rt kvs
    let handoffAction ← strField rt kvs "handoff_action" (some "none")
    let structuredMemory ← memoryField rt kvs
    .ok ⟨standaloneQuery, intents, handoffAction, structuredMemory⟩
  | _ => .error ⟨"RouterOutput() argument after ** must be a mapping"⟩

def RouterOutput.ofReply (rt : Runtime) (content : Str) : Except Exn RouterOutput :=
  (Reply.load rt content).bind (ofJson rt)

end TechMart.Graph
