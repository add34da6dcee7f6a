import TechMart.Graph.State

/-!
# The nodes

Each node as a program: its calls are the LLMs and the four context builders,
and its value is the update it returns. The prompts are records of what the
code puts into them.
-/

namespace TechMart.Graph

open Python

inductive Worker where
  | support
  | orders
  | catalog
  | history
  deriving DecidableEq

namespace Worker

def all : List Worker := [support, orders, catalog, history]

def intent : Worker → Str
  | support => "support"
  | orders => "orders"
  | catalog => "catalog"
  | history => "history"

/-- What stands before the worker's data. -/
def tag : Worker → Str
  | support => "[SUPPORT]\n"
  | orders => "[ORDERS]\n"
  | catalog => "[CATALOG]\n"
  | history => "[HISTORY]\n"

end Worker

/-- What the router's prompt is made of. -/
structure RouterPrompt where
  handoffStatus : Str
  currentMemory : Dict Value
  conversationHistory : Str

/-- What the synthesizer's messages are made of. -/
structure SynthPrompt where
  targetLangName : Str
  handoffStatus : Str
  customerInfo : Dict Value
  currentMemory : Dict Value
  userEmotion : Str
  ragContexts : List Str
  messages : List Message

inductive Call where
  | routerClient
  | routerLlm (prompt : RouterPrompt)
  | supportContext (query : Str)
  | orderContext (customerId : Value) (query : Str)
  | catalogContext (query : Str)
  | historyContext (customerId : Value)
  | synthLlm (prompt : SynthPrompt)

/-- A node at work. -/
abbrev NodeProg := Prog Exn Call Str AgentState

def indexError : Exn := ⟨"list index out of range"⟩

/-- `xs[-n:]`. -/
def lastN {α : Type} (n : ℕ) (xs : List α) : List α := xs.drop (xs.length - n)

/-! ## Router -/

/-- One line of the conversation. -/
def transcriptLine (m : Message) : Str :=
  (if m.role = .human then ("User" : Str) else "Agent") ++ ": " ++ m.content

def routerPrompt (state : AgentState) : RouterPrompt where
  handoffStatus := state.handoffStatus.getD "None"
  currentMemory := state.structuredMemory.getD []
  conversationHistory := join "\n" ((lastN 6 state.messages).map transcriptLine)

/-- Fall-forward safety: the offer of a human, and the memory as it was. -/
def routerFallback (state : AgentState) (englishQuery : Str) : RouterOutput where
  standaloneQuery := englishQuery
  intents := []
  handoffAction := "offer_handoff"
  structuredMemory := state.structuredMemory.getD []

def newHandoffStatus (handoffAction : Str) : Str :=
  if handoffAction = "offer_handoff" then "Offered"
  else if handoffAction = "accept_handoff" then "Accepted"
  else "None"

def routerUpdate (result : RouterOutput) : AgentState where
  activeIntents := some (result.intents.filter fun i => i ∈ Worker.all.map Worker.intent)
  handoffStatus := some (newHandoffStatus result.handoffAction)
  englishQuery := some result.standaloneQuery
  structuredMemory := some result.structuredMemory

section
variable (rt : Runtime)

/-- The router's result, from what its LLM answered. -/
def routerResult (state : AgentState) (englishQuery : Str) : Except Exn Str → RouterOutput
  | .ok content => match RouterOutput.ofReply rt content with
    | .ok result => result
    | .error _ => routerFallback state englishQuery
  | .error _ => routerFallback state englishQuery

def routerNode (state : AgentState) : NodeProg :=
  match state.messages.getLast? with
  | none => .raise indexError
  | some last => do
    let _ ← Prog.perform .routerClient
    let result ← Prog.tryCatch
      (do
        let rawResult ← Prog.perform (.routerLlm (routerPrompt state))
        Prog.ofExcept (RouterOutput.ofReply rt rawResult))
      (fun _ => .done (routerFallback state last.content))
    pure (routerUpdate result)

end

/-! ## Workers -/

def context (w : Worker) (data : Str) : AgentState := { ragContexts := [w.tag ++ data] }

/-- `state.get("english_query", state["messages"][-1].content)`; the default is
looked up in any case. -/
def withQuery (state : AgentState) (f : Str → NodeProg) : NodeProg :=
  match state.messages.getLast? with
  | none => .raise indexError
  | some last => f (state.englishQuery.getD last.content)

def customerId (profile : Dict Value) : Value := profile.getD "customer_id" (.str [])

def supportWorker (state : AgentState) : NodeProg :=
  withQuery state fun q => do
    let data ← Prog.perform (.supportContext q)
    pure (context .support data)

def orderWorker (state : AgentState) : NodeProg :=
  let cid := customerId (state.customerProfile.getD [])
  if cid.truthy then
    withQuery state fun q => do
      let data ← Prog.perform (.orderContext cid q)
      pure (context .orders data)
  else pure (context .orders "No customer ID.")

def catalogWorker (state : AgentState) : NodeProg :=
  withQuery state fun q => do
    let data ← Prog.perform (.catalogContext q)
    pure (context .catalog data)

def historyWorker (state : AgentState) : NodeProg :=
  let cid := customerId (state.customerProfile.getD [])
  if cid.truthy then do
    let data ← Prog.perform (.historyContext cid)
    pure (context .history data)
  else pure (context .history "No customer ID.")

def Worker.node : Worker → AgentState → NodeProg
  | support => supportWorker
  | orders => orderWorker
  | catalog => catalogWorker
  | history => historyWorker

/-! ## Synthesizer -/

def langMap : Dict Str :=
  [("hi-IN", "Hindi"), ("kn-IN", "Kannada"), ("en-IN", "English"), ("ml-IN", "Malayalam"),
   ("ta-IN", "Tamil"), ("te-IN", "Telugu"), ("bn-IN", "Bengali"), ("gu-IN", "Gujarati"),
   ("mr-IN", "Marathi"), ("pa-IN", "Punjabi"), ("od-IN", "Odia")]

/-- `lang_map.get(target_code, "English")`. -/
def targetLangName (profile : Dict Value) : Str :=
  match profile.getD "detected_language" (.str "en-IN") with
  | .str code => langMap.getD code "English"
  | _ => "English"

def synthPrompt (state : AgentState) : SynthPrompt where
  targetLangName := targetLangName (state.customerProfile.getD [])
  handoffStatus := state.handoffStatus.getD "None"
  customerInfo := state.customerProfile.getD []
  currentMemory := state.structuredMemory.getD []
  userEmotion := state.userEmotion.getD []
  ragContexts := state.ragContexts
  messages := lastN 4 state.messages

/-- `content.replace("*", "").replace("#", "")`. -/
def plainReply (content : Str) : Str := content.filter fun c => c != '*' && c != '#'

def aiMessage (content : Str) : AgentState := { messages := [⟨.ai, content⟩] }

def synthesizerNode (state : AgentState) : NodeProg :=
  if state.handoffStatus.getD "None" = ("Accepted" : Str) then pure (aiMessage [])
  else do
    let resp ← Prog.perform (.synthLlm (synthPrompt state))
    pure (aiMessage (plainReply resp))

end TechMart.Graph
