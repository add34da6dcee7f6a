import TechMart.Graph.Nodes
import TechMart.LangGraph.Server

/-!
# The workflow

The router, the workers it asks for side by side, then the synthesizer. What a
turn has done is read off the supersteps of its run: `workflow_course`.
-/

namespace TechMart.Graph

open Python LangGraph

inductive Node where
  | router
  | worker (w : Worker)
  | synthesizer
  deriving DecidableEq

def routeWorkers (state : AgentState) : List Node :=
  let intents := state.activeIntents.getD []
  if intents.isEmpty then [.synthesizer]
  else
    let routes :=
      (if ("support" : Str) ∈ intents then [Node.worker .support] else []) ++
      (if ("orders" : Str) ∈ intents then [Node.worker .orders] else []) ++
      (if ("catalog" : Str) ∈ intents then [Node.worker .catalog] else []) ++
      (if ("history" : Str) ∈ intents then [Node.worker .history] else [])
    if routes.isEmpty then [.synthesizer] else routes

/-- The compiled graph. `retryOn` is what its retry policy takes for worth
another attempt. -/
def workflow (rt : Runtime) (retryOn : Exn → Bool) :
    LangGraph.Graph Node AgentState AgentState Exn Call Str where
  entry := .router
  node
    | .router => routerNode rt
    | .worker w => w.node
    | .synthesizer => fun state => Prog.retry retryOn (synthesizerNode state) 1
  reduce := AgentState.reduce
  targets
    | .router => routeWorkers
    | .worker _ => fun _ => [.synthesizer]
    | .synthesizer => fun _ => []

/-- What the adapter puts into a turn. -/
structure TurnInput where
  messages : List Message
  customerProfile : Dict Value
  sessionId : Str
  ticketId : Str
  handoffStatus : Str
  userEmotion : Str

/-- The initial state; its `detected_language` is no channel of the graph. -/
def TurnInput.initialState (input : TurnInput) : AgentState where
  messages := input.messages
  customerProfile := some input.customerProfile
  sessionId := some input.sessionId
  activeIntents := some []
  handoffStatus := some input.handoffStatus
  userEmotion := some input.userEmotion
  ticketId := some input.ticketId

/-! ## What the reply asks for -/

/-- The intents of a reply that is a valid `RouterOutput`. -/
def replyIntents (rt : Runtime) : Except Exn Str → List Str
  | .ok content => match RouterOutput.ofReply rt content with
    | .ok result => result.intents
    | .error _ => []
  | .error _ => []

/-- The workers whose intent is among them, each once. -/
def requested (rt : Runtime) (ans : Except Exn Str) : List Worker :=
  Worker.all.filter fun w => w.intent ∈ replyIntents rt ans

/-- What a worker asks for; nothing for a caller without a customer id. -/
def fetch (profile : Dict Value) (query : Str) : Worker → Option Call
  | .support => some (.supportContext query)
  | .catalog => some (.catalogContext query)
  | .orders =>
    if (customerId profile).truthy then some (.orderContext (customerId profile) query) else none
  | .history =>
    if (customerId profile).truthy then some (.historyContext (customerId profile)) else none

/-- The calls a worker's entry was filled by: its one question, answered. -/
def Filled (profile : Dict Value) (query : Str) (w : Worker) (calls : List (Call × Except Exn Str))
    (entry : Str) : Prop :=
  match fetch profile query w with
  | some call => ∃ data, calls = [(call, .ok data)] ∧ entry = w.tag ++ data
  | none => calls = [] ∧ entry = w.tag ++ "No customer ID."

section
variable {rt : Runtime} {retryOn : Exn → Bool}

/-! ## One node -/

theorem routerNode_eq {state : AgentState} {last : Message} (h : state.messages.getLast? = some last) :
    routerNode rt state = .call .routerClient (Prog.andThen fun _ =>
      .call (.routerLlm (routerPrompt state)) fun ans =>
        .done (routerUpdate (routerResult rt state last.content ans))) := by
  simp only [routerNode, h, Prog.perform_bind, Prog.tryCatch, Prog.call_bind]
  congr 2
  funext _
  congr 1
  funext ans
  cases ans with
  | error e => rfl
  | ok content =>
    simp only [Prog.andThen, routerResult]
    cases RouterOutput.ofReply rt content <;> rfl

theorem router_path {state : AgentState} {calls : List (Call × Except Exn Str)} {u : AgentState}
    (h : Prog.Path (routerNode rt state) calls (.done u)) :
    ∃ last a ans, state.messages.getLast? = some last ∧
      calls = [(.routerClient, .ok a), (.routerLlm (routerPrompt state), ans)] ∧
      u = routerUpdate (routerResult rt state last.content ans) := by
  cases hlast : state.messages.getLast? with
  | none =>
    simp only [routerNode, hlast] at h
    cases h
  | some last =>
    rw [routerNode_eq hlast] at h
    obtain ⟨a, _, rfl, hllm⟩ := Prog.path_andThen h
    obtain ⟨ans, _, rfl, hend⟩ := Prog.path_call hllm
    obtain ⟨rfl, heq⟩ := Prog.path_done hend
    cases heq
    exact ⟨last, a, ans, rfl, rfl, rfl⟩

/-- A worker's program: its one question, if it has one. -/
def fetchProg (w : Worker) : Option Call → NodeProg
  | some call => .call call (Prog.andThen fun data => .done (context w data))
  | none => .done (context w "No customer ID.")

theorem worker_eq {w : Worker} {state : AgentState} {last : Message} {query : Str}
    (hlast : state.messages.getLast? = some last) (hquery : state.englishQuery = some query) :
    w.node state = fetchProg w (fetch (state.customerProfile.getD []) query w) := by
  have hwith (f : Str → NodeProg) : withQuery state f = f query := by
    simp only [withQuery, hlast, hquery, Option.getD_some]
  cases w with
  | support => simp only [Worker.node, supportWorker, hwith, Prog.perform_bind, fetch, fetchProg,
      Prog.pure_eq]
  | catalog => simp only [Worker.node, catalogWorker, hwith, Prog.perform_bind, fetch, fetchProg,
      Prog.pure_eq]
  | orders =>
    simp only [Worker.node, orderWorker, hwith, Prog.perform_bind, fetch, Prog.pure_eq]
    split <;> rfl
  | history =>
    simp only [Worker.node, historyWorker, Prog.perform_bind, fetch, Prog.pure_eq]
    split <;> rfl

/-- What a worker that returned has put into the contexts. -/
theorem fetchProg_path {profile : Dict Value} {query : Str} {w : Worker}
    {calls : List (Call × Except Exn Str)} {u : AgentState}
    (h : Prog.Path (fetchProg w (fetch profile query w)) calls (.done u)) :
    ∃ entry, u.ragContexts = [entry] ∧ Filled profile query w calls entry := by
  unfold Filled
  cases hfetch : fetch profile query w with
  | some call =>
    rw [hfetch, fetchProg] at h
    obtain ⟨data, _, rfl, hend⟩ := Prog.path_andThen h
    obtain ⟨rfl, heq⟩ := Prog.path_done hend
    cases heq
    exact ⟨_, rfl, data, rfl, rfl⟩
  | none =>
    rw [hfetch, fetchProg] at h
    obtain ⟨rfl, heq⟩ := Prog.path_done h
    cases heq
    exact ⟨_, rfl, rfl, rfl⟩

/-! ## Routing -/

theorem requested_nodup (ans : Except Exn Str) : (requested rt ans).Nodup :=
  List.Nodup.filter _ (by decide)

/-- The nodes after the router: the requested workers, or none but the end. -/
def nodesAfter (ws : List Worker) : List Node :=
  if ws.isEmpty then [.synthesizer] else ws.map .worker

/-- The chain of tests in `route_workers` lists the workers it is about. -/
theorem routes_eq (p : Worker → Bool) :
    (let routes :=
      (if p .support then [Node.worker .support] else []) ++
      (if p .orders then [Node.worker .orders] else []) ++
      (if p .catalog then [Node.worker .catalog] else []) ++
      (if p .history then [Node.worker .history] else [])
    if routes.isEmpty then [.synthesizer] else routes) = nodesAfter (Worker.all.filter p) := by
  simp only [Worker.all, List.filter_cons, List.filter_nil]
  cases p .support <;> cases p .orders <;> cases p .catalog <;> cases p .history <;> rfl

theorem routerResult_intents (state : AgentState) (english : Str) (ans : Except Exn Str) :
    (routerResult rt state english ans).intents = replyIntents rt ans := by
  cases ans with
  | error e => rfl
  | ok content =>
    simp only [routerResult, replyIntents]
    cases RouterOutput.ofReply rt content <;> rfl

theorem routeWorkers_router (state : AgentState) (english : Str) (ans : Except Exn Str) :
    routeWorkers (state.reduce (routerUpdate (routerResult rt state english ans))) =
      nodesAfter (requested rt ans) := by
  let valid := (replyIntents rt ans).filter fun i => i ∈ Worker.all.map Worker.intent
  have hstate : (state.reduce (routerUpdate (routerResult rt state english ans))).activeIntents.getD
      [] = valid := by
    simp only [AgentState.reduce, routerUpdate, routerResult_intents, Option.some_or,
      Option.getD_some, valid]
  have hrequested : requested rt ans = Worker.all.filter fun w => decide (w.intent ∈ valid) := by
    refine List.filter_congr ?_
    intro w hw
    simp only [valid, List.mem_filter, decide_eq_true_eq, and_iff_left (List.mem_map_of_mem hw)]
  have hroutes := routes_eq fun w => decide (w.intent ∈ valid)
  rw [routeWorkers, hstate, hrequested, ← hroutes]
  cases valid with
  | nil => rfl
  | cons v vs =>
    simp only [List.isEmpty_cons, Bool.false_eq_true, if_false, decide_eq_true_eq]
    rfl

/-! ## The supersteps of a turn -/

theorem AgentState.reduce_empty (u : AgentState) : AgentState.reduce {} u = u := by
  cases u
  simp [AgentState.reduce]

/-- The record of a router run from channels `s₀`. -/
structure Routed (s₀ : AgentState) (r : Record (workflow rt retryOn)) (last : Message)
    (ans : Except Exn Str) : Prop where
  node : r.node = .router
  read : r.read = s₀
  latest : s₀.messages.getLast? = some last
  calls : ∃ a, r.calls = [(.routerClient, .ok a), (.routerLlm (routerPrompt s₀), ans)]
  update : r.update = routerUpdate (routerResult rt s₀ last.content ans)

theorem Routed.asked {s₀ : AgentState} {r : Record (workflow rt retryOn)} {last : Message}
    {ans : Except Exn Str} (h : Routed s₀ r last ans) :
    (.routerLlm (routerPrompt s₀), ans) ∈ r.calls := by
  obtain ⟨a, hcalls⟩ := h.calls
  simp [hcalls]

theorem Routed.query {s₀ : AgentState} {r : Record (workflow rt retryOn)} {last : Message}
    {ans : Except Exn Str} (h : Routed s₀ r last ans) :
    r.update.englishQuery = some (routerResult rt s₀ last.content ans).standaloneQuery := by
  rw [h.update]
  rfl

/-- The records of the requested workers, and the channels they lead to. -/
structure Worked (serves : Node → Call → Except Exn Str → Prop) (s₁ : AgentState)
    (ans : Except Exn Str) (ws : List (Record (workflow rt retryOn))) (state : AgentState) : Prop where
  nodes : ws.map Record.node = (requested rt ans).map .worker
  reads : ∀ w ∈ ws, w.read = s₁ ∧ ∀ c ∈ w.calls, serves w.node c.1 c.2
  merged : ∃ ordered : List (Record (workflow rt retryOn)), ordered.Perm ws ∧
    state = ordered.foldl (fun s r => s.reduce r.update) s₁

/-- The superstep of the workers, if any was requested. -/
def workSteps (ws : List (Record (workflow rt retryOn))) :
    List (List (Record (workflow rt retryOn))) :=
  if ws.isEmpty then [] else [ws]

/-- How far a turn can have come, its channels and the nodes that are next. -/
inductive Course (serves : Node → Call → Except Exn Str → Prop) (s₀ : AgentState) :
    List (List (Record (workflow rt retryOn))) → AgentState → List Node → Prop
  | routing : Course serves s₀ [] s₀ [.router]
  | working {r : Record (workflow rt retryOn)} {last : Message} {ans : Except Exn Str} :
      Routed s₀ r last ans → requested rt ans ≠ [] →
      Course serves s₀ [[r]] (s₀.reduce r.update) ((requested rt ans).map .worker)
  | answering {r : Record (workflow rt retryOn)} {last : Message} {ans : Except Exn Str}
      {ws : List (Record (workflow rt retryOn))} {state : AgentState} :
      Routed s₀ r last ans → Worked serves (s₀.reduce r.update) ans ws state →
      Course serves s₀ ([r] :: workSteps ws) state [.synthesizer]
  | ended {r : Record (workflow rt retryOn)} {last : Message} {ans : Except Exn Str}
      {ws : List (Record (workflow rt retryOn))} {z : Record (workflow rt retryOn)} :
      Routed s₀ r last ans → Worked serves (s₀.reduce r.update) ans ws z.read →
      z.node = .synthesizer →
      Course serves s₀ ([r] :: workSteps ws ++ [[z]]) (z.read.reduce z.update) []

theorem nodesAfter_nodup (ans : Except Exn Str) : (nodesAfter (requested rt ans)).Nodup := by
  unfold nodesAfter
  split
  · exact List.nodup_singleton _
  · exact (requested_nodup ans).map fun _ _ h => Node.worker.inj h

/-- Next after the router are the requested workers. -/
theorem nextNodes_router {s₀ : AgentState} {r : Record (workflow rt retryOn)} {last : Message}
    {ans : Except Exn Str} (h : Routed s₀ r last ans) :
    Turn.nextNodes [r] = nodesAfter (requested rt ans) := by
  have htargets : (workflow rt retryOn).targets r.node ((workflow rt retryOn).reduce r.read r.update) =
      nodesAfter (requested rt ans) := by
    rw [h.node, h.read, h.update]
    exact routeWorkers_router s₀ last.content ans
  rw [Turn.nextNodes, List.flatMap_singleton, htargets]
  exact (nodesAfter_nodup ans).dedup

/-- Next after workers is the synthesizer, once. -/
theorem nextNodes_workers {ws : List (Record (workflow rt retryOn))} {workers : List Worker}
    (hne : ws ≠ []) (hnodes : ws.map Record.node = workers.map .worker) :
    Turn.nextNodes ws = [.synthesizer] := by
  have htargets : ∀ w ∈ ws, (workflow rt retryOn).targets w.node
      ((workflow rt retryOn).reduce w.read w.update) = [.synthesizer] := by
    intro w hw
    have : w.node ∈ workers.map Node.worker := hnodes ▸ List.mem_map_of_mem hw
    obtain ⟨worker, -, hworker⟩ := List.mem_map.mp this
    rw [← hworker]
    rfl
  have hsame : ws.flatMap (fun _ => [Node.synthesizer]) = ws.map fun _ => .synthesizer :=
    List.flatMap_pure_eq_map _ ws
  rw [Turn.nextNodes, List.flatMap_congr htargets, hsame, List.map_const']
  exact List.replicate_dedup (by simpa using hne)

theorem worked_none {serves : Node → Call → Except Exn Str → Prop} {s₁ : AgentState}
    {ans : Except Exn Str} (h : requested rt ans = []) :
    Worked serves s₁ ans ([] : List (Record (workflow rt retryOn))) s₁ where
  nodes := by rw [h, List.map_nil, List.map_nil]
  reads := fun _ hw => absurd hw List.not_mem_nil
  merged := ⟨[], .refl _, rfl⟩

/-- Every run of the workflow keeps to the course of a turn. -/
theorem workflow_course {serves : Node → Call → Except Exn Str → Prop} {s₀ : AgentState}
    {steps : List (List (Record (workflow rt retryOn)))} {state : AgentState} {nodes : List Node}
    (h : Turn.Chain serves s₀ steps state nodes) : Course serves s₀ steps state nodes := by
  induction h with
  | start => exact .routing
  | @step steps state nodes records ordered _ hne hnodes hreads hperm ih =>
    cases ih with
    | routing =>
      obtain ⟨r, rfl⟩ := List.length_eq_one_iff.mp (by simpa using congrArg List.length hnodes)
      obtain ⟨hread, -⟩ := hreads r List.mem_cons_self
      have hnode : r.node = .router := by simpa using hnodes
      have hpath := r.path
      rw [hnode, hread] at hpath
      obtain ⟨last, a, ans, hlast, hcalls, hupdate⟩ := router_path hpath
      have hrouted : Routed s₀ r last ans := ⟨hnode, hread, hlast, ⟨a, hcalls⟩, hupdate⟩
      rw [nextNodes_router hrouted, List.perm_singleton.mp hperm]
      by_cases hrequested : requested rt ans = []
      · rw [nodesAfter, if_pos (by simpa using hrequested)]
        exact .answering hrouted (worked_none hrequested)
      · rw [nodesAfter, if_neg (by simpa using hrequested)]
        exact .working hrouted hrequested
    | @working r last ans hrouted hrequested =>
      have hworked : Worked serves (s₀.reduce r.update) ans records
          (ordered.foldl (fun s r => s.reduce r.update) (s₀.reduce r.update)) :=
        ⟨hnodes, hreads, ordered, hperm, rfl⟩
      have hsteps : [[r]] ++ [records] = [r] :: workSteps records := by simp [workSteps, hne]
      rw [nextNodes_workers hne hnodes, hsteps]
      exact .answering hrouted hworked
    | @answering r last ans ws state hrouted hworked =>
      obtain ⟨z, rfl⟩ := List.length_eq_one_iff.mp (by simpa using congrArg List.length hnodes)
      have hnode : z.node = .synthesizer := by simpa using hnodes
      obtain ⟨rfl, -⟩ := hreads z List.mem_cons_self
      have hnext : Turn.nextNodes [z] = [] := by
        simp only [Turn.nextNodes, List.flatMap_singleton, hnode]
        rfl
      rw [hnext, List.perm_singleton.mp hperm]
      exact .ended hrouted hworked hnode
    | ended => exact absurd (List.map_eq_nil_iff.mp hnodes) hne

/-- Router, workers, synthesizer: no turn goes on forever. -/
theorem turn_settles {serves : Node → Call → Except Exn Str → Prop} {checkpoint input : AgentState}
    {turn : Turn (workflow rt retryOn)}
    (h : Turn.Reachable serves (Turn.start _ checkpoint input) turn) : turn.Settles serves := by
  refine Turn.Reachable.settles 3 (fun t ht => ?_) h
  obtain ⟨nodes, sound⟩ := ht.sound
  have hcourse := workflow_course sound.chain
  generalize t.steps = steps at hcourse
  generalize t.state = state at hcourse
  have hwork (ws : List (Record (workflow rt retryOn))) : (workSteps ws).length ≤ 1 := by
    unfold workSteps
    split <;> simp
  cases hcourse with
  | routing | working => simp
  | answering | ended =>
    have := hwork ‹_›
    simp
    omega

/-- Workers only add to the contexts. -/
theorem foldl_ragContexts (ordered : List (Record (workflow rt retryOn))) (s : AgentState) :
    (ordered.foldl (fun s r => s.reduce r.update) s).ragContexts =
      s.ragContexts ++ ordered.flatMap fun r => r.update.ragContexts := by
  induction ordered generalizing s with
  | nil => simp
  | cons r ordered ih =>
    rw [List.foldl_cons, ih, List.flatMap_cons, AgentState.reduce, List.append_assoc]

/-! ## What a turn runs -/

/-- The turn ran the router, the workers `ws` that its answer asked for, and
then the synthesizer on the channels `read`, which returned or raised. -/
structure RanRequested (input : TurnInput) (turn : Turn (workflow rt retryOn))
    (r : Record (workflow rt retryOn)) (ans : Except Exn Str) (query : Str)
    (ws : List (Record (workflow rt retryOn))) (read : AgentState) : Prop where
  routed : r.node = .router ∧ (∃ prompt, (.routerLlm prompt, ans) ∈ r.calls) ∧
    r.update.englishQuery = some query
  workers : ws.map Record.node = (requested rt ans).map .worker
  steps : (∃ z : Record (workflow rt retryOn), z.node = .synthesizer ∧ z.read = read ∧
      turn.steps = [r] :: workSteps ws ++ [[z]]) ∨
    (∃ e, turn.stop = some (.failed .synthesizer e)) ∧ turn.state = read ∧
      turn.steps = [r] :: workSteps ws
  filled : ∀ w ∈ ws, ∃ worker entry, w.node = .worker worker ∧ w.update.ragContexts = [entry] ∧
    Filled input.customerProfile query worker w.calls entry
  contexts : read.ragContexts.Perm (ws.flatMap fun w => w.update.ragContexts)

/-- The router raised without an outcome of its LLM. -/
def NoOutcome (turn : Turn (workflow rt retryOn)) : Prop :=
  ∃ e calls, turn.stop = some (.failed .router e) ∧
    Prog.Path (routerNode rt turn.state) calls (.raise e) ∧
    ∀ prompt ans, (.routerLlm prompt, ans) ∉ calls

theorem router_raise {state : AgentState} {calls : List (Call × Except Exn Str)} {e : Exn}
    (h : Prog.Path (routerNode rt state) calls (.raise e)) :
    ∀ prompt ans, (.routerLlm prompt, ans) ∉ calls := by
  cases hlast : state.messages.getLast? with
  | none =>
    simp only [routerNode, hlast] at h
    obtain ⟨rfl, -⟩ := Prog.path_raise h
    exact fun _ _ => List.not_mem_nil
  | some last =>
    rw [routerNode_eq hlast] at h
    cases h with
    | @answered _ _ ans _ _ h =>
      cases ans with
      | error e =>
        obtain ⟨rfl, -⟩ := Prog.path_raise h
        simp
      | ok a =>
        cases h with
        | answered h => cases h

/-- The channels after the router: this turn's input with the router's query. -/
theorem after_router {input : TurnInput} {r : Record (workflow rt retryOn)} {last : Message}
    {ans : Except Exn Str} (h : Routed input.initialState r last ans) :
    let s₁ := input.initialState.reduce r.update
    let result := routerResult rt input.initialState last.content ans
    s₁.messages.getLast? = some last ∧ s₁.englishQuery = some result.standaloneQuery ∧
      s₁.customerProfile = some input.customerProfile ∧ s₁.ragContexts = [] := by
  have hlatest := h.latest
  rw [h.update]
  simp only [AgentState.reduce, routerUpdate, TurnInput.initialState, List.append_nil,
    Option.some_or, Option.none_or, and_self, and_true]
  exact hlatest

theorem worked_filled {serves : Node → Call → Except Exn Str → Prop} {input : TurnInput}
    {r : Record (workflow rt retryOn)} {last : Message} {ans : Except Exn Str}
    {ws : List (Record (workflow rt retryOn))} {state : AgentState}
    (hrouted : Routed input.initialState r last ans)
    (hworked : Worked serves (input.initialState.reduce r.update) ans ws state) :
    let result := routerResult rt input.initialState last.content ans
    (∀ w ∈ ws, ∃ worker entry, w.node = .worker worker ∧ w.update.ragContexts = [entry] ∧
      Filled input.customerProfile result.standaloneQuery worker w.calls entry) ∧
    state.ragContexts.Perm (ws.flatMap fun w => w.update.ragContexts) := by
  obtain ⟨hlast, hquery, hprofile, hcontexts⟩ := after_router hrouted
  constructor
  · intro w hw
    have hmem : w.node ∈ (requested rt ans).map Node.worker := by
      rw [← hworked.nodes]
      exact List.mem_map_of_mem hw
    obtain ⟨worker, -, hnode⟩ := List.mem_map.mp hmem
    have hpath := w.path
    rw [(hworked.reads w hw).1, ← hnode] at hpath
    have hprog : (workflow rt retryOn).node (.worker worker) (input.initialState.reduce r.update) =
        fetchProg worker (fetch input.customerProfile
          (routerResult rt input.initialState last.content ans).standaloneQuery worker) := by
      have := worker_eq (w := worker) hlast hquery
      rwa [hprofile, Option.getD_some] at this
    rw [hprog] at hpath
    obtain ⟨entry, hentry, hfilled⟩ := fetchProg_path hpath
    exact ⟨worker, entry, hnode.symm, hentry, hfilled⟩
  · obtain ⟨ordered, hperm, rfl⟩ := hworked.merged
    rw [foldl_ragContexts, hcontexts, List.nil_append]
    exact hperm.flatMap_right _

/-- **A turn runs exactly the workers the router asked for.** Whatever turns of
whatever calls run beside it, and whatever its calls answer or raise: a turn
that is not cancelled and none of whose workers raised can move on, or its
router raised before the LLM had an outcome, or it has run each requested
worker once and no other, then the synthesizer on their entries and no more. -/
theorem turn_runs_requested_workers {ι θ : Type} [DecidableEq ι] [DecidableEq θ] (rt : Runtime)
    (retryOn : Exn → Bool) (input : ι → TurnInput) (srv : Server ι θ (workflow rt retryOn))
    (i : ι) (thread : θ) (turn : Turn (workflow rt retryOn))
    (h : Server.Reachable (fun _ _ _ _ => True) {} (fun i => (input i).initialState) srv)
    (hturn : srv.turns i = some (thread, turn)) (hcancel : turn.stop ≠ some .cancelled)
    (hraise : ∀ w e, turn.stop ≠ some (.failed (.worker w) e)) :
    (∃ turn', Turn.Move (fun _ _ _ => True) turn turn') ∨ NoOutcome turn ∨
    ∃ r ans query ws read, RanRequested (input i) turn r ans query ws read := by
  obtain ⟨nodes, sound⟩ := (h.turn hturn).sound
  have hstart : (workflow rt retryOn).reduce {} (input i).initialState = (input i).initialState :=
    AgentState.reduce_empty _
  rw [hstart] at sound
  by_cases hmove : ∃ turn', Turn.Move (fun _ _ _ => True) turn turn'
  · exact Or.inl hmove
  right
  have hrest := sound.at_rest (fun _ _ => ⟨.error ⟨[]⟩, trivial⟩) (not_exists.mp hmove) hcancel
  have hcourse := workflow_course sound.chain
  generalize hsteps : turn.steps = steps at hcourse
  generalize hstate : turn.state = state at hcourse hrest
  cases hcourse with
  | routing =>
    obtain hnone | ⟨n, hn, e, calls, hstop, hpath, -⟩ := hrest
    · cases hnone
    · cases List.mem_singleton.mp hn
      exact Or.inl ⟨e, calls, hstop, hstate ▸ hpath, router_raise hpath⟩
  | working _ hrequested =>
    obtain hnone | ⟨n, hn, e, _, hstop, -⟩ := hrest
    · exact absurd (List.map_eq_nil_iff.mp hnone) hrequested
    · obtain ⟨w, -, rfl⟩ := List.mem_map.mp hn
      exact absurd hstop (hraise w e)
  | answering hrouted hworked =>
    obtain hnone | ⟨n, hn, e, _, hstop, -⟩ := hrest
    · cases hnone
    · cases List.mem_singleton.mp hn
      obtain ⟨hfilled, hcontexts⟩ := worked_filled hrouted hworked
      exact Or.inr ⟨_, _, _, _, _, ⟨hrouted.node, ⟨_, hrouted.asked⟩, hrouted.query⟩,
        hworked.nodes, Or.inr ⟨⟨e, hstop⟩, hstate, hsteps⟩, hfilled, hcontexts⟩
  | ended hrouted hworked hz =>
    obtain ⟨hfilled, hcontexts⟩ := worked_filled hrouted hworked
    exact Or.inr ⟨_, _, _, _, _, ⟨hrouted.node, ⟨_, hrouted.asked⟩, hrouted.query⟩,
      hworked.nodes, Or.inl ⟨_, hz, rfl, hsteps⟩, hfilled, hcontexts⟩

end

/-! ## A turn about an order -/

def demoInput : TurnInput where
  messages := [⟨.human, "Where is it?"⟩]
  customerProfile := [("customer_id", .str "CUST-0001")]
  sessionId := "session"
  ticketId := "TKT-1"
  handoffStatus := "None"
  userEmotion := "neutral"

/-- A reply that repeats one intent and makes one up. -/
def demoReply : Str :=
  ("\x7b\"standalone_query\": \"order\", " : Str) ++
    ("\"intents\": [\"orders\", \"cars\", \"orders\"]\x7d" : Str)

def demoAnswer : Node → Call → Except Exn Str
  | _, .routerLlm _ => .ok demoReply
  | _, .synthLlm _ => .ok "It is on its way."
  | _, _ => .ok "order_id: ORD-1"

def demoTurn : Turn (workflow Runtime.ascii fun _ => true) :=
  Turn.play demoAnswer 7 (Turn.start _ {} demoInput.initialState)

theorem demoTurn_ended : demoTurn.Ended := by
  have h : (demoTurn.tasks.isEmpty && demoTurn.stop.isNone) = true := by decide +kernel
  rw [Bool.and_eq_true, List.isEmpty_iff, Option.isNone_iff_eq_none] at h
  exact h

theorem turn_runs_requested_workers_demoTurn :
    ∃ r ans query ws read, RanRequested demoInput demoTurn r ans query ws read := by
  have hreach : Turn.Reachable (fun _ _ _ => True) (Turn.start _ {} demoInput.initialState) demoTurn :=
    Turn.Reachable.start.play (fun _ _ => trivial) 7
  obtain ⟨srv, hsrv, hturn⟩ := @Server.exists_server Unit Unit _ _ _ _ _ _ _ _ _ _
    (fun _ _ _ _ => True) {} (fun _ => demoInput.initialState) () () demoTurn hreach
  rcases turn_runs_requested_workers Runtime.ascii _ (fun _ => demoInput) srv () () demoTurn hsrv
    hturn (by simp [demoTurn_ended.2]) (by simp [demoTurn_ended.2]) with
    ⟨turn', hmove⟩ | ⟨e, _, hstop, -⟩ | h
  · exact absurd hmove (Turn.not_move_of_no_tasks demoTurn_ended.1)
  · simp [demoTurn_ended.2] at hstop
  · exact h

end TechMart.Graph
