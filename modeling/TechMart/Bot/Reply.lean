import TechMart.Bot.Handoff

/-!
# What the caller hears

The text frames of an uninterrupted turn, against the message its synthesizer
returned. The stream does not take back what a failed attempt has said.
-/

namespace TechMart.Bot

open Python TechMart.Graph LangGraph

/-- One attempt of the synthesizer's LLM: what it streamed, and how it ended. A
reply that is returned was streamed whole. -/
structure Attempt where
  text : Str
  outcome : Except Exn Str
  whole : ∀ reply, outcome = .ok reply → text = reply

namespace Attempt

def isAbandoned (attempt : Attempt) : Bool :=
  match attempt.outcome with
  | .ok _ => false
  | .error _ => true

end Attempt

/-- What these attempts streamed. -/
def attemptsText (attempts : List Attempt) : Str := attempts.flatMap Attempt.text

def abandoned (attempts : List Attempt) : List Attempt := attempts.filter Attempt.isAbandoned

/-- The text of the synthesizer in the stream, in whatever pieces it came. -/
def synthesizerText : StreamEvent → Str
  | .messages (some langgraphNode) (.str content) =>
    if langgraphNode = ("synthesizer" : Str) then content else []
  | _ => []

/-! ## Text by the piece -/

theorem spokenText_append (s t : Str) : spokenText (s ++ t) = spokenText s ++ spokenText t := by
  simp [spokenText, plainReply]

theorem spokenText_plainReply (s : Str) : spokenText (plainReply s) = spokenText s := by
  simp [spokenText, plainReply]

theorem spoken_eq (event : StreamEvent) :
    (spoken event).getD [] = spokenText (synthesizerText event) := by
  cases event with
  | values => rfl
  | messages langgraphNode content =>
    cases langgraphNode with
    | none => rfl
    | some langgraphNode =>
      cases content with
      | str content =>
        simp only [spoken, synthesizerText]
        by_cases hnode : langgraphNode = ("synthesizer" : Str)
        · rw [if_pos hnode]
          by_cases hcontent : content = []
          · rw [if_neg fun h => h.2 hcontent, hcontent]
            rfl
          · rw [if_pos ⟨hnode, hcontent⟩, Option.getD_some]
        · rw [if_neg hnode, if_neg fun h => hnode h.1]
          rfl
      | _ => rfl

/-- The pieces together are the whole text, filtered. -/
theorem flatten_spoken (events : List StreamEvent) :
    (events.filterMap spoken).flatten = spokenText (events.flatMap synthesizerText) := by
  induction events with
  | nil => rfl
  | cons event events ih =>
    rw [List.flatMap_cons, spokenText_append, ← ih, ← spoken_eq]
    cases hspoken : spoken event <;> simp [hspoken]

/-! ## The text of a turn -/

section
variable {late : Bool} {log : CallLog}

theorem heard_append (fs gs : List Frame) : heard (fs ++ gs) = heard fs ++ heard gs :=
  List.filterMap_append

theorem heard_eq_nil {p : Await → Bool} (h : ∀ c ∈ log, c.1.All p)
    (hp : ∀ a content, p a = true → a.frame ≠ some (.text content)) :
    heard (frames late log) = [] := by
  refine List.filterMap_eq_nil_iff.mpr ?_
  intro f hf
  obtain ⟨a, ha, hframe⟩ := mem_frames h hf
  cases f with
  | text content => exact absurd hframe (hp a content ha)
  | _ => rfl

theorem Outer.heard_frames (h : Outer log) : heard (frames late log) = [] := by
  refine heard_eq_nil h ?_
  intro a content ha hframe
  cases a <;> cases hframe
  cases ha

theorem Aside.heard_frames (h : Aside log) : heard (frames late log) = [] := by
  refine heard_eq_nil h ?_
  intro a content ha hframe
  cases a <;> cases hframe
  cases ha

theorem heard_texts (events : List StreamEvent) : heard (texts events) = events.filterMap spoken := by
  rw [heard, texts, List.filterMap_map]
  exact List.filterMap_some

theorem heard_delivery (events : List StreamEvent) :
    heard (pushes (delivery true events)) = events.filterMap spoken := by
  rw [pushes_delivery, heard_append, heard_texts]
  split <;> rfl

end

section
variable {rt : Runtime} {retryOn : Exn → Bool} {env : Env} {log : CallLog}

theorem Outer.countP_delivered (h : Outer log) : log.countP isDelivered = 0 := by
  rw [List.countP_eq_zero]
  rintro ⟨op, ans⟩ hc hdelivered
  have hop := h _ hc
  cases op with
  | setHandoffStatus => cases hop
  | await a => cases a <;> first | cases hdelivered | cases hop

/-- In a response only the stream raises an exception, at the start of a round. -/
theorem within_raised {firstToken : Bool} {ahead : List StreamEvent} {inner : List Await} {a : Await}
    {e : Raised} (h : Within firstToken ahead inner a) (hallowed : Allowed (.await a, .error e))
    (he : e ≠ .cancelled) : a = .nextEvent ∧ inner = [] := by
  cases h with
  | next => exact ⟨rfl, rfl⟩
  | ttfb | start | firstText | text | finalize => exact absurd (cancelled_of_allowed hallowed rfl) he

/-- A turn that is not cancelled has spoken all that the stream had of it. -/
theorem Round.Sound.heard_frames {round : Round (workflow rt retryOn)} (h : round.Sound env)
    (hwhole : ∀ a, ¬ CancelledAt round.log a) :
    heard round.frames = round.events.filterMap spoken := by
  have hprogress := played_progress h.played
  have hallowed := h.played.allowed
  have hraised := h.raised
  rw [Round.frames]
  generalize round.log = log at hprogress hallowed hraised hwhole
  generalize round.events = events at hprogress hraised
  cases hprogress with
  | unread _ hcut => exact absurd hcut (hwhole _)
  | @cut before log after e hbefore hcut hafter =>
    obtain ⟨done, ahead, inner, a, rfl, hwithin, rfl⟩ := cutAt_response hcut
    have hexception : e ≠ .cancelled := by
      rintro rfl
      exact hwhole a (by simp)
    obtain ⟨rfl, rfl⟩ := within_raised hwithin (hallowed _ (by simp)) hexception
    obtain ⟨e, rfl⟩ : ∃ exn, e = .exception exn := by
      cases e with
      | cancelled => exact absurd rfl hexception
      | exception exn => exact ⟨exn, rfl⟩
    -- What raised is the graph, so the stream has come to its last event.
    obtain ⟨-, hconsumed⟩ := hraised ⟨e, by simp⟩
    have hlast : ([(.await .nextEvent, .error (.exception e))] : CallLog).countP isDelivered =
        0 := rfl
    simp only [consumed, List.append_nil, List.countP_append, hbefore.countP_delivered,
      hafter.countP_delivered, countP_delivery, hlast, Nat.zero_add, Nat.add_zero,
      List.take_left] at hconsumed
    rw [← hconsumed, List.append_nil]
    simp only [frames_append, heard_append, hbefore.heard_frames, hafter.heard_frames, frames_answered,
      heard_delivery, List.append_nil, List.nil_append, frames_singleton]
    exact List.append_nil _
  | @read before rest after hbefore hrest hafter =>
    have hend : heard (pushes [.nextEvent, .finalizeResponse]) = [] := rfl
    have hset : heard (Bot.frames round.late
        (Prog.answered [.setHandoffStatus (finalStatus round.svc events)])) = [] := rfl
    rw [Prog.answered_append, response]
    simp only [frames_append, heard_append, hbefore.heard_frames, hafter.heard_frames,
      (handoff_aside hrest).heard_frames, frames_answered, pushes_append, heard_delivery, hend, hset, List.append_nil, List.nil_append]

end

/-! ## The attempts of the synthesizer -/

section
variable {rt : Runtime} {retryOn : Exn → Bool}

/-- What the calls of the last step were answered, and the messages it wrote. -/
def lastStep {N : Type} {g : LangGraph.Graph N AgentState AgentState Exn Graph.Call Str}
    (turn : Turn g) : Option (List (Except Exn Str) × List Message) :=
  match turn.steps.getLast? with
  | some [z] => some (z.calls.map Prod.snd, z.update.messages)
  | _ => none

/-- The attempts of the synthesizer in a turn that came to its end or failed,
and the message it returned, if any. -/
inductive SynthRun (turn : Turn (workflow rt retryOn)) : List Attempt → Option Str → Prop
  | returned {attempts : List Attempt} {content : Str} : turn.Ended →
      lastStep turn = some (attempts.map Attempt.outcome, [⟨.ai, content⟩]) →
      SynthRun turn attempts (some content)
  | raised {attempts : List Attempt} {calls : List (Graph.Call × Except Exn Str)} {e : Exn} :
      turn.stop = some (.failed .synthesizer e) →
      Prog.Path ((workflow rt retryOn).node .synthesizer turn.state) calls (.raise e) →
      calls.map Prod.snd = attempts.map Attempt.outcome → SynthRun turn attempts none
  | unasked {n : Node} {e : Exn} : turn.stop = some (.failed n e) → n ≠ .synthesizer →
      SynthRun turn [] none

/-- The synthesizer asks its LLM, unless the handoff was accepted. -/
theorem synthesizerNode_eq (state : AgentState) :
    synthesizerNode state = .done (aiMessage []) ∨
    synthesizerNode state = .call (.synthLlm (synthPrompt state))
      (Prog.andThen fun reply => .done (aiMessage (plainReply reply))) := by
  unfold synthesizerNode
  split
  · exact Or.inl rfl
  · exact Or.inr (Prog.perform_bind _ _)

/-- The calls of attempts that failed. -/
def failures (q : Graph.Call) (failed : List Exn) : List (Graph.Call × Except Exn Str) :=
  failed.map fun e => (q, .error e)

/-- The attempts of a node that makes one call: all that failed, and the last one. -/
theorem retry_path {q : Graph.Call} {f : Str → AgentState} {r : NodeProg}
    {calls : List (Graph.Call × Except Exn Str)} (h : Prog.Path
      (Prog.retry retryOn (.call q (Prog.andThen fun reply => .done (f reply))) 1) calls r) :
    (∃ failed reply, calls = failures q failed ++ [(q, .ok reply)] ∧ r = .done (f reply)) ∨
    ∃ failed, calls = failures q failed ∧ ∀ u, r ≠ .done u := by
  have once {calls : List (Graph.Call × Except Exn Str)} (h : Prog.Path
      (.call q (Prog.andThen fun reply => .done (f reply)) : NodeProg) calls r) :
      (∃ failed reply, calls = failures q failed ++ [(q, .ok reply)] ∧ r = .done (f reply)) ∨
      ∃ failed, calls = failures q failed ∧ ∀ u, r ≠ .done u := by
    cases h with
    | refl => exact Or.inr ⟨[], rfl, fun _ h => by cases h⟩
    | @answered _ _ ans rest _ h =>
      cases ans with
      | ok reply =>
        obtain ⟨rfl, rfl⟩ := Prog.path_done h
        exact Or.inl ⟨[], reply, rfl, rfl⟩
      | error e =>
        obtain ⟨rfl, rfl⟩ := Prog.path_raise h
        exact Or.inr ⟨[e], rfl, fun _ h => by cases h⟩
  cases h with
  | refl => exact Or.inr ⟨[], rfl, fun _ h => by cases h⟩
  | @answered _ _ ans rest _ h =>
    cases ans with
    | ok reply =>
      obtain ⟨rfl, rfl⟩ := Prog.path_done h
      exact Or.inl ⟨[], reply, rfl, rfl⟩
    | error e =>
      simp only [Prog.andThen, Prog.tryCatch] at h
      split at h
      · rcases once h with ⟨failed, reply, rfl, rfl⟩ | ⟨failed, rfl, hr⟩
        · exact Or.inl ⟨e :: failed, reply, rfl, rfl⟩
        · exact Or.inr ⟨e :: failed, rfl, hr⟩
      · obtain ⟨rfl, rfl⟩ := Prog.path_raise h
        exact Or.inr ⟨[e], rfl, fun _ h => by cases h⟩

theorem answers_failures (q : Graph.Call) (failed : List Exn) :
    (failures q failed).map Prod.snd = failed.map .error := by
  simp [failures]

theorem abandoned_append (attempts attempts' : List Attempt) :
    abandoned (attempts ++ attempts') = abandoned attempts ++ abandoned attempts' :=
  List.filter_append ..

theorem abandoned_of_failed {attempts : List Attempt} {failed : List Exn}
    (h : attempts.map Attempt.outcome = failed.map .error) : abandoned attempts = attempts := by
  refine List.filter_eq_self.mpr ?_
  intro attempt hattempt
  have hmem : attempt.outcome ∈ failed.map Except.error := by
    rw [← h]
    exact List.mem_map_of_mem hattempt
  obtain ⟨e, -, he⟩ := List.mem_map.mp hmem
  simp only [Attempt.isAbandoned, ← he]

/-- What the attempts streamed is what was abandoned and then the reply. -/
theorem attemptsText_returned {attempts : List Attempt} {failed : List Exn} {reply : Str}
    (h : attempts.map Attempt.outcome = failed.map .error ++ [.ok reply]) :
    attemptsText attempts = attemptsText (abandoned attempts) ++ reply := by
  obtain ⟨before, last, rfl, hbefore, hlast⟩ := List.map_eq_append_iff.mp h
  obtain ⟨attempt, rfl, hattempt⟩ := List.map_eq_singleton_iff.mp hlast
  have hreturned : abandoned [attempt] = [] := by simp [abandoned, Attempt.isAbandoned, hattempt]
  rw [abandoned_append, abandoned_of_failed hbefore, hreturned, List.append_nil, attemptsText,
    List.flatMap_append, List.flatMap_singleton, attempt.whole reply hattempt]
  rfl

variable {env : Env} {round : Round (workflow rt retryOn)} {attempts : List Attempt}
  {content : Option Str}

/-- The last step of a completed turn is the synthesizer's. -/
theorem Round.Sound.synthesized (h : round.Sound env) (hended : round.turn.Ended) :
    ∃ z : Record (workflow rt retryOn), round.turn.steps.getLast? = some [z] ∧
      z.node = .synthesizer ∧ z.read.customerProfile = some round.svc.customerProfile := by
  have hcourse := h.course hended
  generalize round.turn.steps = steps at hcourse
  generalize round.turn.state = state at hcourse
  generalize hnodes : ([] : List Node) = nodes at hcourse
  cases hcourse with
  | routing | answering => cases hnodes
  | working _ hrequested => exact absurd (List.map_eq_nil_iff.mp hnodes.symm) hrequested
  | @ended r last ans ws z hrouted hworked hz =>
    have hread : z.read.customerProfile = _ := worked_channel
      (fun s u hu => by rw [AgentState.reduce, hu, Option.none_or]) (fun _ _ => rfl)
      (fun _ => rfl) hworked
    exact ⟨z, List.getLast?_concat, hz, hread.trans (after_router hrouted).2.2.1⟩

theorem lastStep_eq {N : Type} {g : LangGraph.Graph N AgentState AgentState Exn Graph.Call Str}
    {turn : Turn g} {z : Record g} (h : turn.steps.getLast? = some [z]) :
    lastStep turn = some (z.calls.map Prod.snd, z.update.messages) := by
  simp only [lastStep, h]

theorem SynthRun.text (h : round.Sound env) (hsynth : SynthRun round.turn attempts content) :
    spokenText (attemptsText attempts) =
      spokenText (attemptsText (abandoned attempts)) ++ spokenText (content.getD []) := by
  cases hsynth with
  | @returned _ content hended hreturned =>
    obtain ⟨z, hlast, hz, -⟩ := h.synthesized hended
    rw [lastStep_eq hlast] at hreturned
    obtain ⟨hcalls, hcontent⟩ := Prod.mk.inj (Option.some.inj hreturned)
    have hpath := z.path
    rw [hz] at hpath
    change Prog.Path (Prog.retry retryOn (synthesizerNode z.read) 1) _ _ at hpath
    rcases synthesizerNode_eq z.read with hnode | hnode
    · rw [hnode] at hpath
      obtain ⟨hnone, hend⟩ := Prog.path_done hpath
      rw [Prog.done.inj hend] at hcontent
      cases hcontent
      rw [hnone, List.map_nil, eq_comm, List.map_eq_nil_iff] at hcalls
      rw [hcalls]
      rfl
    · rw [hnode] at hpath
      rcases retry_path hpath with ⟨failed, reply, hanswers, hend⟩ | ⟨_, _, hend⟩
      · rw [Prog.done.inj hend] at hcontent
        cases hcontent
        rw [hanswers, List.map_append, answers_failures, eq_comm] at hcalls
        rw [attemptsText_returned hcalls, spokenText_append, Option.getD_some,
          spokenText_plainReply]
      · exact absurd rfl (hend _)
  | @raised _ calls e _ hpath hcalls =>
    change Prog.Path (Prog.retry retryOn (synthesizerNode round.turn.state) 1) _ _ at hpath
    rcases synthesizerNode_eq round.turn.state with hnode | hnode
    · rw [hnode] at hpath
      cases (Prog.path_done hpath).2
    · rw [hnode] at hpath
      rcases retry_path hpath with ⟨_, _, _, hend⟩ | ⟨failed, hanswers, -⟩
      · cases hend
      · rw [hanswers, answers_failures, eq_comm] at hcalls
        rw [abandoned_of_failed hcalls]
        exact (List.append_nil _).symm
  | unasked => rfl

end

/-- **When the caller hears the reply once.** The text frames of a turn that is
not cancelled are together the message that the synthesizer returned, filtered,
if and only if no attempt that was abandoned had streamed a text to be spoken. -/
theorem reply_heard_once_iff (rt : Runtime) (retryOn : Exn → Bool) (env : Env)
    (round : Round (workflow rt retryOn)) (attempts : List Attempt) (content : Option Str)
    (h : round.Sound env) (hwhole : ∀ a, ¬ CancelledAt round.log a)
    (hsynth : SynthRun round.turn attempts content)
    (hstream : round.events.flatMap synthesizerText = attemptsText attempts) :
    (heard round.frames).flatten = spokenText (content.getD []) ↔
      spokenText (attemptsText (abandoned attempts)) = [] := by
  rw [h.heard_frames hwhole, flatten_spoken, hstream, hsynth.text h]
  exact List.append_left_eq_self

/-! ## A reply that is begun twice -/

def orderReply : Str :=
  ("\x7b\"standalone_query\": \"order\", " : Str) ++ ("\"intents\": []\x7d" : Str)

/-- The connection to the synthesizer's LLM is lost. -/
def droppedAnswer : Node → Graph.Call → Except Exn Str
  | _, .synthLlm _ => .error ⟨"Connection reset"⟩
  | _, _ => .ok orderReply

def shippedAnswer : Node → Graph.Call → Except Exn Str
  | _, _ => .ok "It has shipped."

@[irreducible]
def shippedTurn : Turn (workflow Runtime.ascii fun _ => true) :=
  Turn.play shippedAnswer 2 (Turn.play droppedAnswer 4
    (Turn.start _ {} (callService.turnInput callMessages).initialState))

def shippedAttempts : List Attempt :=
  [⟨"It has ", .error ⟨"Connection reset"⟩, fun _ h => by cases h⟩,
   ⟨"It has shipped.", .ok "It has shipped.", fun _ h => by cases h; rfl⟩]

def shippedEvents : List StreamEvent :=
  [.messages (some ("synthesizer" : Str)) (.str "It has "),
   .messages (some ("synthesizer" : Str)) (.str "It has shipped."), .values shippedTurn.state]

def shippedRound : Round (workflow Runtime.ascii fun _ => true) where
  svc := callService
  messages := callMessages
  turn := shippedTurn
  events := shippedEvents
  log := playTurn callEnv callService shippedEvents none
  late := false

theorem shippedTurn_ended : shippedTurn.Ended := by
  have h : (shippedTurn.tasks.isEmpty && shippedTurn.stop.isNone) = true := by decide +kernel
  rw [Bool.and_eq_true, List.isEmpty_iff, Option.isNone_iff_eq_none] at h
  exact h

theorem playTurn_shipped : ∃ after, playTurn callEnv callService shippedEvents none =
    Prog.answered (awaits (opening ++ lead callService ++ [.nextEvent])) ++ after :=
  ⟨_, rfl⟩

theorem shippedRound_sound : shippedRound.Sound callEnv where
  reachable := by
    show Turn.Reachable _ _ shippedTurn
    unfold shippedTurn
    exact (Turn.Reachable.start.play (fun _ _ => trivial) 4).play (fun _ _ => trivial) 2
  played := played_playTurn ..
  unread hunread := by
    obtain ⟨after, hlog⟩ := playTurn_shipped
    refine absurd ?_ (hunread (.ok ()))
    rw [shippedRound, hlog]
    simp
  read _ := ⟨shippedTurn_ended, rfl⟩
  raised hraised := absurd hraised (not_streamRaised_playTurn callEnv callService shippedEvents none)

theorem shippedRound_synthRun :
    SynthRun shippedRound.turn shippedAttempts (some "It has shipped.") := by
  refine .returned shippedTurn_ended ?_
  decide +kernel

theorem shippedRound_stream :
    shippedRound.events.flatMap synthesizerText = attemptsText shippedAttempts := by
  decide +kernel

theorem shippedRound_whole (a : Await) : ¬ CancelledAt shippedRound.log a := by
  apply not_cancelledAt_of_countP
  decide +kernel

theorem reply_heard_once_iff_shippedRound :
    (heard shippedRound.frames).flatten = spokenText "It has shipped." ↔
      spokenText (attemptsText (abandoned shippedAttempts)) = [] :=
  reply_heard_once_iff _ _ callEnv _ _ _ shippedRound_sound shippedRound_whole
    shippedRound_synthRun shippedRound_stream

/-- The first attempt is dropped after two words; the caller hears them again. -/
theorem reply_begun_twice : shippedRound.Sound callEnv ∧ (∀ a, ¬ CancelledAt shippedRound.log a) ∧
    SynthRun shippedRound.turn shippedAttempts (some "It has shipped.") ∧
    shippedRound.events.flatMap synthesizerText = attemptsText shippedAttempts ∧
    (heard shippedRound.frames).flatten = ("It has It has shipped." : Str) ∧
    (heard shippedRound.frames).flatten ≠ spokenText "It has shipped." := by
  have hheard : (heard shippedRound.frames).flatten = ("It has It has shipped." : Str) := by
    decide +kernel
  refine ⟨shippedRound_sound, shippedRound_whole, shippedRound_synthRun, shippedRound_stream,
    hheard, ?_⟩
  rw [hheard]
  decide +kernel

end TechMart.Bot
