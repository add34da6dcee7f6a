import TechMart.Bot.WebSerializer
import TechMart.Web.Playout

/-!
# The web client's player

`ws.onmessage` and `playAudioChunk` of `app.js`, fed with what the serializer
sends. The buffers play in order, without overlaps and without gaps the network
did not make; but they play at 16 kHz what the pipeline speaks at 8 kHz.
-/

namespace TechMart.WebCallClient

open Python TechMart.Bot Web.Base64 Web

structure AudioBuffer where
  sampleRate : ℕ
  channelData : List ℚ

def AudioBuffer.duration (b : AudioBuffer) : ℚ := b.channelData.length / b.sampleRate

/-- A buffer source that was started. -/
structure Source where
  buffer : AudioBuffer
  start : ℚ

def Source.finish (s : Source) : ℚ := s.start + s.buffer.duration

structure Player where
  audioContext : Bool
  playTime : ℚ
  sources : List Source

/-- `new Int16Array(buffer)`; an odd number of bytes is a `RangeError`. -/
def int16Array : List UInt8 → Option (List Sample)
  | [] => some []
  | [_] => none
  | lo :: hi :: bytes =>
    (int16Array bytes).map fun int16 => BitVec.ofNat 16 (lo.toNat + 256 * hi.toNat) :: int16

/-- `createBuffer`, which takes no length of zero, and the loop that fills it. -/
def createBuffer (int16 : List Sample) : Option AudioBuffer :=
  if int16.isEmpty then none else some ⟨16000, int16.map fun s => (s.toInt : ℚ) / 32768⟩

def decodeChunk (base64Str : Str) : Option AudioBuffer := do
  let uint8 ← atob base64Str
  let int16 ← int16Array uint8
  createBuffer int16

/-- What raises here does so before anything is set. -/
def playAudioChunk (currTime : ℚ) (base64Str : Str) (player : Player) : Player :=
  if player.audioContext then
    match decodeChunk base64Str with
    | some audioBuffer =>
      let playTime := if player.playTime < currTime then currTime else player.playTime
      { player with
        playTime := playTime + audioBuffer.duration
        sources := player.sources ++ [⟨audioBuffer, playTime⟩] }
    | none => player
  else player

/-- `msg.name`, if there is such a field. -/
def member (msg : Value) (name : Str) : Option Value :=
  match msg with
  | .dict kvs => Dict.get? kvs name
  | _ => none

/-- `msg.media.payload` of a media message, where it is there and not empty. -/
def mediaPayload (msg : Value) : Option Str :=
  match member msg "event", (member msg "media").bind fun media => member media "payload" with
  | some (.str event), some (.str payload) =>
    if event = "media" ∧ payload ≠ [] then some payload else none
  | _, _ => none

def onMessage (currTime : ℚ) (msg : Value) (player : Player) : Player :=
  match mediaPayload msg with
  | some payload => playAudioChunk currTime payload player
  | none => player

/-- A chunk, and what the client's clock shows when its message arrives. -/
structure Arrival where
  chunk : List Sample
  clock : ℚ

/-- One chunk, from the pipeline to the speaker. -/
def hear (player : Player) (a : Arrival) : Player :=
  match serialize (speechFrame a.chunk) with
  | some msg => onMessage a.clock msg player
  | none => player

/-- The player once the connection is open. -/
def Player.opened (clock : ℚ) : Player := ⟨true, clock, []⟩

/-- What was played in a call whose audio context was made at `clock`. -/
def heard (clock : ℚ) (arrivals : List Arrival) : List Source :=
  (arrivals.foldl hear (Player.opened clock)).sources

/-- The arrivals that have anything to play. -/
def audible (arrivals : List Arrival) : List Arrival := arrivals.filter fun a => !a.chunk.isEmpty

/-! ## What is to be heard -/

/-- The samples of the chunk, not before it arrives. -/
structure Carries (a : Arrival) (s : Source) : Prop where
  samples : s.buffer.channelData = a.chunk.map fun x => (x.toInt : ℚ) / 32768
  arrived : a.clock ≤ s.start

/-- One source for each chunk, in order, one after the other, and no gap where
the next chunk was there in time. -/
structure PlaysInOrder (arrivals : List Arrival) (sources : List Source) : Prop where
  carries : List.Forall₂ Carries arrivals sources
  disjoint : sources.Pairwise fun s t => s.finish ≤ t.start
  contiguous : (arrivals.zip sources).IsChain fun x y =>
    y.1.clock ≤ x.2.finish → y.2.start = x.2.finish

/-- A source that lasts as long as its chunk does at this rate. -/
def Lasts (rate : ℕ) (a : Arrival) (s : Source) : Prop :=
  s.finish - s.start = (a.chunk.length : ℚ) / rate

/-- The audio on the time line of a server that speaks at this rate. -/
structure OnTimeLine (rate : ℕ) (arrivals : List Arrival) (sources : List Source) : Prop where
  inOrder : PlaysInOrder arrivals sources
  lasts : List.Forall₂ (Lasts rate) arrivals sources

/-! ## From the pipeline to the buffer -/

theorem int16Array_pcm16 (samples : List Sample) : int16Array (pcm16 samples) = some samples := by
  induction samples with
  | nil => rfl
  | cons s samples ih =>
    have hs := s.isLt
    have hlo : (UInt8.ofNat (s.toNat % 256)).toNat = s.toNat % 256 := by
      rw [UInt8.toNat_ofNat']
      omega
    have hhi : (UInt8.ofNat (s.toNat / 256)).toNat = s.toNat / 256 := by
      rw [UInt8.toNat_ofNat']
      omega
    have hsample : BitVec.ofNat 16 (s.toNat % 256 + 256 * (s.toNat / 256)) = s := by
      rw [Nat.mod_add_div, BitVec.ofNat_toNat, BitVec.setWidth_eq]
    show int16Array (_ :: _ :: pcm16 samples) = _
    rw [int16Array, ih, hlo, hhi, hsample, Option.map_some]

/-- The buffer of a chunk. -/
def bufferOf (chunk : List Sample) : AudioBuffer :=
  ⟨16000, chunk.map fun s => (s.toInt : ℚ) / 32768⟩

theorem decodeChunk_sent {chunk : List Sample} (h : chunk ≠ []) :
    decodeChunk (b64encode (pcm16 chunk)) = some (bufferOf chunk) := by
  have hsome : chunk.isEmpty = false := List.isEmpty_eq_false_iff.mpr h
  simp only [decodeChunk, atob_b64encode, int16Array_pcm16, Option.bind_eq_bind, Option.bind_some,
    createBuffer, hsome, Bool.false_eq_true, if_false, bufferOf]

theorem b64encode_ne_nil {bytes : List UInt8} (h : bytes ≠ []) : b64encode bytes ≠ [] := by
  intro hnil
  have hbytes := atob_b64encode bytes
  rw [hnil] at hbytes
  exact h (Option.some.inj hbytes).symm

theorem mediaPayload_sent (payload : Str) :
    mediaPayload (.dict [("event", .str "media"), ("media", .dict [("payload", .str payload)])]) =
      if payload ≠ [] then some payload else none := by
  simp [mediaPayload, member, Dict.get?]

theorem duration_bufferOf (chunk : List Sample) :
    (bufferOf chunk).duration = (chunk.length : ℚ) / 16000 := by
  simp [bufferOf, AudioBuffer.duration]

/-! ## The player's run -/

def length (a : Arrival) : ℚ := (bufferOf a.chunk).duration

theorem hear_empty {a : Arrival} (h : a.chunk = []) (player : Player) : hear player a = player := by
  have hpayload : mediaPayload (.dict [("event", .str "media"),
      ("media", .dict [("payload", .str (b64encode (pcm16 a.chunk)))])]) = none := by
    rw [mediaPayload_sent, h]
    rfl
  simp only [hear, speechFrame, serialize, onMessage, hpayload]

theorem hear_audible {a : Arrival} (h : a.chunk ≠ []) {player : Player}
    (hopen : player.audioContext = true) :
    hear player a = ⟨true, Playout.startAt player.playTime a.clock + length a,
      player.sources ++ [⟨bufferOf a.chunk, Playout.startAt player.playTime a.clock⟩]⟩ := by
  have hbytes : pcm16 a.chunk ≠ [] := by
    intro hnil
    have hchunk := int16Array_pcm16 a.chunk
    rw [hnil] at hchunk
    exact h (Option.some.inj hchunk).symm
  have hpayload : mediaPayload (.dict [("event", .str "media"),
      ("media", .dict [("payload", .str (b64encode (pcm16 a.chunk)))])]) =
        some (b64encode (pcm16 a.chunk)) := by
    rw [mediaPayload_sent, if_pos (b64encode_ne_nil hbytes)]
  simp only [hear, speechFrame, serialize, onMessage, hpayload, playAudioChunk, hopen, if_true,
    decodeChunk_sent h, Playout.startAt, length]

/-- The chunks that can be heard, with the times they are played at. -/
def scheduled (playTime : ℚ) (arrivals : List Arrival) : List (Arrival × ℚ) :=
  Playout.schedule Arrival.clock length playTime (audible arrivals)

def sourceOf (p : Arrival × ℚ) : Source := ⟨bufferOf p.1.chunk, p.2⟩

/-- The player is a play cursor. -/
theorem sources_foldl (arrivals : List Arrival) (playTime : ℚ) (sources : List Source) :
    (arrivals.foldl hear ⟨true, playTime, sources⟩).sources =
      sources ++ (scheduled playTime arrivals).map sourceOf := by
  induction arrivals generalizing playTime sources with
  | nil => exact (List.append_nil _).symm
  | cons a arrivals ih =>
    rw [List.foldl_cons]
    by_cases h : a.chunk = []
    · rw [hear_empty h, ih]
      simp [scheduled, audible, h]
    · rw [hear_audible h rfl, ih]
      simp [scheduled, audible, h, Playout.schedule, sourceOf]

theorem heard_eq (clock : ℚ) (arrivals : List Arrival) :
    heard clock arrivals = (scheduled clock arrivals).map sourceOf :=
  sources_foldl arrivals clock []

theorem map_fst_scheduled (clock : ℚ) (arrivals : List Arrival) :
    (scheduled clock arrivals).map Prod.fst = audible arrivals :=
  Playout.map_fst_schedule clock _

/-- What holds of each chunk and its source. -/
theorem forall₂_heard {R : Arrival → Source → Prop} (clock : ℚ) (arrivals : List Arrival) :
    List.Forall₂ R (audible arrivals) (heard clock arrivals) ↔
      ∀ p ∈ scheduled clock arrivals, R p.1 (sourceOf p) := by
  rw [heard_eq, ← map_fst_scheduled clock arrivals, List.forall₂_map_left_iff,
    List.forall₂_map_right_iff, List.forall₂_same]

/-! ## On which time line -/

theorem plays_in_order (clock : ℚ) (arrivals : List Arrival) :
    PlaysInOrder (audible arrivals) (heard clock arrivals) := by
  have hlength (a : Arrival) : 0 ≤ length a := by
    rw [length, duration_bufferOf]
    positivity
  constructor
  · rw [forall₂_heard]
    intro p hp
    exact ⟨rfl, Playout.arrival_le clock (audible arrivals) p hp⟩
  · rw [heard_eq, List.pairwise_map]
    exact Playout.disjoint hlength clock (audible arrivals)
  · have hcontiguous : (scheduled clock arrivals).IsChain fun p q =>
        q.1.clock ≤ Playout.finish length p → q.2 = Playout.finish length p :=
      Playout.contiguous clock (audible arrivals)
    rw [heard_eq, ← map_fst_scheduled clock arrivals, List.zip_map', List.isChain_map]
    exact hcontiguous

/-- A chunk lasts as long as it should only at the rate of the buffer. -/
theorem lasts_iff {rate : ℕ} (hrate : 0 < rate) (p : Arrival × ℚ) :
    Lasts rate p.1 (sourceOf p) ↔ rate = 16000 ∨ p.1.chunk = [] := by
  have hpos : (0 : ℚ) < rate := by exact_mod_cast hrate
  rw [Lasts, Source.finish, add_sub_cancel_left, sourceOf, duration_bufferOf,
    div_eq_div_iff (by norm_num) hpos.ne', mul_eq_mul_left_iff, Nat.cast_eq_zero,
    List.length_eq_zero_iff]
  norm_cast

theorem onTimeLine_iff {rate : ℕ} (hrate : 0 < rate) (clock : ℚ) (arrivals : List Arrival) :
    OnTimeLine rate (audible arrivals) (heard clock arrivals) ↔
      rate = 16000 ∨ ∀ a ∈ arrivals, a.chunk = [] := by
  have hlasts : List.Forall₂ (Lasts rate) (audible arrivals) (heard clock arrivals) ↔
      ∀ a ∈ audible arrivals, rate = 16000 ∨ a.chunk = [] := by
    rw [forall₂_heard, ← map_fst_scheduled clock arrivals]
    simp only [lasts_iff hrate, List.forall_mem_map]
  constructor
  · intro h
    by_cases hsame : rate = 16000
    · exact Or.inl hsame
    · refine Or.inr fun a ha => ?_
      by_contra hchunk
      have haudible : a ∈ audible arrivals := by simp [audible, ha, hchunk]
      exact (hlasts.mp h.lasts a haudible).elim hsame hchunk
  · intro h
    refine ⟨plays_in_order clock arrivals, hlasts.mpr fun a ha => ?_⟩
    exact h.imp_right fun hempty => hempty a (List.mem_of_mem_filter ha)

/-- **The web client against the server's clock.** Whatever is sent and whenever
it arrives, the chunks are played in order, each with its samples, none before
it arrives, none over another, and without a gap that no late arrival explains.
They last as long as the pipeline means them to only where there is nothing to
hear: the client plays 16000 samples a second, the pipeline makes 8000. -/
theorem on_servers_time_line_iff (clock : ℚ) (arrivals : List Arrival) :
    PlaysInOrder (audible arrivals) (heard clock arrivals) ∧
    (OnTimeLine pipelineParams.audioOutSampleRate (audible arrivals) (heard clock arrivals) ↔
      ∀ a ∈ arrivals, a.chunk = []) := by
  refine ⟨plays_in_order clock arrivals, ?_⟩
  rw [onTimeLine_iff (by decide)]
  exact or_iff_right (by decide)

/-- Twenty milliseconds of silence, over after ten. -/
theorem silence_ends_early :
    ¬ OnTimeLine pipelineParams.audioOutSampleRate (audible [⟨List.replicate 160 0, 0⟩])
      (heard 0 [⟨List.replicate 160 0, 0⟩]) := by
  rw [onTimeLine_iff (by decide)]
  rintro (hrate | hempty)
  · revert hrate
    decide
  · cases hempty _ List.mem_cons_self

end TechMart.WebCallClient
