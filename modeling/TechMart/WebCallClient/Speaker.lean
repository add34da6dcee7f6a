import TechMart.Pipecat.Pacing
import TechMart.WebCallClient.App

/-!
# From the pipeline to the speaker

The chunks the output transport sends, message by message to `app.js`. The page is
told of no interruption: what has been sent is heard. But the transport is never
far ahead of it. The two seconds of silence that end a call are not among it.
-/

namespace TechMart.WebCallClient

open Python TechMart.Bot TechMart.Pipecat Web.Base64 Web

/-- A chunk, and what the client's clock shows when its message arrives. -/
structure Delivery where
  audio : Audio
  clock : ℚ

/-- One message, from the transport to the page. -/
def receive (player : Player) (d : Delivery) : Player :=
  match serialize (.outputAudioRaw ⟨d.audio, pipelineParams.audioOutSampleRate, 1⟩) with
  | some msg => onMessage d.clock msg player
  | none => player

/-- What was played in a call whose audio context was made at `clock`. -/
def played (clock : ℚ) (deliveries : List Delivery) : List Source :=
  (deliveries.foldl receive (Player.opened clock)).sources

def samplesOf (audio : Audio) : List Sample := (int16Array audio).getD []

def arrivalOf (d : Delivery) : Arrival := ⟨samplesOf d.audio, d.clock⟩

/-- How long the page plays a chunk for. -/
def chunkLength (size : ChunkSize) : ℚ := (size.bytes : ℚ) / 2 / 16000

/-- The message of a chunk arrives while the page listens, at most `delay` after the
chunk was sent. -/
structure Delivered (opened delay : ℚ) (sent : Audio × ℚ) (d : Delivery) : Prop where
  audio : d.audio = sent.1
  opened : opened ≤ d.clock
  soon : d.clock ≤ sent.2 + delay

/-! ## The samples of a chunk -/

theorem int16Array_of_even {audio : Audio} (h : 2 ∣ audio.length) :
    ∃ samples, int16Array audio = some samples ∧ pcm16 samples = audio := by
  induction audio using int16Array.induct with
  | case1 => exact ⟨[], rfl, rfl⟩
  | case2 byte =>
    rw [List.length_singleton] at h
    omega
  | case3 lo hi bytes ih =>
    have hbytes : 2 ∣ bytes.length := by
      rw [List.length_cons, List.length_cons] at h
      omega
    obtain ⟨samples, hsamples, hback⟩ := ih hbytes
    refine ⟨_, by rw [int16Array, hsamples, Option.map_some], ?_⟩
    have hlo := lo.toNat_lt
    have hhi := hi.toNat_lt
    have hword : (BitVec.ofNat 16 (lo.toNat + 256 * hi.toNat)).toNat = lo.toNat + 256 * hi.toNat := by
      rw [BitVec.toNat_ofNat]
      omega
    have hlow : UInt8.ofNat ((lo.toNat + 256 * hi.toNat) % 256) = lo := ofNat_eq (by omega)
    have hhigh : UInt8.ofNat ((lo.toNat + 256 * hi.toNat) / 256) = hi := ofNat_eq (by omega)
    rw [pcm16, List.flatMap_cons, hword, hlow, hhigh]
    exact congrArg (fun rest => lo :: hi :: rest) hback

theorem pcm16_samplesOf {audio : Audio} (h : 2 ∣ audio.length) : pcm16 (samplesOf audio) = audio := by
  obtain ⟨samples, hsamples, hback⟩ := int16Array_of_even h
  rw [samplesOf, hsamples]
  exact hback

theorem length_pcm16 (samples : List Sample) : (pcm16 samples).length = 2 * samples.length := by
  induction samples with
  | nil => rfl
  | cons s samples ih =>
    rw [pcm16, List.flatMap_cons, List.length_append, ← pcm16, ih, List.length_cons]
    simp only [List.length_cons, List.length_nil]
    omega

/-- A chunk of a known size is heard, and for how long. -/
theorem length_arrivalOf {size : ChunkSize} (hsize : 2 ∣ size.bytes) {d : Delivery}
    (hd : d.audio.length = size.bytes) : length (arrivalOf d) = chunkLength size := by
  have hbytes : 2 * (samplesOf d.audio).length = size.bytes := by
    rw [← hd, ← length_pcm16, pcm16_samplesOf (hd ▸ hsize)]
  have hcast : (size.bytes : ℚ) = 2 * (samplesOf d.audio).length := by exact_mod_cast hbytes.symm
  rw [length, duration_bufferOf, chunkLength, hcast, arrivalOf]
  ring

/-! ## What is played -/

section
variable {size : ChunkSize} {opened : ℚ} {deliveries : List Delivery}

theorem played_eq (hsize : 2 ∣ size.bytes) (hall : ∀ d ∈ deliveries, d.audio.length = size.bytes) :
    played opened deliveries = heard opened (deliveries.map arrivalOf) := by
  have hreceive (player : Player) : ∀ d ∈ deliveries, receive player d = hear player (arrivalOf d) := by
    intro d hd
    have hback : pcm16 (samplesOf d.audio) = d.audio := pcm16_samplesOf (hall d hd ▸ hsize)
    show receive player d = receive player ⟨pcm16 (samplesOf d.audio), d.clock⟩
    rw [hback]
  rw [played, heard, List.foldl_map]
  congr 1
  apply List.foldl_ext
  intro player d hd
  exact hreceive player d hd

theorem audible_map_arrivalOf (hsize : 2 ∣ size.bytes)
    (hall : ∀ d ∈ deliveries, d.audio.length = size.bytes) :
    audible (deliveries.map arrivalOf) = deliveries.map arrivalOf := by
  apply List.filter_eq_self.mpr
  intro a ha
  obtain ⟨d, hd, rfl⟩ := List.mem_map.mp ha
  have hpositive := size.positive
  have hback := congrArg List.length (pcm16_samplesOf (hall d hd ▸ hsize))
  rw [length_pcm16, hall d hd] at hback
  cases hsamples : samplesOf d.audio with
  | nil =>
    rw [hsamples, List.length_nil] at hback
    omega
  | cons sample samples =>
    rw [arrivalOf, hsamples]
    rfl

variable {sent : List (Audio × ℚ)} {delay : ℚ}

theorem map_audio (h : List.Forall₂ (Delivered opened delay) sent deliveries) :
    deliveries.map Delivery.audio = sent.map Prod.fst := by
  induction h with
  | nil => rfl
  | cons hd _ ih => rw [List.map_cons, List.map_cons, ih, hd.audio]

theorem opened_of_delivered (h : List.Forall₂ (Delivered opened delay) sent deliveries) :
    ∀ d ∈ deliveries, opened ≤ d.clock := by
  induction h with
  | nil => exact List.forall_mem_nil _
  | cons hd _ ih => exact List.forall_mem_cons.mpr ⟨hd.opened, ih⟩

theorem late_of_delivered (hsize : 2 ∣ size.bytes)
    (h : List.Forall₂ (Delivered opened delay) sent deliveries)
    (hall : ∀ d ∈ deliveries, d.audio.length = size.bytes) :
    List.Forall₂ (fun (a : Arrival) (chunk : Audio × ℚ) =>
      a.clock ≤ chunk.2 + delay ∧ length a = chunkLength size) (deliveries.map arrivalOf) sent := by
  induction h with
  | nil => exact .nil
  | cons hd _ ih =>
    obtain ⟨hlength, hrest⟩ := List.forall_mem_cons.mp hall
    exact .cons ⟨hd.soon, length_arrivalOf hsize hlength⟩ (ih hrest)

/-- What is played is over when a listener has heard it who hears it at once, or by
the delay later. -/
theorem finish_le (hsize : 2 ∣ size.bytes)
    (h : List.Forall₂ (Delivered opened delay) sent deliveries)
    (hall : ∀ d ∈ deliveries, d.audio.length = size.bytes) :
    ∀ source ∈ heard opened (deliveries.map arrivalOf), source.finish ≤
      Playout.cursorAfter Prod.snd (fun _ => chunkLength size) 0 sent + delay := by
  have hnonneg (a : Arrival) : 0 ≤ length a := by
    rw [length, duration_bufferOf]
    positivity
  intro source hsource
  rw [heard_eq, scheduled, audible_map_arrivalOf hsize hall] at hsource
  obtain ⟨p, hp, rfl⟩ := List.mem_map.mp hsource
  have hopened : ∀ a ∈ deliveries.map arrivalOf, opened ≤ a.clock :=
    List.forall_mem_map.mpr (opened_of_delivered h)
  have hsome : deliveries.map arrivalOf ≠ [] := by
    intro hnil
    rw [hnil] at hp
    cases hp
  have hlate := late_of_delivered hsize h hall
  have hfinish := Playout.finish_le_cursorAfter hnonneg opened _ p hp
  exact hfinish.trans (Playout.cursorAfter_late_of_le hlate hopened hsome 0)

end

/-- What the page plays of a transport, with `n` cuts since it was last done. -/
structure HeardSoon (size : ChunkSize) (n : ℕ) (s : OutputTransport) (delay : ℚ)
    (deliveries : List Delivery) (sources : List Source) : Prop where
  /-- The chunks sent are of those that were made of the bot's audio. -/
  made : ∃ events, s.sender = MediaSender.run size events ∧
    List.Sublist (s.sent.map Prod.fst) s.sender.queued
  /-- Each is played, with its samples, one after the other. -/
  plays : PlaysInOrder (deliveries.map arrivalOf) sources
  /-- And soon over. -/
  ends : ∀ source ∈ sources, source.finish ≤ s.now + delay + (n + 2) * chunkLength size

theorem chunkLength_nonneg (size : ChunkSize) : 0 ≤ chunkLength size := by
  rw [chunkLength]
  positivity

/-- The page plays a chunk in half the time the transport takes for it. -/
theorem chunkLength_le (size : ChunkSize) :
    chunkLength size ≤ sendInterval size pipelineParams.audioOutSampleRate := by
  have hbytes : (0 : ℚ) ≤ size.bytes := Nat.cast_nonneg _
  have hrate : ((pipelineParams.audioOutSampleRate : ℕ) : ℚ) = 8000 := rfl
  rw [chunkLength, sendInterval, hrate]
  linarith

/-- **Nothing is taken back, but it is soon over.** In any run of the transport,
however often it is interrupted, and if no message takes longer than `delay`: the
page plays every chunk that was sent, in order and none over another, and is done
with them by `delay` and two chunks from now, and one chunk more for each cut since
it was last done. -/
theorem heard_soon {size : ChunkSize} (hsize : 2 ∣ size.bytes) {n : ℕ} {s : OutputTransport}
    (h : Reaches size (sendInterval size pipelineParams.audioOutSampleRate) (chunkLength size) n s)
    {opened delay : ℚ} {deliveries : List Delivery}
    (hdelivered : List.Forall₂ (Delivered opened delay) s.sent deliveries) :
    HeardSoon size n s delay deliveries (played opened deliveries) := by
  obtain ⟨⟨events, hevents⟩, hwritten⟩ := sender_of_reaches h
  have hsized : Sized size s.sender := hevents ▸ sized_run size events
  have hsent : List.Sublist (s.sent.map Prod.fst) s.sender.queued :=
    hwritten.trans ((List.sublist_append_left ..).trans hsized.written)
  have hall : ∀ d ∈ deliveries, d.audio.length = size.bytes := by
    intro d hd
    apply hsized.queued
    apply hsent.subset
    rw [← map_audio hdelivered]
    exact List.mem_map_of_mem hd
  have hheard : played opened deliveries = heard opened (deliveries.map arrivalOf) :=
    played_eq hsize hall
  refine ⟨⟨events, hevents, hsent⟩, ?_, ?_⟩
  · rw [hheard]
    have hplays := plays_in_order opened (deliveries.map arrivalOf)
    rw [audible_map_arrivalOf hsize hall] at hplays
    exact hplays
  · intro source hsource
    rw [hheard] at hsource
    have hpaced := paced_of_reaches (chunkLength_le size) (chunkLength_nonneg size) h
    have hdone := hpaced.heardUntil_le (chunkLength_nonneg size)
    have hfinish := finish_le hsize hdelivered hall source hsource
    rw [OutputTransport.heardUntil] at hdone
    linarith

def oneSample : ChunkSize := ⟨2, by decide⟩

/-- A transport of chunks of one sample, which has sent one and is interrupted. -/
def cutOff : OutputTransport :=
  [.frame (.audio [0, 1] true), .take .connected, .interruption true].foldl
    (fun s event => s.step oneSample (sendInterval oneSample 8000) 0 event) (.started 0)

theorem sent_cutOff : cutOff.sent = [([0, 1], 0)] := by
  have hchunks : MediaSender.chunks oneSample [0, 1] = ([[0, 1]], []) := by
    rw [chunks_of_long (by decide), chunks_of_short (by decide)]
    rfl
  have hnext : (MediaSender.fresh.step oneSample (.audio [0, 1] true)).next = some [0, 1] := by
    show (MediaSender.fresh.handleAudioFrame oneSample [0, 1] true).next = _
    unfold MediaSender.handleAudioFrame MediaSender.fresh
    rw [List.nil_append, hchunks]
    rfl
  show (OutputTransport.handle _ oneSample _ (.take .connected)).sent = _
  unfold OutputTransport.handle
  dsimp only
  split
  · rename_i chunk hchunk
    cases hnext.symm.trans hchunk
    rfl
  · rename_i hnone
    cases hnext.symm.trans hnone

theorem heard_soon_cutOff : HeardSoon oneSample 1 cutOff 1 [⟨[0, 1], 1 / 2⟩]
    (played (1 / 4) [⟨[0, 1], 1 / 2⟩]) := by
  have hstart : Reaches oneSample (sendInterval oneSample pipelineParams.audioOutSampleRate)
      (chunkLength oneSample) 0 (.started 0) := .start 0 le_rfl
  have hgiven := hstart.step 0 (.frame (.audio [0, 1] true)) le_rfl rfl
  have htaken := hgiven.step 0 (.take .connected) le_rfl rfl
  have hcut := htaken.step 0 (.interruption true) (OutputTransport.now_step ..).le trivial
  have hdelivered : List.Forall₂ (Delivered (1 / 4) 1) cutOff.sent [⟨[0, 1], 1 / 2⟩] := by
    rw [sent_cutOff]
    refine .cons ⟨rfl, ?_, ?_⟩ .nil
    · norm_num
    · norm_num
  exact heard_soon (by decide) hcut hdelivered

end TechMart.WebCallClient
