import TechMart.Signal.Windows
import TechMart.Signal.Stretches

/-!
# The bot's audio

`MediaSender` of the output transport: audio comes in pieces of any size and is
queued in chunks of one. What is left over waits for more audio, or for the end of
the utterance, which fills it up with silence. When the bot stops speaking, what
waits is dropped.

Two branches are left out: `handle_interruptions` where a queued frame must not be
interrupted, which keeps the audio task, and the stop that the silence of a
`SpeechOutputAudioRawFrame` brings about.
-/

namespace TechMart.Pipecat

open Signal

abbrev Audio := List UInt8

/-- `_audio_chunk_size`, in bytes. -/
structure ChunkSize where
  bytes : ℕ
  positive : 0 < bytes

/-- `audio_bytes_10ms * audio_out_10ms_chunks`. -/
def audioChunkSize (sampleRate channels chunks : ℕ) : ℕ := sampleRate / 100 * channels * 2 * chunks

/-- The pipeline's rate, and the transport's defaults. -/
def telephone : ChunkSize := ⟨audioChunkSize 8000 1 4, by decide⟩

example : telephone.bytes = 640 := rfl

inductive QueuedAudio where
  | audio (chunk : Audio) (tts : Bool)
  | ttsStopped
  | other

/-- `bufferTts` is the class of the buffer's frames; `queued` are the chunks ever
put on the queue, `written` those given to the transport. -/
structure MediaSender where
  audioBuffer : Audio
  bufferTts : Bool
  audioQueue : List QueuedAudio
  botSpeaking : Bool
  ttsAudioReceived : Bool
  queued : List Audio
  written : List Audio

def QueuedAudio.chunk? : QueuedAudio → Option Audio
  | .audio chunk _ => some chunk
  | _ => none

inductive SenderEvent where
  /-- an `OutputAudioRawFrame`, resampled -/
  | audio (audio : Audio) (tts : Bool)
  | ttsStopped
  | sync
  | interruption
  /-- the audio task takes a frame -/
  | play
  /-- there was none for too long -/
  | timeout

namespace MediaSender

def fresh : MediaSender := ⟨[], false, [], false, false, [], []⟩

def put (s : MediaSender) (chunk : Audio) (tts : Bool) : MediaSender :=
  { s with audioQueue := s.audioQueue ++ [.audio chunk tts], queued := s.queued ++ [chunk] }

variable (size : ChunkSize)

/-- The `while` loop of `handle_audio_frame`: the chunks, and what is left. -/
def chunks (audio : Audio) : List Audio × Audio :=
  let scanned := scan size.bytes (fun _ chunk => (chunk, ())) () audio
  (scanned.1, scanned.2.2)

def handleAudioFrame (s : MediaSender) (audio : Audio) (tts : Bool) : MediaSender :=
  let (whole, left) := chunks size (s.audioBuffer ++ audio)
  whole.foldl (fun s chunk => s.put chunk tts) { s with bufferTts := tts, audioBuffer := left }

/-- `_enqueue_flushed_audio_buffer`. -/
def flushAudioBuffer (s : MediaSender) : MediaSender :=
  if s.audioBuffer.isEmpty then s
  else { s with audioBuffer := [] }.put
    (s.audioBuffer ++ List.replicate (size.bytes - s.audioBuffer.length) 0) s.bufferTts

def handleTtsStopped (s : MediaSender) : MediaSender :=
  let s := s.flushAudioBuffer size
  { s with audioQueue := s.audioQueue ++ [.ttsStopped] }

/-- `_bot_stopped_speaking`. -/
def botStoppedSpeaking (s : MediaSender) : MediaSender :=
  if s.botSpeaking then
    { s with botSpeaking := false, ttsAudioReceived := false, audioBuffer := [] }
  else s

/-- `_handle_frame` of the audio task, and the write. -/
def play (s : MediaSender) : MediaSender :=
  match s.audioQueue with
  | [] => s
  | .audio chunk tts :: queue =>
    { s with
      audioQueue := queue
      botSpeaking := s.botSpeaking || tts
      ttsAudioReceived := s.ttsAudioReceived || tts
      written := s.written ++ [chunk] }
  | .ttsStopped :: queue =>
    if s.ttsAudioReceived then { s with audioQueue := queue }.botStoppedSpeaking
    else { s with audioQueue := queue }
  | .other :: queue => { s with audioQueue := queue }

def step (s : MediaSender) : SenderEvent → MediaSender
  | .audio audio tts => s.handleAudioFrame size audio tts
  | .ttsStopped => s.handleTtsStopped size
  | .sync => { s with audioQueue := s.audioQueue ++ [.other] }
  | .interruption => { s with audioQueue := [] }.botStoppedSpeaking
  | .play => s.play
  | .timeout => if s.audioQueue.isEmpty then s.botStoppedSpeaking else s

def run (events : List SenderEvent) : MediaSender := events.foldl (step size) fresh

end MediaSender

/-! ## What becomes of the audio -/

def SenderEvent.given : SenderEvent → Audio
  | .audio bytes _ => bytes
  | _ => []

/-- The bot stops speaking: it is interrupted, its last utterance ends, or it has
nothing to play. -/
def Stops (s : MediaSender) : SenderEvent → Prop
  | .interruption => True
  | .play => s.audioQueue.head? = some .ttsStopped ∧ s.ttsAudioReceived = true
  | .timeout => s.audioQueue = []
  | _ => False

/-- It stops speaking while some audio waits for more. -/
def Drops (s : MediaSender) (event : SenderEvent) : Prop :=
  Stops s event ∧ s.botSpeaking = true ∧ s.audioBuffer ≠ []

/-- A stretch of audio, with silence up to the size of a chunk. -/
def padded (size : ChunkSize) (audio : Audio) : Audio :=
  audio ++ List.replicate (size.bytes - audio.length) 0

variable {size : ChunkSize} {s : MediaSender} {given buffer : Audio} {out : List Audio} {clean : Prop}

/-- What was given, by what waits in a sender and what it has queued. -/
abbrev Sounds (size : ChunkSize) (given buffer : Audio) (out : List Audio) (clean : Prop) : Prop :=
  Accounted (fun audio => some (padded size audio)) given buffer out clean

theorem padded_of_length {chunk : Audio} (h : chunk.length = size.bytes) : padded size chunk = chunk := by
  rw [padded, h, Nat.sub_self]
  exact List.append_nil _

theorem chunks_of_short (h : buffer.length < size.bytes) :
    MediaSender.chunks size buffer = ([], buffer) := by
  unfold MediaSender.chunks
  rw [scan_of_short () h]

theorem chunks_of_long (h : size.bytes ≤ buffer.length) :
    MediaSender.chunks size buffer =
      (buffer.take size.bytes :: (MediaSender.chunks size (buffer.drop size.bytes)).1,
        (MediaSender.chunks size (buffer.drop size.bytes)).2) := by
  unfold MediaSender.chunks
  rw [scan_of_long size.positive () h]

/-- The loop passes on chunks of the size, and leaves less than one. -/
theorem Sounds.chunks (h : Sounds size given buffer out clean) :
    Sounds size given (MediaSender.chunks size buffer).2
      (out ++ (MediaSender.chunks size buffer).1) clean ∧
    (MediaSender.chunks size buffer).2.length < size.bytes ∧
    ∀ chunk ∈ (MediaSender.chunks size buffer).1, chunk.length = size.bytes := by
  induction buffer using (measure List.length).wf.induction generalizing out with
  | _ buffer ih =>
    by_cases hlong : size.bytes ≤ buffer.length
    · have hdrop : (buffer.drop size.bytes).length < buffer.length := by
        have hpositive := size.positive
        rw [List.length_drop]
        omega
      have htake : (buffer.take size.bytes).length = size.bytes := List.length_take_of_le hlong
      have hcut := h.cut size.bytes
      rw [padded_of_length htake] at hcut
      obtain ⟨hrest, hleft, hall⟩ := ih (buffer.drop size.bytes) hdrop hcut
      rw [chunks_of_long hlong]
      refine ⟨?_, hleft, List.forall_mem_cons.mpr ⟨htake, hall⟩⟩
      rw [List.append_assoc] at hrest
      exact hrest
    · have hshort := Nat.lt_of_not_le hlong
      rw [chunks_of_short hshort, List.append_nil]
      exact ⟨h, hshort, List.forall_mem_nil _⟩

/-! ## One event -/

theorem foldl_put (s : MediaSender) (whole : List Audio) (tts : Bool) :
    whole.foldl (fun s chunk => s.put chunk tts) s =
      { s with
        audioQueue := s.audioQueue ++ whole.map fun chunk => .audio chunk tts
        queued := s.queued ++ whole } := by
  induction whole generalizing s with
  | nil => simp
  | cons chunk whole ih =>
    rw [List.foldl_cons, ih]
    simp [MediaSender.put]

/-- The chunks that are queued now. -/
def MediaSender.waiting (s : MediaSender) : List Audio := s.audioQueue.filterMap QueuedAudio.chunk?

/-- The sizes of what is left and of what was queued, and the order of what was
written. -/
structure Sized (size : ChunkSize) (s : MediaSender) : Prop where
  left : s.audioBuffer.length < size.bytes
  queued : ∀ chunk ∈ s.queued, chunk.length = size.bytes
  written : List.Sublist (s.written ++ s.waiting) s.queued

theorem chunk?_map (whole : List Audio) (tts : Bool) :
    (whole.map fun chunk => QueuedAudio.audio chunk tts).filterMap QueuedAudio.chunk? = whole := by
  rw [List.filterMap_map]
  exact List.filterMap_some

theorem Sized.put (h : Sized size s) (whole : List Audio) (tts : Bool) {left : Audio}
    (hleft : left.length < size.bytes) (hwhole : ∀ chunk ∈ whole, chunk.length = size.bytes)
    (bufferTts : Bool) :
    Sized size { s with
      audioBuffer := left
      bufferTts := bufferTts
      audioQueue := s.audioQueue ++ whole.map fun chunk => .audio chunk tts
      queued := s.queued ++ whole } where
  left := hleft
  queued := List.forall_mem_append.mpr ⟨h.queued, hwhole⟩
  written := by
    show List.Sublist (s.written ++ (s.audioQueue ++ _).filterMap QueuedAudio.chunk?) (s.queued ++ whole)
    rw [List.filterMap_append, chunk?_map, ← List.append_assoc]
    exact h.written.append (List.Sublist.refl whole)

theorem Sized.botStoppedSpeaking (h : Sized size s) : Sized size s.botStoppedSpeaking := by
  unfold MediaSender.botStoppedSpeaking
  split
  · exact ⟨size.positive, h.queued, h.written⟩
  · exact h

theorem Sized.flushAudioBuffer (h : Sized size s) : Sized size (s.flushAudioBuffer size) := by
  unfold MediaSender.flushAudioBuffer
  split
  · exact h
  · have hlength : (padded size s.audioBuffer).length = size.bytes := by
      have hleft := h.left
      rw [padded, List.length_append, List.length_replicate]
      omega
    have hnothing : ([] : Audio).length < size.bytes := size.positive
    have hchunk : ∀ chunk ∈ [padded size s.audioBuffer], chunk.length = size.bytes := by
      intro chunk hmem
      rw [List.mem_singleton.mp hmem]
      exact hlength
    exact h.put [padded size s.audioBuffer] s.bufferTts hnothing hchunk s.bufferTts

theorem Sized.handleAudioFrame (h : Sized size s) (audio : Audio) (tts : Bool) :
    Sized size (s.handleAudioFrame size audio tts) := by
  have hsounds : Sounds size (s.audioBuffer ++ audio) (s.audioBuffer ++ audio) [] True :=
    Accounted.start.come (s.audioBuffer ++ audio)
  obtain ⟨_, hleft, hwhole⟩ := hsounds.chunks
  unfold MediaSender.handleAudioFrame
  dsimp only
  rw [foldl_put]
  exact h.put _ tts hleft hwhole tts

/-- The frame at the head of the queue is gone. -/
theorem Sized.drop (h : Sized size s) {frame : QueuedAudio} {queue : List QueuedAudio}
    (hqueue : s.audioQueue = frame :: queue) (hframe : frame.chunk? = none) :
    Sized size { s with audioQueue := queue } := by
  refine ⟨h.left, h.queued, ?_⟩
  have hwritten := h.written
  rw [MediaSender.waiting, hqueue, List.filterMap_cons, hframe] at hwritten
  exact hwritten

theorem Sized.play (h : Sized size s) : Sized size s.play := by
  unfold MediaSender.play
  split
  · exact h
  · rename_i chunk tts queue hqueue
    refine ⟨h.left, h.queued, ?_⟩
    have hwritten := h.written
    rw [MediaSender.waiting, hqueue] at hwritten
    show List.Sublist (s.written ++ [chunk] ++ queue.filterMap QueuedAudio.chunk?) s.queued
    rw [List.append_assoc]
    exact hwritten
  · rename_i queue hqueue
    split
    · exact (h.drop hqueue rfl).botStoppedSpeaking
    · exact h.drop hqueue rfl
  · rename_i queue hqueue
    exact h.drop hqueue rfl

theorem Sized.step (h : Sized size s) (event : SenderEvent) : Sized size (s.step size event) := by
  have hnone (frame : QueuedAudio) (hframe : frame.chunk? = none) (s : MediaSender)
      (h : Sized size s) : Sized size { s with audioQueue := s.audioQueue ++ [frame] } := by
    refine ⟨h.left, h.queued, ?_⟩
    show List.Sublist (s.written ++ (s.audioQueue ++ [frame]).filterMap QueuedAudio.chunk?) s.queued
    rw [List.filterMap_append, List.filterMap_cons, hframe, List.filterMap_nil, List.append_nil]
    exact h.written
  cases event with
  | audio audio tts => exact h.handleAudioFrame audio tts
  | ttsStopped => exact hnone .ttsStopped rfl _ h.flushAudioBuffer
  | sync => exact hnone .other rfl s h
  | interruption =>
    have hempty : Sized size { s with audioQueue := [] } := by
      refine ⟨h.left, h.queued, ?_⟩
      show List.Sublist (s.written ++ []) s.queued
      rw [List.append_nil]
      exact (List.sublist_append_left _ _).trans h.written
    exact hempty.botStoppedSpeaking
  | play => exact h.play
  | timeout =>
    unfold MediaSender.step
    dsimp only
    split
    · exact h.botStoppedSpeaking
    · exact h

theorem sized_run (size : ChunkSize) (events : List SenderEvent) :
    Sized size (MediaSender.run size events) := by
  have hfresh : Sized size MediaSender.fresh :=
    ⟨size.positive, List.forall_mem_nil _, List.Sublist.refl _⟩
  exact List.foldlRecOn events _ hfresh fun s hs event _ => Sized.step hs event

/-! ## The audio of a run -/

/-- What a sender has done with what it was given. -/
abbrev Sounded (size : ChunkSize) (given : Audio) (s : MediaSender) (clean : Prop) : Prop :=
  Sounds size given s.audioBuffer s.queued clean

theorem Sounded.botStoppedSpeaking (h : Sounded size given s clean) :
    Sounded size given s.botStoppedSpeaking
      (clean ∧ ¬ (s.botSpeaking = true ∧ s.audioBuffer ≠ [])) := by
  unfold MediaSender.botStoppedSpeaking
  split
  · rename_i hspeaking
    exact h.clear.iff (by simp [hspeaking])
  · rename_i hspeaking
    exact h.iff (by simp [hspeaking])

theorem Sounded.handleAudioFrame (h : Sounded size given s clean) (audio : Audio) (tts : Bool) :
    Sounded size (given ++ audio) (s.handleAudioFrame size audio tts) clean := by
  have hsounds : Sounds size (given ++ audio) (s.audioBuffer ++ audio) s.queued clean := h.come audio
  obtain ⟨hchunks, _, _⟩ := hsounds.chunks
  unfold MediaSender.handleAudioFrame
  dsimp only
  rw [foldl_put]
  exact hchunks

theorem Sounded.flushAudioBuffer (h : Sounded size given s clean) :
    Sounded size given (s.flushAudioBuffer size) clean := by
  unfold MediaSender.flushAudioBuffer
  split
  · exact h
  · exact h.pass

/-- **One event.** Audio is added, and what waits is dropped when the bot stops. -/
theorem Sounded.step (h : Sounded size given s clean) (event : SenderEvent) :
    Sounded size (given ++ event.given) (s.step size event) (clean ∧ ¬ Drops s event) := by
  have hstops (queue : List QueuedAudio) {stops : Prop} (hstops : stops) :
      Sounded size (given ++ []) { s with audioQueue := queue }.botStoppedSpeaking
        (clean ∧ ¬ (stops ∧ s.botSpeaking = true ∧ s.audioBuffer ≠ [])) := by
    have hqueue : Sounded size given { s with audioQueue := queue } clean := h
    rw [List.append_nil]
    exact hqueue.botStoppedSpeaking.iff (by simp [hstops])
  have hgoes {s' : MediaSender} (hs : Sounded size given s' clean) {stops : Prop} (hnot : ¬ stops) :
      Sounded size (given ++ []) s'
        (clean ∧ ¬ (stops ∧ s.botSpeaking = true ∧ s.audioBuffer ≠ [])) := by
    rw [List.append_nil]
    exact hs.iff (by simp [hnot])
  cases event with
  | audio audio tts => exact (h.handleAudioFrame audio tts).iff (by simp [Drops, Stops])
  | ttsStopped => exact hgoes h.flushAudioBuffer not_false
  | sync => exact hgoes h not_false
  | interruption => exact hstops [] trivial
  | play =>
    show Sounded size (given ++ []) s.play _
    unfold Drops Stops MediaSender.play
    split
    · rename_i hqueue
      exact hgoes h (by simp [hqueue])
    · rename_i chunk tts queue hqueue
      exact hgoes h (by simp [hqueue])
    · rename_i queue hqueue
      split
      · rename_i hreceived
        exact hstops queue (by simp [hqueue, hreceived])
      · rename_i hreceived
        exact hgoes h (by simp [hreceived])
    · rename_i queue hqueue
      exact hgoes h (by simp [hqueue])
  | timeout =>
    show Sounded size (given ++ []) (if s.audioQueue.isEmpty then s.botStoppedSpeaking else s) _
    unfold Drops Stops
    dsimp only
    split
    · rename_i hempty
      exact hstops s.audioQueue (List.isEmpty_iff.mp hempty)
    · rename_i hsome
      exact hgoes h (by simpa using hsome)

/-- The bot's audio in a run. -/
structure AudioFate (size : ChunkSize) (events : List SenderEvent) : Prop where
  /-- Every byte is once, and in its order, in a chunk that was queued, or dropped,
  or waits; none is dropped unless the bot stops speaking while some wait. -/
  accounted : Sounded size (events.flatMap SenderEvent.given) (MediaSender.run size events)
    (Clean (MediaSender.step size) Drops MediaSender.fresh events)
  /-- Every chunk has the size, less than one waits, and they are written in their
  order. -/
  sized : Sized size (MediaSender.run size events)

/-- **The bot's audio.** However it is cut up when it comes, and whenever it is
played. -/
theorem audio_accounted (size : ChunkSize) (events : List SenderEvent) : AudioFate size events where
  accounted := accounted_run MediaSender.audioBuffer MediaSender.queued
    (fun _ _ _ event h => Sounded.step h event) Accounted.start events
  sized := sized_run size events

end TechMart.Pipecat
