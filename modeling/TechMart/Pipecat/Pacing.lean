import TechMart.Pipecat.MediaSender
import TechMart.Web.Playout
import Mathlib.Algebra.Order.Field.Rat
import Mathlib.Tactic.Linarith

/-!
# The pace of the bot's audio

The output transport of a WebSocket. Its audio task writes a chunk and then sleeps,
so that chunks go out as fast as a device would play them. An interruption starts
the task again and sets its clock back. The silence that an `EndFrame` closes with is
left out.
-/

namespace TechMart.Pipecat

open Signal Web

/-- `_send_interval`, in seconds. -/
def sendInterval (size : ChunkSize) (sampleRate : ℕ) : ℚ := (size.bytes : ℚ) / sampleRate / 2

/-- Where the audio task is: it waits for a frame, has written a chunk or sleeps
until some time. -/
inductive AudioTask where
  | waiting
  | written
  | sleeping (sleepDuration wakes : ℚ)

/-- `now` is what the clock shows; `sent` are the chunks sent, and when. -/
structure OutputTransport where
  sender : MediaSender
  nextSendTime : ℚ
  task : AudioTask
  now : ℚ
  sent : List (Audio × ℚ)

/-- How a chunk can be written: it is sent, sending it raises, or there is no
client any more. -/
inductive Client where
  | connected
  | failing
  | gone

inductive OutputEvent where
  /-- a frame comes to the media sender -/
  | frame (event : SenderEvent)
  /-- the audio task takes a frame, and writes it if it is audio -/
  | take (client : Client)
  | timeout
  /-- the clock is read in `_write_audio_sleep` -/
  | sleep
  | wake
  /-- `handle_interruptions`; the task goes on if the queue has frames to keep -/
  | interruption (restarts : Bool)
  /-- the end of `process_frame` of an interruption -/
  | reset

/-- Frames from upstream. -/
def SenderEvent.comes : SenderEvent → Bool
  | .audio .. | .ttsStopped | .sync => true
  | _ => false

/-- The chunk the task would take. -/
def MediaSender.next (s : MediaSender) : Option Audio := s.audioQueue.head?.bind QueuedAudio.chunk?

namespace OutputTransport

def started (now : ℚ) : OutputTransport := ⟨.fresh, 0, .waiting, now, []⟩

/-- What can be next, with the clock at `now`. -/
def enabled (s : OutputTransport) (now : ℚ) : OutputEvent → Prop
  | .frame event => event.comes = true
  | .take _ | .timeout => s.task = .waiting
  | .sleep => s.task = .written
  | .wake => ∃ sleepDuration wakes, s.task = .sleeping sleepDuration wakes ∧ wakes ≤ now
  | .interruption _ | .reset => True

/-- `write_audio_frame`, up to its sleep. -/
def writeAudioFrame (s : OutputTransport) (chunk : Audio) : Client → OutputTransport
  | .connected => { s with task := .written, sent := s.sent ++ [(chunk, s.now)] }
  | .failing => { s with task := .written }
  | .gone => s

/-- `_write_audio_sleep`, up to the sleep. -/
def sleep (s : OutputTransport) : OutputTransport :=
  let sleepDuration := max 0 (s.nextSendTime - s.now)
  { s with task := .sleeping sleepDuration (s.now + sleepDuration) }

/-- `_write_audio_sleep`, after it. -/
def wake (s : OutputTransport) (sendInterval : ℚ) : OutputTransport :=
  match s.task with
  | .sleeping sleepDuration _ =>
    { s with
      task := .waiting
      nextSendTime :=
        if sleepDuration = 0 then s.now + sendInterval else s.nextSendTime + sendInterval }
  | _ => s

def handle (s : OutputTransport) (size : ChunkSize) (sendInterval : ℚ) :
    OutputEvent → OutputTransport
  | .frame event => { s with sender := s.sender.step size event }
  | .take client =>
    let played := { s with sender := s.sender.play }
    match s.sender.next with
    | some chunk => played.writeAudioFrame chunk client
    | none => played
  | .timeout => { s with sender := s.sender.step size .timeout }
  | .sleep => s.sleep
  | .wake => s.wake sendInterval
  | .interruption restarts =>
    { s with
      sender := s.sender.step size .interruption
      task := if restarts then .waiting else s.task }
  | .reset => { s with nextSendTime := 0 }

/-- An event, with the clock at `now`. -/
def step (s : OutputTransport) (size : ChunkSize) (sendInterval now : ℚ) (event : OutputEvent) :
    OutputTransport :=
  { s with now }.handle size sendInterval event

theorem now_step (s : OutputTransport) (size : ChunkSize) (sendInterval now : ℚ)
    (event : OutputEvent) : (s.step size sendInterval now event).now = now := by
  cases event with
  | frame | timeout | sleep | interruption | reset => rfl
  | wake =>
    show (wake _ _).now = now
    unfold wake
    split <;> rfl
  | take client =>
    show (handle ..).now = now
    unfold handle
    dsimp only
    split
    · cases client <;> rfl
    · rfl

/-- When a listener has heard all that was sent, who hears each chunk as soon as
it is sent and the one before is over. -/
def heardUntil (s : OutputTransport) (length : ℚ) : ℚ :=
  Playout.cursorAfter Prod.snd (fun _ => length) 0 s.sent

end OutputTransport

/-- What can put the transport ahead of its clock. -/
def OutputEvent.cuts : OutputEvent → ℕ
  | .interruption _ | .reset => 1
  | _ => 0

/-- The states of the transport, with the number of cuts since all that had been
sent was last heard. -/
inductive Reaches (size : ChunkSize) (sendInterval length : ℚ) : ℕ → OutputTransport → Prop
  | start (now : ℚ) : 0 ≤ now → Reaches size sendInterval length 0 (.started now)
  | step {n : ℕ} {s : OutputTransport} (now : ℚ) (event : OutputEvent) :
      Reaches size sendInterval length n s → s.now ≤ now → s.enabled now event →
      Reaches size sendInterval length (n + event.cuts) (s.step size sendInterval now event)
  | silent {n : ℕ} {s : OutputTransport} :
      Reaches size sendInterval length n s → s.heardUntil length ≤ s.now →
      Reaches size sendInterval length 0 s

/-! ## How far it is ahead -/

section
variable {interval length : ℚ} {n : ℕ} {s : OutputTransport}

/-- When a listener may be done, if the task may send again at `next`. -/
abbrev allowed (interval length next now : ℚ) : ℚ := max (next - (interval - length)) now

/-- A listener is no more than `n` chunks behind what the clock of the task allows
for; while a chunk is under way, it is one more. -/
inductive Behind (interval length : ℚ) (n : ℕ) (s : OutputTransport) : Prop
  | waiting (htask : s.task = .waiting)
      (hheard : s.heardUntil length ≤ allowed interval length s.nextSendTime s.now + n * length)
  | written (htask : s.task = .written)
      (hheard : s.heardUntil length ≤
        allowed interval length s.nextSendTime s.now + (n + 1) * length)
  | sleeping (sleepDuration wakes : ℚ) (htask : s.task = .sleeping sleepDuration wakes)
      (hnext : s.nextSendTime ≤ wakes) (hwakes : 0 ≤ wakes ∧ wakes ≤ s.now + interval)
      (hheard : s.heardUntil length ≤ allowed interval length wakes s.now + (n + 1) * length)
      (hpaced : s.heardUntil length ≤ wakes + (n + 1) * length ∧
          (sleepDuration = 0 ∧ wakes ≤ s.now ∨ s.nextSendTime = wakes) ∨
        s.heardUntil length ≤ allowed interval length wakes s.now + n * length)

structure Paced (interval length : ℚ) (n : ℕ) (s : OutputTransport) : Prop where
  clock : 0 ≤ s.now
  next : s.nextSendTime ≤ s.now + interval
  behind : Behind interval length n s

theorem allowed_le {next next' now now' : ℚ} (hnext : next ≤ next') (hnow : now ≤ now') :
    allowed interval length next now ≤ allowed interval length next' now' :=
  max_le_max (sub_le_sub_right hnext _) hnow

/-- The clock of the task is at most one chunk ahead. -/
theorem allowed_le_now {next now : ℚ} (hlength : 0 ≤ length) (hnext : next ≤ now + interval) :
    allowed interval length next now ≤ now + length := by
  apply max_le
  · linarith
  · linarith

/-- Where the clock goes on and nothing is sent. -/
theorem Paced.later (hlength : 0 ≤ length) (h : Paced interval length n s) {m : ℕ} (hm : n ≤ m)
    {s' : OutputTransport} (htask : s'.task = s.task) (hnext : s'.nextSendTime = s.nextSendTime)
    (hnow : s.now ≤ s'.now) (hsent : s'.sent = s.sent) : Paced interval length m s' := by
  have hheard : s'.heardUntil length = s.heardUntil length := by
    rw [OutputTransport.heardUntil, hsent]
    rfl
  have hmore : (n : ℚ) * length ≤ m * length :=
    mul_le_mul_of_nonneg_right (by exact_mod_cast hm) hlength
  have hallowed (next : ℚ) : allowed interval length next s.now ≤ allowed interval length next s'.now :=
    allowed_le le_rfl hnow
  refine ⟨h.clock.trans hnow, by rw [hnext]; linarith [h.next], ?_⟩
  cases h.behind with
  | waiting hwaiting hbehind =>
    apply Behind.waiting (htask.trans hwaiting)
    rw [hheard, hnext]
    linarith [hallowed s.nextSendTime]
  | written hwritten hbehind =>
    apply Behind.written (htask.trans hwritten)
    rw [hheard, hnext]
    linarith [hallowed s.nextSendTime]
  | sleeping sleepDuration wakes hsleeping hearly hwakes hbehind hpaced =>
    apply Behind.sleeping sleepDuration wakes (htask.trans hsleeping)
    · rw [hnext]
      exact hearly
    · exact ⟨hwakes.1, by linarith [hwakes.2]⟩
    · rw [hheard]
      linarith [hallowed wakes]
    · rw [hheard, hnext]
      cases hpaced with
      | inl hpaced =>
        refine .inl ⟨by linarith [hpaced.1], hpaced.2.imp_left ?_⟩
        exact fun hzero => ⟨hzero.1, hzero.2.trans hnow⟩
      | inr hslack => exact .inr (by linarith [hallowed wakes])

/-- A chunk is under way. -/
theorem Paced.written (hlength : 0 ≤ length) (h : Paced interval length n s)
    (htask : s.task = .waiting) {s' : OutputTransport} (hwritten : s'.task = .written)
    (hnext : s'.nextSendTime = s.nextSendTime) (hnow : s'.now = s.now)
    (hsent : s'.heardUntil length ≤ Playout.startAt (s.heardUntil length) s.now + length) :
    Paced interval length n s' := by
  refine ⟨by rw [hnow]; exact h.clock, by rw [hnext, hnow]; exact h.next, ?_⟩
  apply Behind.written hwritten
  rw [hnext, hnow]
  cases h.behind with
  | waiting _ hheard =>
    have hcount : 0 ≤ (n : ℚ) * length := mul_nonneg n.cast_nonneg hlength
    have hstart : Playout.startAt (s.heardUntil length) s.now ≤
        allowed interval length s.nextSendTime s.now + n * length := by
      apply Playout.startAt_le hheard
      linarith [le_max_right (s.nextSendTime - (interval - length)) s.now]
    linarith
  | written hwritten => cases htask.symm.trans hwritten
  | sleeping _ _ hsleeping => cases htask.symm.trans hsleeping

theorem Paced.sleep (hinterval : length ≤ interval) (hlength : 0 ≤ length)
    (h : Paced interval length n s) (htask : s.task = .written) :
    Paced interval length n s.sleep := by
  have hnext := h.next
  have hclock := h.clock
  let sleepDuration := max 0 (s.nextSendTime - s.now)
  have hpositive : 0 ≤ sleepDuration := le_max_left ..
  have hlater : s.nextSendTime - s.now ≤ sleepDuration := le_max_right ..
  have hsoon : sleepDuration ≤ interval := by
    apply max_le
    · linarith
    · linarith
  have hwakes : s.nextSendTime ≤ s.now + sleepDuration := by linarith
  refine ⟨hclock, hnext, ?_⟩
  cases h.behind with
  | waiting hwaiting => cases htask.symm.trans hwaiting
  | sleeping _ _ hsleeping => cases htask.symm.trans hsleeping
  | written _ hheard =>
    have hdone : s.heardUntil length ≤ s.now + sleepDuration + (n + 1) * length := by
      apply hheard.trans
      apply add_le_add_left
      apply max_le
      · linarith
      · linarith
    have hdue : sleepDuration = 0 ∧ s.now + sleepDuration ≤ s.now ∨
        s.nextSendTime = s.now + sleepDuration := by
      by_cases hdue : s.nextSendTime ≤ s.now
      · have hzero : sleepDuration = 0 := max_eq_left (by linarith)
        exact .inl ⟨hzero, by linarith⟩
      · have hrest : sleepDuration = s.nextSendTime - s.now := max_eq_right (by linarith)
        exact .inr (by linarith)
    refine Behind.sleeping (s := s.sleep) sleepDuration _ rfl hwakes ⟨?_, ?_⟩ ?_ ?_
    · linarith
    · show s.now + sleepDuration ≤ s.now + interval
      linarith
    · exact hheard.trans (add_le_add_left (allowed_le hwakes le_rfl) _)
    · exact .inl ⟨hdone, hdue⟩

theorem Paced.wake (hinterval : length ≤ interval) (h : Paced interval length n s)
    {sleepDuration wakes : ℚ} (htask : s.task = .sleeping sleepDuration wakes)
    (hnow : wakes ≤ s.now) : Paced interval length n (s.wake interval) := by
  have hclock := h.clock
  cases h.behind with
  | waiting hwaiting => cases htask.symm.trans hwaiting
  | written hwritten => cases htask.symm.trans hwritten
  | sleeping _ _ hsleeping hnext _ _ hpaced =>
    cases htask.symm.trans hsleeping
    let nextSendTime :=
      if sleepDuration = 0 then s.now + interval else s.nextSendTime + interval
    have hwoken : s.wake interval = { s with task := .waiting, nextSendTime } := by
      rw [OutputTransport.wake, htask]
    rw [hwoken]
    have hbound : nextSendTime ≤ s.now + interval := by
      show (if sleepDuration = 0 then s.now + interval else s.nextSendTime + interval) ≤ _
      split
      · exact le_rfl
      · linarith
    refine ⟨hclock, hbound, ?_⟩
    apply Behind.waiting rfl
    show s.heardUntil length ≤ allowed interval length nextSendTime s.now + n * length
    cases hpaced with
    | inl hpaced =>
      -- the clock of the task has gone on by at least one interval
      have hgone : wakes + interval ≤ nextSendTime := by
        show wakes + interval ≤
          if sleepDuration = 0 then s.now + interval else s.nextSendTime + interval
        split
        · linarith
        · rename_i hslept
          cases hpaced.2 with
          | inl hzero => exact absurd hzero.1 hslept
          | inr hsame => linarith
      linarith [le_max_left (nextSendTime - (interval - length)) s.now, hpaced.1]
    | inr hslack =>
      have hover : allowed interval length wakes s.now ≤ s.now := by
        apply max_le
        · linarith
        · exact le_rfl
      linarith [le_max_right (nextSendTime - (interval - length)) s.now]

/-- The clock of the task is set back. -/
theorem Paced.reset (hinterval : length ≤ interval) (hlength : 0 ≤ length)
    (h : Paced interval length n s) : Paced interval length (n + 1) { s with nextSendTime := 0 } := by
  have hclock := h.clock
  have hahead := allowed_le_now hlength h.next
  have hnow : s.now ≤ allowed interval length 0 s.now := le_max_right ..
  refine ⟨hclock, ?_, ?_⟩
  · show 0 ≤ s.now + interval
    linarith
  · cases h.behind with
    | waiting hwaiting hheard =>
      refine Behind.waiting (s := { s with nextSendTime := 0 }) hwaiting ?_
      show s.heardUntil length ≤ allowed interval length 0 s.now + ((n + 1 : ℕ) : ℚ) * length
      push_cast
      linarith
    | written hwritten hheard =>
      refine Behind.written (s := { s with nextSendTime := 0 }) hwritten ?_
      show s.heardUntil length ≤ allowed interval length 0 s.now + (((n + 1 : ℕ) : ℚ) + 1) * length
      push_cast
      linarith
    | sleeping sleepDuration wakes hsleeping _ hwakes hheard =>
      have hcut : s.heardUntil length ≤
          allowed interval length wakes s.now + ((n + 1 : ℕ) : ℚ) * length := by
        push_cast
        exact hheard
      refine Behind.sleeping (s := { s with nextSendTime := 0 }) sleepDuration wakes hsleeping
        hwakes.1 hwakes ?_ (.inr hcut)
      apply hcut.trans
      linarith

/-- The task starts again. -/
theorem Paced.cut (hinterval : length ≤ interval) (hlength : 0 ≤ length)
    (h : Paced interval length n s) : Paced interval length (n + 1) { s with task := .waiting } := by
  refine ⟨h.clock, h.next, ?_⟩
  apply Behind.waiting rfl
  show s.heardUntil length ≤ allowed interval length s.nextSendTime s.now + ((n + 1 : ℕ) : ℚ) * length
  push_cast
  have hnow : s.now ≤ allowed interval length s.nextSendTime s.now := le_max_right ..
  cases h.behind with
  | waiting _ hheard => linarith
  | written _ hheard => exact hheard
  | sleeping sleepDuration wakes _ _ hwakes hheard hpaced =>
    cases hpaced with
    | inl hpaced =>
      cases hpaced.2 with
      | inl hzero =>
        have hover : allowed interval length wakes s.now ≤ s.now := by
          apply max_le
          · linarith [hzero.2]
          · exact le_rfl
        linarith
      | inr hsame =>
        rw [hsame]
        exact hheard
    | inr hslack => linarith [allowed_le_now hlength hwakes.2]

/-- All that was sent is over in two chunks, and one more for each cut. -/
theorem Paced.heardUntil_le (hlength : 0 ≤ length) (h : Paced interval length n s) :
    s.heardUntil length ≤ s.now + (n + 2) * length := by
  have hahead := allowed_le_now hlength h.next
  cases h.behind with
  | waiting _ hheard => linarith
  | written _ hheard => linarith
  | sleeping _ _ _ _ hwakes hheard => linarith [allowed_le_now hlength hwakes.2]

/-- One that has been heard owes nothing. -/
theorem Paced.silent (hlength : 0 ≤ length) (h : Paced interval length n s)
    (hheard : s.heardUntil length ≤ s.now) : Paced interval length 0 s := by
  have hless (next : ℚ) : s.heardUntil length ≤ allowed interval length next s.now :=
    hheard.trans (le_max_right ..)
  refine ⟨h.clock, h.next, ?_⟩
  cases h.behind with
  | waiting hwaiting =>
    apply Behind.waiting hwaiting
    rw [Nat.cast_zero, zero_mul, add_zero]
    exact hless _
  | written hwritten =>
    apply Behind.written hwritten
    rw [Nat.cast_zero, zero_add, one_mul]
    linarith [hless s.nextSendTime]
  | sleeping sleepDuration wakes hsleeping hnext hwakes =>
    refine Behind.sleeping sleepDuration wakes hsleeping hnext hwakes ?_ (.inr ?_)
    · rw [Nat.cast_zero, zero_add, one_mul]
      linarith [hless wakes]
    · rw [Nat.cast_zero, zero_mul, add_zero]
      exact hless wakes

/-- **One event.** Only an interruption puts the transport further ahead. -/
theorem Paced.step (size : ChunkSize) (hinterval : length ≤ interval) (hlength : 0 ≤ length)
    (h : Paced interval length n s) {now : ℚ} (hnow : s.now ≤ now) {event : OutputEvent}
    (henabled : s.enabled now event) :
    Paced interval length (n + event.cuts) (s.step size interval now event) := by
  have hlater : Paced interval length n { s with now } := h.later hlength le_rfl rfl rfl hnow rfl
  cases event with
  | frame event => exact h.later hlength le_rfl rfl rfl hnow rfl
  | timeout => exact h.later hlength le_rfl rfl rfl hnow rfl
  | sleep => exact hlater.sleep hinterval hlength henabled
  | wake =>
    obtain ⟨sleepDuration, wakes, htask, hwakes⟩ := henabled
    exact hlater.wake hinterval htask hwakes
  | reset => exact hlater.reset hinterval hlength
  | interruption restarts =>
    cases restarts with
    | false => exact h.later hlength (Nat.le_succ n) rfl rfl hnow rfl
    | true =>
      have hcut := hlater.cut hinterval hlength
      exact hcut.later hlength le_rfl rfl rfl le_rfl rfl
  | take client =>
    show Paced interval length n (OutputTransport.handle ..)
    rw [OutputTransport.handle]
    dsimp only
    split
    · rename_i chunk hchunk
      cases client with
      | gone => exact h.later hlength le_rfl rfl rfl hnow rfl
      | failing =>
        refine hlater.written hlength henabled ?_ ?_ ?_ ?_
        · rfl
        · rfl
        · rfl
        have hstart := Playout.le_startAt (s.heardUntil length) now
        show s.heardUntil length ≤ Playout.startAt (s.heardUntil length) now + length
        linarith
      | connected =>
        refine hlater.written hlength henabled ?_ ?_ ?_ ?_
        · rfl
        · rfl
        · rfl
        exact le_of_eq (Playout.cursorAfter_concat 0 s.sent (chunk, now))
    · exact h.later hlength le_rfl rfl rfl hnow rfl

end

/-- **In every run.** -/
theorem paced_of_reaches {size : ChunkSize} {interval length : ℚ} {n : ℕ} {s : OutputTransport}
    (hinterval : length ≤ interval) (hlength : 0 ≤ length)
    (h : Reaches size interval length n s) : Paced interval length n s := by
  induction h with
  | start now hnow =>
    refine ⟨hnow, ?_, ?_⟩
    · show 0 ≤ now + interval
      linarith
    · apply Behind.waiting rfl
      show (0 : ℚ) ≤ allowed interval length 0 now + ((0 : ℕ) : ℚ) * length
      rw [Nat.cast_zero, zero_mul, add_zero]
      exact hnow.trans (le_max_right ..)
  | step now event _ hnow henabled ih => exact ih.step size hinterval hlength hnow henabled
  | silent _ hheard ih => exact ih.silent hlength hheard

/-! ## What is sent -/

theorem written_play (s : MediaSender) : s.play.written = s.written ++ s.next.toList := by
  unfold MediaSender.play MediaSender.next
  cases hqueue : s.audioQueue with
  | nil => exact (List.append_nil _).symm
  | cons frame queue =>
    cases frame with
    | audio chunk tts => rfl
    | other => exact (List.append_nil _).symm
    | ttsStopped =>
      dsimp only
      split
      · unfold MediaSender.botStoppedSpeaking
        split <;> exact (List.append_nil _).symm
      · exact (List.append_nil _).symm

theorem written_step (size : ChunkSize) (s : MediaSender) {event : SenderEvent}
    (h : event ≠ .play) : (s.step size event).written = s.written := by
  have hstopped (s : MediaSender) : s.botStoppedSpeaking.written = s.written := by
    unfold MediaSender.botStoppedSpeaking
    split <;> rfl
  cases event with
  | play => exact absurd rfl h
  | audio audio tts =>
    show (s.handleAudioFrame size audio tts).written = s.written
    unfold MediaSender.handleAudioFrame
    dsimp only
    rw [foldl_put]
  | ttsStopped =>
    show (s.flushAudioBuffer size).written = s.written
    unfold MediaSender.flushAudioBuffer
    split <;> rfl
  | sync => rfl
  | interruption => exact hstopped _
  | timeout =>
    unfold MediaSender.step
    dsimp only
    split
    · exact hstopped s
    · rfl

/-- The media sender is one that has been run, and what was sent is what it wrote. -/
theorem sender_of_reaches {size : ChunkSize} {interval length : ℚ} {n : ℕ} {s : OutputTransport}
    (h : Reaches size interval length n s) :
    (∃ events, s.sender = MediaSender.run size events) ∧
      List.Sublist (s.sent.map Prod.fst) s.sender.written := by
  have hrun {sender : MediaSender} (event : SenderEvent)
      (h : ∃ events, sender = MediaSender.run size events) :
      ∃ events, sender.step size event = MediaSender.run size events := by
    obtain ⟨events, rfl⟩ := h
    refine ⟨events ++ [event], ?_⟩
    rw [MediaSender.run, MediaSender.run, List.foldl_concat]
  induction h with
  | start now _ => exact ⟨⟨[], rfl⟩, List.Sublist.refl _⟩
  | silent _ _ ih => exact ih
  | @step n s now event _ _ henabled ih =>
    obtain ⟨hsender, hsent⟩ := ih
    have hkept {event : SenderEvent} (h : event ≠ .play) :
        List.Sublist (s.sent.map Prod.fst) (s.sender.step size event).written := by
      rw [written_step size s.sender h]
      exact hsent
    cases event with
    | frame event =>
      refine ⟨hrun event hsender, hkept ?_⟩
      rintro rfl
      cases henabled
    | timeout => exact ⟨hrun .timeout hsender, hkept (by simp)⟩
    | interruption restarts => exact ⟨hrun .interruption hsender, hkept (by simp)⟩
    | sleep | reset => exact ⟨hsender, hsent⟩
    | wake =>
      have hwake : (s.step size interval now .wake).sender = s.sender ∧
          (s.step size interval now .wake).sent = s.sent := by
        show (OutputTransport.wake ..).sender = s.sender ∧ (OutputTransport.wake ..).sent = s.sent
        unfold OutputTransport.wake
        split <;> exact ⟨rfl, rfl⟩
      rw [hwake.1, hwake.2]
      exact ⟨hsender, hsent⟩
    | take client =>
      have hplayed : List.Sublist (s.sent.map Prod.fst) s.sender.play.written := by
        rw [written_play]
        exact hsent.trans (List.sublist_append_left ..)
      show (∃ events, (OutputTransport.handle ..).sender = _) ∧
        List.Sublist ((OutputTransport.handle ..).sent.map _) (OutputTransport.handle ..).sender.written
      unfold OutputTransport.handle
      dsimp only
      split
      · rename_i chunk hchunk
        have hchunk : s.sender.next = some chunk := hchunk
        cases client with
        | gone | failing => exact ⟨hrun .play hsender, hplayed⟩
        | connected =>
          refine ⟨hrun .play hsender, ?_⟩
          show List.Sublist ((s.sent ++ [(chunk, now)]).map Prod.fst) s.sender.play.written
          rw [written_play, hchunk, List.map_append]
          exact hsent.append (List.Sublist.refl _)
      · exact ⟨hrun .play hsender, hplayed⟩

end TechMart.Pipecat
