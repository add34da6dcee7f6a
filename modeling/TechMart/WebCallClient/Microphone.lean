import Mathlib.Algebra.Order.Floor.Ring
import TechMart.WebCallClient.App
import TechMart.Web.Message

/-!
# The web client's microphone

What `processorNode.onaudioprocess` sends and what the server makes of it: the
first message opens the session in `handle_websocket`, the others go through
`WebFrameSerializer.deserialize`. A sample is a rational number in the page, as
a `float32` is; it comes to the server within two steps of 1/32768.
-/

namespace TechMart.WebCallClient

open Python TechMart.Bot Web.Base64 Web Stringify Message

/-- `Math.max(-1, Math.min(1, x))`. -/
def clamp (x : ℚ) : ℚ := max (-1) (min 1 x)

/-- What an `Int16Array` keeps of a number: no fraction, and sixteen bits. -/
def storeInt16 (x : ℚ) : Sample := BitVec.ofInt 16 (if 0 ≤ x then ⌊x⌋ else ⌈x⌉)

def pcmSample (x : ℚ) : Sample :=
  storeInt16 (if clamp x < 0 then clamp x * 0x8000 else clamp x * 0x7FFF)

/-- A block of the microphone, and whether the socket was open when it came. -/
structure Block where
  inputData : List ℚ
  isOpen : Bool

def startText : Str :=
  object [("event", stringifyString "start"),
    ("start", object [("streamId", stringifyString "web-stream"),
      ("callId", stringifyString "web-call")])]

def mediaText (base64Audio : Str) : Str :=
  object [("event", stringifyString "media"), ("streamId", stringifyString "web-stream"),
    ("media", object [("payload", stringifyString base64Audio)])]

/-- `onaudioprocess`. -/
def onAudioProcess (block : Block) : Option Str :=
  if block.isOpen then some (mediaText (b64encode (pcm16 (block.inputData.map pcmSample))))
  else none

/-! ## The server -/

/-- The stream and the call of a web client's first message; `none` where
`handle_websocket` raises. -/
def webStart (rt : Runtime) (startData : Str) : Option (Value × Value) :=
  match Json.loads rt startData with
  | .ok (.dict msg) =>
    match Dict.get? msg "event" with
    | some (.str event) =>
      if event = "start" then
        match Dict.get? msg "start" with
        | some (.dict start) => some (Dict.getD start "streamId" (.str "default_stream"),
            Dict.getD start "callId" (.str "default_call"))
        | _ => none
      else some (.str "default_stream", .str "default_call")
    | _ => some (.str "default_stream", .str "default_call")
  | _ => none

/-- The frames the input transport pushes; those without audio it drops. -/
def receiveMessages (rt : Runtime) (messages : List Str) : List InputAudioRawFrame :=
  (messages.filterMap (deserialize rt)).filter fun frame => !frame.audio.isEmpty

/-- `np.frombuffer(audio, dtype=np.int16) / 32768.0`. -/
def fromBuffer (audio : List UInt8) : Option (List ℚ) :=
  (int16Array audio).map fun samples => samples.map fun s => (s.toInt : ℚ) / 32768

/-- What a web client says is received as. -/
structure Opened where
  streamId : Value
  callId : Value
  frames : List InputAudioRawFrame

def serve (rt : Runtime) : List Str → Option Opened
  | [] => none
  | startData :: messages =>
    (webStart rt startData).map fun ids => ⟨ids.1, ids.2, receiveMessages rt messages⟩

/-! ## One sample -/

theorem clamp_bounds (x : ℚ) : -1 ≤ clamp x ∧ clamp x ≤ 1 := by
  constructor
  · exact le_max_left ..
  · exact max_le (by norm_num) (min_le_left ..)

theorem toInt_ofInt {n : ℤ} (hlow : -32768 ≤ n) (hhigh : n < 32768) :
    (BitVec.ofInt 16 n).toInt = n := by
  rw [BitVec.toInt_ofInt]
  apply Int.bmod_eq_of_le
  · exact hlow
  · exact hhigh

/-- Nothing wraps around: a positive sample is rounded down from 32767 steps. -/
theorem pcmSample_nonneg {x : ℚ} (h : 0 ≤ clamp x) :
    ((pcmSample x).toInt : ℚ) ≤ clamp x * 32767 ∧ clamp x * 32767 < (pcmSample x).toInt + 1 := by
  have hone := (clamp_bounds x).2
  have hscaled : 0 ≤ clamp x * 32767 := by positivity
  have hfloor : 0 ≤ ⌊clamp x * 32767⌋ := Int.floor_nonneg.mpr hscaled
  have hle : ⌊clamp x * 32767⌋ ≤ 32767 := by
    apply Int.floor_le_iff.mpr
    push_cast
    linarith
  have hvalue : (pcmSample x).toInt = ⌊clamp x * 32767⌋ := by
    rw [pcmSample, if_neg (not_lt.mpr h), storeInt16, if_pos hscaled]
    exact toInt_ofInt (by omega) (by omega)
  rw [hvalue]
  exact ⟨Int.floor_le _, Int.lt_floor_add_one _⟩

/-- A negative one is rounded up from 32768 steps. -/
theorem pcmSample_neg {x : ℚ} (h : clamp x < 0) :
    clamp x * 32768 ≤ (pcmSample x).toInt ∧ ((pcmSample x).toInt : ℚ) < clamp x * 32768 + 1 := by
  have hone := (clamp_bounds x).1
  have hscaled : ¬ 0 ≤ clamp x * 32768 := by linarith
  have hceil : ⌈clamp x * 32768⌉ ≤ 0 := by
    apply Int.ceil_le.mpr
    push_cast
    linarith
  have hle : -32768 ≤ ⌈clamp x * 32768⌉ := by
    apply Int.le_ceil_iff.mpr
    push_cast
    linarith
  have hvalue : (pcmSample x).toInt = ⌈clamp x * 32768⌉ := by
    rw [pcmSample, if_pos h, storeInt16, if_neg hscaled]
    exact toInt_ofInt hle (by omega)
  rw [hvalue]
  exact ⟨Int.le_ceil _, Int.ceil_lt_add_one _⟩

/-- Two steps of sixteen bits. -/
def Near (x y : ℚ) : Prop := |clamp x - y| < 2 / 32768

theorem near_pcmSample (x : ℚ) : Near x ((pcmSample x).toInt / 32768) := by
  have hbounds := clamp_bounds x
  rw [Near, abs_lt]
  by_cases h : 0 ≤ clamp x
  · obtain ⟨hle, hlt⟩ := pcmSample_nonneg h
    constructor
    · rw [lt_sub_iff_add_lt, div_eq_mul_inv, div_eq_mul_inv]
      linarith
    · rw [sub_lt_iff_lt_add, div_eq_mul_inv, div_eq_mul_inv]
      linarith
  · obtain ⟨hle, hlt⟩ := pcmSample_neg (not_le.mp h)
    constructor
    · rw [lt_sub_iff_add_lt, div_eq_mul_inv, div_eq_mul_inv]
      linarith
    · rw [sub_lt_iff_lt_add, div_eq_mul_inv, div_eq_mul_inv]
      linarith

/-! ## One message -/

theorem loads_startText (rt : Runtime) : Json.loads rt startText =
    .ok (.dict [("event", .str "start"),
      ("start", .dict [("streamId", .str "web-stream"), ("callId", .str "web-call")])]) := by
  have hstart : Reads rt (object [("streamId", stringifyString "web-stream"),
      ("callId", stringifyString "web-call")])
      (.dict [("streamId", .str "web-stream"), ("callId", .str "web-call")]) := by
    apply reads_object
    · exact .cons ⟨rfl, reads_string rt _⟩ (.cons ⟨rfl, reads_string rt _⟩ .nil)
    · decide
  apply loads_of_reads
  apply reads_object
  · exact .cons ⟨rfl, reads_string rt _⟩ (.cons ⟨rfl, hstart⟩ .nil)
  · simp

theorem loads_mediaText (rt : Runtime) (payload : Str) : Json.loads rt (mediaText payload) =
    .ok (.dict [("event", .str "media"), ("streamId", .str "web-stream"),
      ("media", .dict [("payload", .str payload)])]) := by
  have hmedia : Reads rt (object [("payload", stringifyString payload)])
      (.dict [("payload", .str payload)]) := by
    apply reads_object
    · exact .cons ⟨rfl, reads_string rt _⟩ .nil
    · simp
  apply loads_of_reads
  apply reads_object
  · exact .cons ⟨rfl, reads_string rt _⟩ (.cons ⟨rfl, reads_string rt _⟩ (.cons ⟨rfl, hmedia⟩ .nil))
  · simp

theorem webStart_startText (rt : Runtime) :
    webStart rt startText = some (.str "web-stream", .str "web-call") := by
  simp only [webStart, loads_startText]
  rfl

theorem deserialize_mediaText (rt : Runtime) (bytes : List UInt8) :
    deserialize rt (mediaText (b64encode bytes)) = some ⟨bytes, 16000, 1⟩ := by
  have hevent (payload : Value) : Dict.get? [("event", .str "media"),
      ("streamId", .str "web-stream"), ("media", payload)] "event" = some (.str "media") := rfl
  have hmedia (payload : Value) : Dict.get? [("event", .str "media"),
      ("streamId", .str "web-stream"), ("media", payload)] "media" = some payload := rfl
  have hpayload (payload : Value) :
      Dict.get? [("payload", payload)] "payload" = some payload := rfl
  simp only [deserialize, loads_mediaText, hevent, if_true, mediaFrame, hmedia, hpayload,
    b64decode_b64encode, Option.map_some]

/-! ## A call -/

/-- The frame of a block: its samples, sixteen thousand a second. -/
structure Hears (block : Block) (frame : InputAudioRawFrame) : Prop where
  sampleRate : frame.sampleRate = 16000
  numChannels : frame.numChannels = 1
  samples : ∃ heard, fromBuffer frame.audio = some heard ∧
    List.Forall₂ Near block.inputData heard

def frameOf (block : Block) : InputAudioRawFrame :=
  ⟨pcm16 (block.inputData.map pcmSample), 16000, 1⟩

theorem hears_frameOf (block : Block) : Hears block (frameOf block) := by
  refine ⟨rfl, rfl, block.inputData.map fun x => ((pcmSample x).toInt : ℚ) / 32768, ?_, ?_⟩
  · rw [frameOf, fromBuffer, int16Array_pcm16, Option.map_some, List.map_map]
    rfl
  · rw [List.forall₂_map_right_iff, List.forall₂_same]
    intro x _
    exact near_pcmSample x

/-- The blocks that come to the pipeline. -/
def spoken (blocks : List Block) : List Block :=
  blocks.filter fun block => block.isOpen && !block.inputData.isEmpty

theorem pcm16_isEmpty (samples : List Sample) : (pcm16 samples).isEmpty = samples.isEmpty := by
  cases samples with
  | nil => rfl
  | cons s samples => rfl

theorem receiveMessages_sent (rt : Runtime) (blocks : List Block) :
    receiveMessages rt (blocks.filterMap onAudioProcess) = (spoken blocks).map frameOf := by
  have hsent : (blocks.filterMap onAudioProcess).filterMap (deserialize rt) =
      (blocks.filter (·.isOpen)).map frameOf := by
    induction blocks with
    | nil => rfl
    | cons block blocks ih =>
      cases hopen : block.isOpen with
      | false => simp [onAudioProcess, hopen, ih]
      | true => simp [onAudioProcess, hopen, ih, deserialize_mediaText, frameOf]
  rw [receiveMessages, hsent, List.filter_map, List.filter_filter, spoken]
  congr 1
  apply List.filter_congr
  intro block _
  simp [frameOf, pcm16_isEmpty, Bool.and_comm]

/-- **From the microphone to the pipeline.** Whatever the page hears, the first
message opens the stream and the call, and each block that comes while the
socket is open is one frame at 16 kHz, in order, each sample of it within two
steps of what the page had, cut off at one. -/
theorem microphone_heard (rt : Runtime) (blocks : List Block) :
    ∃ frames, serve rt (startText :: blocks.filterMap onAudioProcess) =
        some ⟨.str "web-stream", .str "web-call", frames⟩ ∧
      List.Forall₂ Hears (spoken blocks) frames := by
  refine ⟨(spoken blocks).map frameOf, ?_, ?_⟩
  · rw [serve, webStart_startText, receiveMessages_sent, Option.map_some]
  · rw [List.forall₂_map_right_iff, List.forall₂_same]
    intro block _
    exact hears_frameOf block

end TechMart.WebCallClient
