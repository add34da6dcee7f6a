import TechMart.Python.Json
import TechMart.Web.Base64

/-!
# The web serializer

What `WebFrameSerializer` sends and reads, and the parameters of the pipeline
it does so for. A message carries the bytes of a frame and nothing of its
sample rate.
-/

namespace TechMart.Bot

open Python Web.Base64

/-- A 16-bit sample, as the wire has it. -/
abbrev Sample := BitVec 16

/-- Mono PCM16, least significant byte first. -/
def pcm16 (samples : List Sample) : List UInt8 :=
  samples.flatMap fun s => [UInt8.ofNat (s.toNat % 256), UInt8.ofNat (s.toNat / 256)]

structure OutputAudioRawFrame where
  audio : List UInt8
  sampleRate : ℕ
  numChannels : ℕ

/-- The frames that come to the output transport. -/
inductive OutputFrame where
  | outputAudioRaw (frame : OutputAudioRawFrame)
  | other

/-- `WebFrameSerializer.serialize`, before `json.dumps`. -/
def serialize : OutputFrame → Option Value
  | .outputAudioRaw frame =>
    some (.dict [("event", .str "media"),
      ("media", .dict [("payload", .str (b64encode frame.audio))])])
  | .other => none

structure InputAudioRawFrame where
  audio : List UInt8
  sampleRate : ℕ
  numChannels : ℕ

/-- `msg["media"]["payload"]`, and the frame of it. -/
def mediaFrame (msg : Dict Value) : Option InputAudioRawFrame :=
  match Dict.get? msg "media" with
  | some (.dict media) =>
    match Dict.get? media "payload" with
    | some (.str payload) => (b64decode payload).map fun audio => ⟨audio, 16000, 1⟩
    | _ => none
  | _ => none

/-- `WebFrameSerializer.deserialize` of a text; where anything raises there is
no frame. -/
def deserialize (rt : Runtime) (data : Str) : Option InputAudioRawFrame :=
  match Json.loads rt data with
  | .ok (.dict msg) =>
    match Dict.get? msg "event" with
    | some (.str event) => if event = "media" then mediaFrame msg else none
    | _ => none
  | _ => none

structure PipelineParams where
  audioInSampleRate : ℕ
  audioOutSampleRate : ℕ

/-- The parameters of `create_pipecat_pipeline`, whatever the client. -/
def pipelineParams : PipelineParams where
  audioInSampleRate := 8000
  audioOutSampleRate := 8000

/-- A chunk of speech at the output rate of the pipeline. -/
def speechFrame (chunk : List Sample) : OutputFrame :=
  .outputAudioRaw ⟨pcm16 chunk, pipelineParams.audioOutSampleRate, 1⟩

end TechMart.Bot
