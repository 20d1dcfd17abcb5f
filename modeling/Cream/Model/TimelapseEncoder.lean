import Cream.Library.Transition

/-!
# The encoder of a timelapse

`processTimelapse` in `WebService.kt`: the frames are drawn onto the input surface of a codec,
one in each turn of the loop, and what `dequeueOutputBuffer` answers in between decides what the
muxer is given and when. The codec is its answers, one for each call, and the pictures it has
not returned yet. How a frame is transformed and scaled, and the release of everything at the
end, are left out; the size of the video comes out of float arithmetic and is a parameter.

SOURCE: WebService.kt:344-432
-/

set_option autoImplicit false

namespace Cream.Model

/-- `MediaCodec.BufferInfo`, with the two flags that are looked at. -/
structure BufferInfo where
  codecConfig : Bool
  endOfStream : Bool
  size : Nat
  presentationTimeUs : Int
deriving DecidableEq

/-- What `dequeueOutputBuffer` answers. -/
inductive Answer where
  | tryAgainLater
  | outputFormatChanged
  /-- another negative status -/
  | other
  | buffer (info : BufferInfo)
deriving DecidableEq

/-- What `processTimelapse` works on. -/
structure TimelapseJob (File Bitmap : Type) where
  /-- `expandWildcard(cmd.inputPath)` -/
  frames : List File
  /-- `BitmapFactory.decodeFile` -/
  decodeFile : File → Option Bitmap
  /-- `cmd.fps ?: 30` -/
  fps : Int
  encW : Int
  encH : Int

/-- How `processTimelapse` is going. -/
inductive EncoderPhase where
  /-- before a call of `dequeueOutputBuffer` -/
  | draining
  /-- it has returned its line -/
  | finished
  /-- it has returned `""` -/
  | failed
deriving DecidableEq

structure TimelapseEncoder (Bitmap : Type) where
  phase : EncoderPhase
  frameIndex : Nat
  inputDone : Bool
  muxerStarted : Bool
  /-- what was drawn and the codec has not returned -/
  surface : List Bitmap
  /-- the samples that were written, with their times -/
  written : List (Bitmap × Int)

namespace TimelapseEncoder

variable {File Bitmap : Type}

/-- What the loop does with the next frame. A frame that cannot be decoded counts and is not
drawn. -/
def feed (job : TimelapseJob File Bitmap) (s : TimelapseEncoder Bitmap) :
    TimelapseEncoder Bitmap :=
  if s.inputDone then s
  else
    match job.frames[s.frameIndex]? with
    | none => s
    | some frameFile =>
      { s with
        surface := s.surface ++ (job.decodeFile frameFile).toList
        frameIndex := s.frameIndex + 1
        -- `signalEndOfInputStream`
        inputDone := s.frameIndex + 1 ≥ job.frames.length }

/-- `processTimelapse`, up to the first call of `dequeueOutputBuffer`. -/
def start (job : TimelapseJob File Bitmap) : TimelapseEncoder Bitmap :=
  let s : TimelapseEncoder Bitmap := ⟨.draining, 0, false, false, [], []⟩
  match job.frames with
  | [] => { s with phase := .failed }
  | first :: _ =>
    if job.decodeFile first = none then { s with phase := .failed }
    else if job.encW ≤ 0 ∨ job.encH ≤ 0 then { s with phase := .failed }
    else feed job s

/-- The time a sample is written with. -/
def sampleTime (fps : Int) (frameIndex : Nat) (presentationTimeUs : Int) : Int :=
  if presentationTimeUs = 0 ∧ frameIndex > 1 then ((frameIndex - 1 : Int) * 1000000).tdiv fps
  else presentationTimeUs

/-- What the loop does with an answer, up to the next call of `dequeueOutputBuffer`. The sample
in a buffer is that of the picture which was drawn first. An exception is caught, and `""`
returned. -/
def step (job : TimelapseJob File Bitmap) (s : TimelapseEncoder Bitmap) (answer : Answer) :
    Option (TimelapseEncoder Bitmap) :=
  if s.phase ≠ .draining then none
  else
    match answer with
    -- the inner loop ends, and the outer one goes on
    | .tryAgainLater => some (feed job s)
    | .outputFormatChanged =>
      if s.muxerStarted then some { s with phase := .failed }
      else some { s with muxerStarted := true }
    | .other => some s
    | .buffer info =>
      if info.codecConfig then some s
      else if !s.muxerStarted then some { s with phase := .failed }
      else
        let phase := if info.endOfStream then .finished else .draining
        if info.size = 0 then some { s with phase := phase }
        else
          match s.surface with
          | [] => none
          | bitmap :: surface =>
            if info.presentationTimeUs = 0 ∧ s.frameIndex > 1 ∧ job.fps = 0 then
              some { s with phase := .failed }
            else
              some { s with
                phase := phase
                surface := surface
                written := s.written ++
                  [(bitmap, sampleTime job.fps s.frameIndex info.presentationTimeUs)] }

/-- Before a call of `dequeueOutputBuffer`, if it comes to that call. -/
def before (job : TimelapseJob File Bitmap) (answers : Nat → Answer) (n : Nat) :
    Option (TimelapseEncoder Bitmap) :=
  Library.Transition.run (step job) (start job) ((List.range n).map answers)

end TimelapseEncoder

end Cream.Model
