import Mathlib.Data.List.Basic

/-!
# The image of a camera frame

`CameraService.kt`: the listener of the image reader copies the three planes of a
`YUV_420_888` image into one buffer, which is taken for an NV21 image. The copies are made by
one thread; the buffers it has used before are kept and used again.

SOURCE: CameraService.kt:172-208
-/

set_option autoImplicit false

namespace Cream.Model

/-- `Image.Plane`: the remaining bytes of its buffer, and the strides. -/
structure Plane where
  buffer : List UInt8
  rowStride : Nat
  pixelStride : Nat

/-- An `Image` of the format `YUV_420_888`. -/
structure CameraImage where
  width : Nat
  height : Nat
  y : Plane
  u : Plane
  v : Plane

/-- The buffers that were used before, each as large as the largest image so far. -/
structure BufferStack where
  bufferSize : Nat
  bufferStack : List (List UInt8)
  sized : ∀ buffer ∈ bufferStack, buffer.length = bufferSize

namespace CameraImage

/-- `ByteBuffer.get(dst, offset, length)`: `none` where it throws. -/
def get (src dst : List UInt8) (offset length : Nat) : Option (List UInt8) :=
  if offset + length ≤ dst.length ∧ length ≤ src.length then
    some (dst.take offset ++ src.take length ++ dst.drop (offset + length))
  else none

/-- The buffers after a larger image has come. -/
def fit (s : BufferStack) (bufSize : Nat) : BufferStack :=
  if s.bufferSize < bufSize then
    ⟨bufSize, [], fun _ h => absurd h List.not_mem_nil⟩
  else s

/-- `bufferStack.pop()`, or a new buffer. -/
def pop (s : BufferStack) : List UInt8 := s.bufferStack.headD (List.replicate s.bufferSize 0)

/-- What `bufferStack.pop()` leaves. -/
def popped (s : BufferStack) : BufferStack :=
  ⟨s.bufferSize, s.bufferStack.tail, fun buffer h => s.sized buffer (List.mem_of_mem_tail h)⟩

/-- `bufferStack.push(buffer)`, of a buffer that was popped. -/
def push (s : BufferStack) (buffer : List UInt8) : BufferStack :=
  if h : buffer.length = s.bufferSize then
    ⟨s.bufferSize, buffer :: s.bufferStack, fun b hb =>
      (List.mem_cons.mp hb).elim (fun heq => heq ▸ h) (s.sized b)⟩
  else s

/-- The buffer of an image, which the listener hands to `YuvImage` and keeps for later; `none`
where a copy throws. -/
def onImageAvailable (s : BufferStack) (img : CameraImage) :
    Option (List UInt8 × BufferStack) := do
  let ySize := img.y.buffer.length
  let uSize := img.u.buffer.length
  let vSize := img.v.buffer.length
  let s := fit s (ySize + uSize + vSize)
  let buffer ← get img.y.buffer (pop s) 0 ySize
  let buffer ← get img.v.buffer buffer ySize vSize
  let buffer ← get img.u.buffer buffer (ySize + vSize) uSize
  return (buffer, push (popped s) buffer)

end CameraImage

end Cream.Model
