import Cream.Model.CameraImage

/-!
# What the assembled buffer holds

`CameraService.kt`: the planes are copied whole and back to back, Y, V, U. In an NV21 image the
rows of Y follow each other without a gap, and after them come the V and U samples in turn. A
`Layout` is what an image reader may answer: strides, sizes, and chroma buffers that may lie
over each other in one memory. `assembles_iff` says for which layouts the copies are the NV21
image, whatever the image shows.
-/

set_option autoImplicit false

namespace Cream.Model.CameraImage

/-- The size and the strides of a plane. -/
structure PlaneLayout where
  size : Nat
  rowStride : Nat
  pixelStride : Nat

/-- A plane that holds `w` times `h` samples: the last row may end after its last sample. -/
structure PlaneLayout.Fits (l : PlaneLayout) (w h : Nat) : Prop where
  pixel : 1 ≤ l.pixelStride
  row : (w - 1) * l.pixelStride + 1 ≤ l.rowStride
  last : (h - 1) * l.rowStride + (w - 1) * l.pixelStride + 1 ≤ l.size

/-- How an image lies in memory: the U and V buffers are parts of one memory, and may overlap. -/
structure Layout where
  /-- half the width -/
  columns : Nat
  /-- half the height -/
  rows : Nat
  columns_pos : 0 < columns
  rows_pos : 0 < rows
  y : PlaneLayout
  u : PlaneLayout
  v : PlaneLayout
  uOffset : Nat
  vOffset : Nat
  y_fits : y.Fits (2 * columns) (2 * rows)
  u_fits : u.Fits columns rows
  v_fits : v.Fits columns rows

/-- The bytes of a memory from an offset on. -/
def bytes (memory : Nat → UInt8) (offset size : Nat) : List UInt8 :=
  (List.range size).map fun k => memory (offset + k)

/-- An image of a layout: what the luma memory and the chroma memory hold. -/
def Layout.image (l : Layout) (luma chroma : Nat → UInt8) : CameraImage where
  width := 2 * l.columns
  height := 2 * l.rows
  y := ⟨bytes luma 0 l.y.size, l.y.rowStride, l.y.pixelStride⟩
  u := ⟨bytes chroma l.uOffset l.u.size, l.u.rowStride, l.u.pixelStride⟩
  v := ⟨bytes chroma l.vOffset l.v.size, l.v.rowStride, l.v.pixelStride⟩

/-- The sample of a plane in a column and a row. -/
def Plane.sample (p : Plane) (column row : Nat) : Option UInt8 :=
  p.buffer[row * p.rowStride + column * p.pixelStride]?

/-- The NV21 layout of an image. -/
structure IsNv21 (img : CameraImage) (buffer : List UInt8) : Prop where
  size : img.width * img.height * 3 / 2 ≤ buffer.length
  luma : ∀ x < img.width, ∀ y < img.height,
    buffer[y * img.width + x]? = Plane.sample img.y x y
  chroma : ∀ i < img.width / 2, ∀ j < img.height / 2,
    buffer[img.width * img.height + j * img.width + 2 * i]? = Plane.sample img.v i j ∧
      buffer[img.width * img.height + j * img.width + 2 * i + 1]? = Plane.sample img.u i j

/-- Whatever an image of the layout shows, and whatever buffers were used before, no copy leaves
a buffer and the result is the NV21 layout of the image. -/
def Assembles (l : Layout) : Prop :=
  ∀ (s : BufferStack) (luma chroma : Nat → UInt8), ∃ buffer s',
    onImageAvailable s (l.image luma chroma) = some (buffer, s') ∧
      IsNv21 (l.image luma chroma) buffer

/-! ## What is copied where -/

/-- As many bytes are read as were asked for. -/
@[simp] theorem length_bytes (memory : Nat → UInt8) (offset size : Nat) :
    (bytes memory offset size).length = size := by simp [bytes]

/-- Each is that of its place. -/
theorem getElem?_bytes (memory : Nat → UInt8) (offset : Nat) {size k : Nat} (h : k < size) :
    (bytes memory offset size)[k]? = some (memory (offset + k)) := by
  simp [bytes, h]

/-- A copy behind what was copied before. -/
theorem get_append (a src rest : List UInt8) (h : src.length ≤ rest.length) :
    get src (a ++ rest) a.length src.length = some (a ++ src ++ rest.drop src.length) := by
  have hfits : a.length + src.length ≤ (a ++ rest).length ∧ src.length ≤ src.length := by
    rw [List.length_append]
    omega
  rw [get, if_pos hfits, List.take_left, List.take_length, List.drop_append,
    List.drop_eq_nil_of_le (Nat.le_add_right _ _), List.nil_append, Nat.add_sub_cancel_left]

/-- The buffer that is used is large enough. -/
theorem le_length_pop (s : BufferStack) (bufSize : Nat) :
    bufSize ≤ (pop (fit s bufSize)).length := by
  have hsize : bufSize ≤ (fit s bufSize).bufferSize := by
    unfold fit
    split
    · exact Nat.le_refl _
    · omega
  have hpop : (pop (fit s bufSize)).length = (fit s bufSize).bufferSize := by
    unfold pop
    cases hstack : (fit s bufSize).bufferStack with
    | nil => exact List.length_replicate
    | cons buffer rest => exact (fit s bufSize).sized buffer (by rw [hstack]; exact List.mem_cons_self)
  rw [hpop]
  exact hsize

/-- **The planes, back to back**: no copy leaves a buffer, and what was in the used buffer is
left behind them. -/
theorem onImageAvailable_eq (s : BufferStack) (img : CameraImage) :
    ∃ old s', onImageAvailable s img =
      some (img.y.buffer ++ (img.v.buffer ++ (img.u.buffer ++ old)), s') := by
  have hlong := le_length_pop s (img.y.buffer.length + img.u.buffer.length + img.v.buffer.length)
  generalize hbuffer : pop (fit s (img.y.buffer.length + img.u.buffer.length +
    img.v.buffer.length)) = buffer at hlong
  have hy := get_append [] img.y.buffer buffer (by omega)
  have hv := get_append img.y.buffer img.v.buffer (buffer.drop img.y.buffer.length)
    (by rw [List.length_drop]; omega)
  have hu := get_append (img.y.buffer ++ img.v.buffer) img.u.buffer
    ((buffer.drop img.y.buffer.length).drop img.v.buffer.length)
    (by rw [List.length_drop, List.length_drop]; omega)
  rw [List.nil_append, List.nil_append, List.length_nil] at hy
  rw [List.length_append] at hu
  generalize ((buffer.drop img.y.buffer.length).drop img.v.buffer.length).drop
    img.u.buffer.length = old at hu
  refine ⟨old, push (popped (fit s (img.y.buffer.length + img.u.buffer.length +
    img.v.buffer.length))) (img.y.buffer ++ (img.v.buffer ++ (img.u.buffer ++ old))), ?_⟩
  unfold onImageAvailable
  dsimp only
  rw [hbuffer, hy, Option.bind_eq_bind, Option.bind_some, hv, Option.bind_some, hu,
    Option.bind_some, List.append_assoc, List.append_assoc]
  rfl

/-! ## Where the bytes come from -/

variable {l : Layout}

/-- Where in the chroma memory the bytes behind the Y plane come from. -/
def Layout.source (l : Layout) (k : Nat) : Nat :=
  if k < l.v.size then l.vOffset + k else l.uOffset + (k - l.v.size)

/-- The samples of a plane are in its buffer, and it has room for each. -/
theorem PlaneLayout.Fits.sample_lt {p : PlaneLayout} {w h : Nat} (hp : p.Fits w h) {i j : Nat}
    (hi : i < w) (hj : j < h) : j * p.rowStride + i * p.pixelStride < p.size := by
  have hrow : j * p.rowStride ≤ (h - 1) * p.rowStride := Nat.mul_le_mul_right _ (by omega)
  have hpixel : i * p.pixelStride ≤ (w - 1) * p.pixelStride := Nat.mul_le_mul_right _ (by omega)
  have hlast := hp.last
  omega

/-- A row of a plane that fits has room for its samples. -/
theorem PlaneLayout.Fits.le_rowStride {p : PlaneLayout} {w h : Nat} (hp : p.Fits w h)
    (hw : 0 < w) : w ≤ p.rowStride := by
  have hpixel : (w - 1) * 1 ≤ (w - 1) * p.pixelStride := Nat.mul_le_mul_left _ hp.pixel
  have hrow := hp.row
  omega

/-- So has the plane. -/
theorem PlaneLayout.Fits.le_size {p : PlaneLayout} {w h : Nat} (hp : p.Fits w h)
    (hw : 0 < w) (hh : 0 < h) : w * h ≤ p.size := by
  have hpixel : (w - 1) * 1 ≤ (w - 1) * p.pixelStride := Nat.mul_le_mul_left _ hp.pixel
  have hrow : (h - 1) * w ≤ (h - 1) * p.rowStride :=
    Nat.mul_le_mul_left _ (hp.le_rowStride hw)
  have hwh : (h - 1) * w + w = w * h := by
    rw [Nat.mul_comm, ← Nat.mul_succ]
    congr 1
    omega
  have hlast := hp.last
  omega

/-- The luma of the assembled buffer. -/
theorem getElem?_luma (luma chroma : Nat → UInt8) (old : List UInt8) {k : Nat}
    (hk : k < l.y.size) :
    ((l.image luma chroma).y.buffer ++ ((l.image luma chroma).v.buffer ++
      ((l.image luma chroma).u.buffer ++ old)))[k]? = some (luma k) := by
  have hlength : k < ((l.image luma chroma).y.buffer).length := by
    rw [Layout.image, length_bytes]
    exact hk
  rw [List.getElem?_append_left hlength, Layout.image, getElem?_bytes _ _ hk, Nat.zero_add]

/-- The chroma behind it. -/
theorem getElem?_chroma (luma chroma : Nat → UInt8) (old : List UInt8) {k : Nat}
    (hk : k < l.v.size + l.u.size) :
    ((l.image luma chroma).y.buffer ++ ((l.image luma chroma).v.buffer ++
      ((l.image luma chroma).u.buffer ++ old)))[l.y.size + k]? = some (chroma (l.source k)) := by
  have hy : (l.image luma chroma).y.buffer.length = l.y.size := length_bytes _ _ _
  have hv : (l.image luma chroma).v.buffer.length = l.v.size := length_bytes _ _ _
  have hu : (l.image luma chroma).u.buffer.length = l.u.size := length_bytes _ _ _
  rw [List.getElem?_append_right (by omega), hy, Nat.add_sub_cancel_left, Layout.source]
  by_cases hlt : k < l.v.size
  · rw [if_pos hlt, List.getElem?_append_left (by omega)]
    exact getElem?_bytes _ _ hlt
  · rw [if_neg hlt, List.getElem?_append_right (by omega), hv,
      List.getElem?_append_left (by omega)]
    exact getElem?_bytes _ _ (by omega)

/-- The samples of the image, in the memories. -/
theorem sample_luma (luma chroma : Nat → UInt8) {i j : Nat} (hi : i < 2 * l.columns)
    (hj : j < 2 * l.rows) : Plane.sample (l.image luma chroma).y i j =
      some (luma (j * l.y.rowStride + i * l.y.pixelStride)) := by
  have h := getElem?_bytes luma 0 (l.y_fits.sample_lt hi hj)
  rwa [Nat.zero_add] at h

/-- The samples of V are in the shared memory of the chroma. -/
theorem sample_v (luma chroma : Nat → UInt8) {i j : Nat} (hi : i < l.columns)
    (hj : j < l.rows) : Plane.sample (l.image luma chroma).v i j =
      some (chroma (l.vOffset + (j * l.v.rowStride + i * l.v.pixelStride))) :=
  getElem?_bytes chroma l.vOffset (l.v_fits.sample_lt hi hj)

/-- So are those of U. -/
theorem sample_u (luma chroma : Nat → UInt8) {i j : Nat} (hi : i < l.columns)
    (hj : j < l.rows) : Plane.sample (l.image luma chroma).u i j =
      some (chroma (l.uOffset + (j * l.u.rowStride + i * l.u.pixelStride))) :=
  getElem?_bytes chroma l.uOffset (l.u_fits.sample_lt hi hj)

/-- A layout whose bytes are where NV21 has them. -/
structure Layout.Placed (l : Layout) : Prop where
  size : l.y.size = 2 * l.columns * (2 * l.rows)
  row : l.y.rowStride = 2 * l.columns
  pixel : l.y.pixelStride = 1
  v : ∀ i < l.columns, ∀ j < l.rows, l.source (j * (2 * l.columns) + 2 * i) =
    l.vOffset + (j * l.v.rowStride + i * l.v.pixelStride)
  u : ∀ i < l.columns, ∀ j < l.rows, l.source (j * (2 * l.columns) + 2 * i + 1) =
    l.uOffset + (j * l.u.rowStride + i * l.u.pixelStride)

/-- Memories that tell two addresses apart. -/
theorem address_eq {a b : Nat} (h : ∀ memory : Nat → UInt8, memory a = memory b) : a = b := by
  have hone := h fun k => if k = a then 1 else 0
  simp only [if_true] at hone
  by_contra hne
  rw [if_neg (Ne.symm hne)] at hone
  exact absurd hone (by decide)

/-- The index of a sample is within the rows. -/
theorem index_lt {w h i j : Nat} (hi : i < w) (hj : j < h) : j * w + i < w * h := by
  calc j * w + i < j * w + w := by omega
    _ = w * (j + 1) := by rw [Nat.mul_succ, Nat.mul_comm]
    _ ≤ w * h := Nat.mul_le_mul_left _ hj

/-- Both samples of a place are within the two planes. -/
theorem chromaIndex_lt {i j : Nat} (hi : i < l.columns) (hj : j < l.rows) :
    j * (2 * l.columns) + 2 * i + 1 < l.v.size + l.u.size := by
  have hv := l.v_fits.le_size l.columns_pos l.rows_pos
  have hu := l.u_fits.le_size l.columns_pos l.rows_pos
  have hindex := index_lt hi hj
  have htwice : j * (2 * l.columns) = 2 * (j * l.columns) := by
    rw [Nat.mul_left_comm]
  omega

/-- **The copies are the NV21 image** when the bytes are where NV21 has them, and, as the memory
can hold anything, only then. -/
theorem assembles_iff_placed : Assembles l ↔ l.Placed := by
  have hw : (2 * l.columns) / 2 = l.columns := Nat.mul_div_cancel_left _ (by omega)
  have hh : (2 * l.rows) / 2 = l.rows := Nat.mul_div_cancel_left _ (by omega)
  have hwpos := l.columns_pos
  have hhpos := l.rows_pos
  have hsize := l.y_fits.le_size (by omega) (by omega)
  constructor
  · intro hassembles
    have hread : ∀ luma chroma : Nat → UInt8, ∃ old,
        IsNv21 (l.image luma chroma) ((l.image luma chroma).y.buffer ++
          ((l.image luma chroma).v.buffer ++ ((l.image luma chroma).u.buffer ++ old))) := by
      intro luma chroma
      obtain ⟨buffer, s', hbuffer, hnv21⟩ :=
        hassembles ⟨0, [], fun buffer h => absurd h List.not_mem_nil⟩ luma chroma
      obtain ⟨old, s'', heq⟩ := onImageAvailable_eq
        ⟨0, [], fun buffer h => absurd h List.not_mem_nil⟩ (l.image luma chroma)
      obtain ⟨rfl, -⟩ := Prod.mk.inj (Option.some.inj (heq.symm.trans hbuffer))
      exact ⟨old, hnv21⟩
    have hluma : ∀ x < 2 * l.columns, ∀ y < 2 * l.rows,
        y * (2 * l.columns) + x = y * l.y.rowStride + x * l.y.pixelStride := by
      intro x hx y hy
      refine address_eq fun luma => ?_
      obtain ⟨old, hnv21⟩ := hread luma fun _ => 0
      have hsample := hnv21.luma x hx y hy
      rw [sample_luma luma _ hx hy] at hsample
      rw [← Option.some.injEq, ← hsample]
      exact (getElem?_luma luma _ old (Nat.lt_of_lt_of_le (index_lt hx hy) hsize)).symm
    have hpixel := hluma 1 (by omega) 0 (by omega)
    have hrow := hluma 0 (by omega) 1 (by omega)
    have htight : l.y.size = 2 * l.columns * (2 * l.rows) := by
      by_contra hne
      -- the first byte behind the rows would be luma padding
      obtain ⟨old, hnv21⟩ := hread (fun _ => 0) fun _ => 1
      have hchroma := (hnv21.chroma 0 (hw.symm ▸ hwpos) 0 (hh.symm ▸ hhpos)).1
      have hlt : 2 * l.columns * (2 * l.rows) < l.y.size := by omega
      have hbyte := getElem?_luma (fun _ => 0) (fun _ => 1) old hlt
      have hindex : (l.image (fun _ => 0) fun _ => 1).width *
          (l.image (fun _ => 0) fun _ => 1).height +
            0 * (l.image (fun _ => 0) fun _ => 1).width + 2 * 0 =
              2 * l.columns * (2 * l.rows) := by
        rw [Nat.zero_mul]
        rfl
      rw [sample_v _ _ hwpos hhpos, hindex, hbyte, Option.some.injEq] at hchroma
      exact absurd hchroma (by decide)
    have hplace : ∀ k < l.v.size + l.u.size, ∀ address, (∀ chroma : Nat → UInt8,
        ∃ old, ((l.image (fun _ => 0) chroma).y.buffer ++ ((l.image (fun _ => 0) chroma).v.buffer ++
          ((l.image (fun _ => 0) chroma).u.buffer ++ old)))[l.y.size + k]? =
            some (chroma address)) → l.source k = address := by
      intro k hk address hsame
      refine address_eq fun chroma => ?_
      obtain ⟨old, hbyte⟩ := hsame chroma
      rw [getElem?_chroma _ _ _ hk] at hbyte
      exact Option.some.inj hbyte
    refine ⟨htight, by omega, by omega, fun i hi j hj => ?_, fun i hi j hj => ?_⟩
    · refine hplace _ (Nat.lt_of_succ_lt (chromaIndex_lt hi hj)) _ fun chroma => ?_
      obtain ⟨old, hnv21⟩ := hread (fun _ => 0) chroma
      have hbyte := (hnv21.chroma i (hw.symm ▸ hi) j (hh.symm ▸ hj)).1
      rw [sample_v _ _ hi hj] at hbyte
      rw [htight, ← Nat.add_assoc]
      exact ⟨old, hbyte⟩
    · refine hplace _ (chromaIndex_lt hi hj) _ fun chroma => ?_
      obtain ⟨old, hnv21⟩ := hread (fun _ => 0) chroma
      have hbyte := (hnv21.chroma i (hw.symm ▸ hi) j (hh.symm ▸ hj)).2
      rw [sample_u _ _ hi hj] at hbyte
      rw [htight, ← Nat.add_assoc, ← Nat.add_assoc]
      exact ⟨old, hbyte⟩
  · intro hplaced s luma chroma
    obtain ⟨old, s', heq⟩ := onImageAvailable_eq s (l.image luma chroma)
    refine ⟨_, s', heq, ?_, fun x hx y hy => ?_, fun i hi j hj => ?_⟩
    · have hv := l.v_fits.le_size hwpos hhpos
      have hu := l.u_fits.le_size hwpos hhpos
      have hquarter : 2 * l.columns * (2 * l.rows) = 4 * (l.columns * l.rows) := by
        rw [Nat.mul_mul_mul_comm]
      simp only [Layout.image, List.length_append, length_bytes]
      rw [hplaced.size]
      omega
    · have hindex : y * (2 * l.columns) + x < l.y.size :=
        Nat.lt_of_lt_of_le (index_lt hx hy) hsize
      rw [sample_luma luma chroma hx hy, hplaced.row, hplaced.pixel, Nat.mul_one]
      exact getElem?_luma luma chroma old hindex
    · have hi' : i < l.columns := hw ▸ hi
      have hj' : j < l.rows := hh ▸ hj
      have hindex := chromaIndex_lt hi' hj'
      rw [sample_v _ _ hi' hj', sample_u _ _ hi' hj', ← hplaced.v i hi' j hj',
        ← hplaced.u i hi' j hj']
      have hfirst := getElem?_chroma luma chroma old (Nat.lt_of_succ_lt hindex)
      have hsecond := getElem?_chroma luma chroma old hindex
      rw [hplaced.size, ← Nat.add_assoc] at hfirst
      rw [hplaced.size, ← Nat.add_assoc, ← Nat.add_assoc] at hsecond
      exact ⟨hfirst, hsecond⟩

/-! ## The layouts that are placed so -/

/-- The rows of Y follow each other without a gap, up to the end of the buffer. -/
def Layout.TightLuma (l : Layout) : Prop :=
  l.y.size = 2 * l.columns * (2 * l.rows) ∧ l.y.rowStride = 2 * l.columns ∧ l.y.pixelStride = 1

/-- V and U samples in turn, and the V buffer reaches over the last U sample. -/
def Layout.Interleaved (l : Layout) : Prop :=
  l.uOffset = l.vOffset + 1 ∧ 2 * (l.columns * l.rows) ≤ l.v.size ∧
    (2 ≤ l.columns → l.v.pixelStride = 2 ∧ l.u.pixelStride = 2) ∧
    (2 ≤ l.rows → l.v.rowStride = 2 * l.columns ∧ l.u.rowStride = 2 * l.columns)

/-- One V sample, and the V buffer ends after it. -/
def Layout.Single (l : Layout) : Prop := l.columns = 1 ∧ l.rows = 1 ∧ l.v.size = 1

/-- Two V samples in a row, the second of which is the first U sample as well. -/
def Layout.Shared (l : Layout) : Prop :=
  l.uOffset = l.vOffset + 1 ∧ l.v.size = 2 ∧ l.columns * l.rows = 2 ∧
    (l.columns = 2 → l.v.pixelStride = 1 ∧ l.u.pixelStride = 1) ∧
    (l.rows = 2 → l.v.rowStride = 1 ∧ l.u.rowStride = 1)

/-- The first plane is read from the offset of V. -/
theorem source_of_lt {k : Nat} (h : k < l.v.size) : l.source k = l.vOffset + k := if_pos h

/-- The second one is read from that of U. -/
theorem source_of_le {k : Nat} (h : l.v.size ≤ k) : l.source k = l.uOffset + (k - l.v.size) :=
  if_neg (Nat.not_lt.mpr h)

/-- The last sample of a plane, against the number of samples. -/
theorem PlaneLayout.Fits.samples_le_last {p : PlaneLayout} {w h : Nat} (hp : p.Fits w h)
    (hw : 0 < w) (hh : 0 < h) :
    w * h ≤ (h - 1) * p.rowStride + (w - 1) * p.pixelStride + 1 := by
  have hpixel : (w - 1) * 1 ≤ (w - 1) * p.pixelStride := Nat.mul_le_mul_left _ hp.pixel
  have hrow : (h - 1) * w ≤ (h - 1) * p.rowStride := Nat.mul_le_mul_left _ (hp.le_rowStride hw)
  have hwh : (h - 1) * w + w = w * h := by
    rw [Nat.mul_comm, ← Nat.mul_succ]
    congr 1
    omega
  omega

/-- A plane that ends after as many bytes as it has samples has no gaps. -/
theorem PlaneLayout.Fits.tight {p : PlaneLayout} {w h : Nat} (hp : p.Fits w h) (hw : 0 < w)
    (hh : 0 < h) (hlast : (h - 1) * p.rowStride + (w - 1) * p.pixelStride + 1 = w * h) :
    (2 ≤ w → p.pixelStride = 1) ∧ (2 ≤ h → p.rowStride = w) := by
  have hpixel : (w - 1) * 1 ≤ (w - 1) * p.pixelStride := Nat.mul_le_mul_left _ hp.pixel
  have hrow : (h - 1) * w ≤ (h - 1) * p.rowStride := Nat.mul_le_mul_left _ (hp.le_rowStride hw)
  have hwh : (h - 1) * w + w = w * h := by
    rw [Nat.mul_comm, ← Nat.mul_succ]
    congr 1
    omega
  refine ⟨fun htwo => ?_, fun htwo => ?_⟩
  · have hsame : (w - 1) * p.pixelStride = (w - 1) * 1 := by omega
    exact Nat.eq_of_mul_eq_mul_left (by omega) hsame
  · have hsame : (h - 1) * p.rowStride = (h - 1) * w := by omega
    exact Nat.eq_of_mul_eq_mul_left (by omega) hsame

/-- Interleaved samples are placed as in NV21. -/
theorem Layout.Interleaved.placed (h : l.Interleaved) (htight : l.TightLuma) : l.Placed := by
  obtain ⟨hoffset, hsize, hpixel, hrow⟩ := h
  have haddress : ∀ i < l.columns, ∀ j < l.rows,
      j * l.v.rowStride + i * l.v.pixelStride = j * (2 * l.columns) + 2 * i ∧
        j * l.u.rowStride + i * l.u.pixelStride = j * (2 * l.columns) + 2 * i := by
    intro i hi j hj
    have hcolumn : i * l.v.pixelStride = 2 * i ∧ i * l.u.pixelStride = 2 * i := by
      cases i with
      | zero => simp
      | succ i =>
        obtain ⟨hv, hu⟩ := hpixel (by omega)
        rw [hv, hu, Nat.mul_comm]
        exact ⟨rfl, rfl⟩
    have hline : j * l.v.rowStride = j * (2 * l.columns) ∧
        j * l.u.rowStride = j * (2 * l.columns) := by
      cases j with
      | zero => simp
      | succ j =>
        obtain ⟨hv, hu⟩ := hrow (by omega)
        rw [hv, hu]
        exact ⟨rfl, rfl⟩
    rw [hcolumn.1, hcolumn.2, hline.1, hline.2]
    exact ⟨rfl, rfl⟩
  have hindex : ∀ i < l.columns, ∀ j < l.rows, j * (2 * l.columns) + 2 * i + 1 < l.v.size := by
    intro i hi j hj
    have hlt := index_lt hi hj
    have htwice : j * (2 * l.columns) = 2 * (j * l.columns) := Nat.mul_left_comm _ _ _
    omega
  refine ⟨htight.1, htight.2.1, htight.2.2, fun i hi j hj => ?_, fun i hi j hj => ?_⟩
  · rw [source_of_lt (Nat.lt_of_succ_lt (hindex i hi j hj)), (haddress i hi j hj).1]
  · rw [source_of_lt (hindex i hi j hj), (haddress i hi j hj).2, hoffset]
    omega

/-- With a single V sample the planes are placed. -/
theorem Layout.Single.placed (h : l.Single) (htight : l.TightLuma) : l.Placed := by
  obtain ⟨hcolumns, hrows, hsize⟩ := h
  refine ⟨htight.1, htight.2.1, htight.2.2, fun i hi j hj => ?_, fun i hi j hj => ?_⟩
  · obtain rfl : i = 0 := by omega
    obtain rfl : j = 0 := by omega
    rw [source_of_lt (by omega)]
    simp
  · obtain rfl : i = 0 := by omega
    obtain rfl : j = 0 := by omega
    rw [source_of_le (by omega)]
    simp [hsize]

/-- So they are where the second V sample is the first U sample. -/
theorem Layout.Shared.placed (h : l.Shared) (htight : l.TightLuma) : l.Placed := by
  obtain ⟨hoffset, hsize, hsamples, hpixel, hrow⟩ := h
  have hshape : l.columns = 2 ∧ l.rows = 1 ∨ l.columns = 1 ∧ l.rows = 2 := by
    have hcolumns : l.columns ≤ 2 := Nat.le_of_dvd (by omega) ⟨l.rows, hsamples.symm⟩
    have hpos := l.columns_pos
    rcases (by omega : l.columns = 1 ∨ l.columns = 2) with hone | htwo
    · rw [hone] at hsamples
      exact .inr ⟨hone, by omega⟩
    · rw [htwo] at hsamples
      exact .inl ⟨htwo, by omega⟩
  have hsource : l.source 0 = l.vOffset ∧ l.source 1 = l.vOffset + 1 ∧
      l.source 2 = l.uOffset ∧ l.source 3 = l.uOffset + 1 := by
    refine ⟨source_of_lt (by omega), source_of_lt (by omega), ?_, ?_⟩
    · rw [source_of_le (by omega), hsize, Nat.sub_self, Nat.add_zero]
    · rw [source_of_le (by omega), hsize]
  obtain ⟨h0, h1, h2, h3⟩ := hsource
  rcases hshape with ⟨hcolumns, hrows⟩ | ⟨hcolumns, hrows⟩
  · obtain ⟨hv, hu⟩ := hpixel hcolumns
    refine ⟨htight.1, htight.2.1, htight.2.2, fun i hi j hj => ?_, fun i hi j hj => ?_⟩
    · obtain rfl : j = 0 := by omega
      rcases (by omega : i = 0 ∨ i = 1) with rfl | rfl
      · simpa using h0
      · simp [h2, hv, hoffset]
    · obtain rfl : j = 0 := by omega
      rcases (by omega : i = 0 ∨ i = 1) with rfl | rfl
      · simp [h1, hoffset]
      · simp [h3, hu]
  · obtain ⟨hv, hu⟩ := hrow hrows
    refine ⟨htight.1, htight.2.1, htight.2.2, fun i hi j hj => ?_, fun i hi j hj => ?_⟩
    · obtain rfl : i = 0 := by omega
      rcases (by omega : j = 0 ∨ j = 1) with rfl | rfl
      · simpa using h0
      · simp [h2, hv, hoffset, hcolumns]
    · obtain rfl : i = 0 := by omega
      rcases (by omega : j = 0 ∨ j = 1) with rfl | rfl
      · simp [h1, hoffset]
      · simp [h3, hu, hcolumns]

/-- The V and U samples at the beginning of the first two rows and columns. -/
theorem Layout.Placed.first (h : l.Placed) :
    l.source 1 = l.uOffset ∧
      (2 ≤ l.columns → l.source 2 = l.vOffset + l.v.pixelStride ∧
        l.source 3 = l.uOffset + l.u.pixelStride) ∧
      (2 ≤ l.rows → l.source (2 * l.columns) = l.vOffset + l.v.rowStride ∧
        l.source (2 * l.columns + 1) = l.uOffset + l.u.rowStride) := by
  have hcolumns := l.columns_pos
  have hrows := l.rows_pos
  refine ⟨?_, fun htwo => ⟨?_, ?_⟩, fun htwo => ⟨?_, ?_⟩⟩
  · simpa using h.u 0 (by omega) 0 (by omega)
  · simpa using h.v 1 (by omega) 0 (by omega)
  · simpa using h.u 1 (by omega) 0 (by omega)
  · simpa using h.v 0 (by omega) 1 (by omega)
  · simpa using h.u 0 (by omega) 1 (by omega)

/-- The last V and U samples. -/
theorem Layout.Placed.last (h : l.Placed) :
    l.source (2 * (l.columns * l.rows) - 1) = l.uOffset +
      ((l.rows - 1) * l.u.rowStride + (l.columns - 1) * l.u.pixelStride) := by
  have hcolumns := l.columns_pos
  have hrows := l.rows_pos
  have hindex : (l.rows - 1) * (2 * l.columns) + 2 * (l.columns - 1) + 1 =
      2 * (l.columns * l.rows) - 1 := by
    have hlines : (l.rows - 1) * (2 * l.columns) + 2 * l.columns = 2 * (l.columns * l.rows) := by
      rw [← Nat.succ_mul, Nat.succ_eq_add_one, Nat.sub_add_cancel hrows, Nat.mul_left_comm,
        Nat.mul_comm l.rows]
    omega
  rw [← hindex]
  exact h.u (l.columns - 1) (by omega) (l.rows - 1) (by omega)

/-- **The layouts whose bytes are placed as in NV21.** The U sample after the first V sample
comes from the V buffer unless that has one byte only; the last U sample does when the buffer
is long enough, and else the buffer has just as many bytes as samples, which leaves room for
two. -/
theorem Layout.Placed.cases (h : l.Placed) : l.Interleaved ∨ l.Single ∨ l.Shared := by
  have hcolumns := l.columns_pos
  have hrows := l.rows_pos
  obtain ⟨hfirst, hpixel, hrow⟩ := h.first
  have hlast := h.last
  have hvsamples := l.v_fits.samples_le_last hcolumns hrows
  have husamples := l.u_fits.samples_le_last hcolumns hrows
  have hvlast := l.v_fits.last
  have hsquare : l.columns ≤ l.columns * l.rows ∧ l.rows ≤ l.columns * l.rows :=
    ⟨Nat.le_mul_of_pos_right _ hrows, Nat.le_mul_of_pos_left _ hcolumns⟩
  by_cases hone : l.v.size = 1
  · exact .inr (.inl ⟨by omega, by omega, hone⟩)
  · have hoffset : l.uOffset = l.vOffset + 1 := by
      rw [source_of_lt (by omega)] at hfirst
      exact hfirst.symm
    by_cases hlong : 2 * (l.columns * l.rows) ≤ l.v.size
    · refine .inl ⟨hoffset, hlong, fun htwo => ?_, fun htwo => ?_⟩
      · have hfour : 4 ≤ 2 * (l.columns * l.rows) := by omega
        obtain ⟨hv, hu⟩ := hpixel htwo
        rw [source_of_lt (by omega)] at hv hu
        omega
      · have hdouble : 2 * l.columns + 1 < 2 * (l.columns * l.rows) := by
          have hmul : l.columns * 2 ≤ l.columns * l.rows := Nat.mul_le_mul_left _ htwo
          omega
        obtain ⟨hv, hu⟩ := hrow htwo
        rw [source_of_lt (by omega)] at hv hu
        omega
    · -- the last U sample comes from the U buffer
      rw [source_of_le (by omega)] at hlast
      have hsize : l.v.size = l.columns * l.rows := by omega
      have hulast : (l.rows - 1) * l.u.rowStride + (l.columns - 1) * l.u.pixelStride + 1 =
          l.columns * l.rows := by omega
      obtain ⟨hupixel, hurow⟩ := l.u_fits.tight hcolumns hrows hulast
      obtain ⟨hvpixel, hvrow⟩ := l.v_fits.tight hcolumns hrows (by omega)
      have htwo : l.v.size = 2 := by
        by_contra hne
        by_cases hwide : 2 ≤ l.columns
        · have hv := (hpixel hwide).1
          rw [source_of_lt (by omega), hvpixel hwide] at hv
          omega
        · have hnarrow : l.columns = 1 := by omega
          rw [hnarrow, Nat.one_mul] at hsize
          have hv := (hrow (by omega)).1
          rw [hnarrow, source_of_lt (by omega), hvrow (by omega), hnarrow] at hv
          omega
      refine .inr (.inr ⟨hoffset, htwo, by omega, fun hwide => ?_, fun htall => ?_⟩)
      · exact ⟨hvpixel (by omega), hupixel (by omega)⟩
      · have hnarrow : l.columns = 1 := by
          rw [htall] at hsize
          omega
        exact ⟨(hvrow (by omega)).trans hnarrow, (hurow (by omega)).trans hnarrow⟩

/-- **Which images are assembled right**: for every size and every strides, buffer sizes and
overlap of the chroma planes, the copies stay in their buffers and make the NV21 layout of
every image exactly when the Y plane has no padding and V and U samples lie in turn, V first, in
a V buffer with a full last row (or there is one V sample, or the chroma planes are two samples
long and share one).

SOURCE: CameraService.kt:172-208 -/
theorem assembles_iff (l : Layout) :
    Assembles l ↔ l.TightLuma ∧ (l.Interleaved ∨ l.Single ∨ l.Shared) := by
  rw [assembles_iff_placed]
  constructor
  · intro h
    exact ⟨⟨h.size, h.row, h.pixel⟩, h.cases⟩
  · rintro ⟨htight, hinterleaved | hsingle | hshared⟩
    · exact hinterleaved.placed htight
    · exact hsingle.placed htight
    · exact hshared.placed htight

/-- A semi-planar image of four by four pixels whose chroma planes end after their last
sample. -/
def shortLastRow : Layout where
  columns := 2
  rows := 2
  columns_pos := by decide
  rows_pos := by decide
  y := ⟨16, 4, 1⟩
  u := ⟨7, 4, 2⟩
  v := ⟨7, 4, 2⟩
  uOffset := 1
  vOffset := 0
  y_fits := ⟨by decide, by decide, by decide⟩
  u_fits := ⟨by decide, by decide, by decide⟩
  v_fits := ⟨by decide, by decide, by decide⟩

/-- **Not every image is assembled right**: where the V buffer ends after its last sample, the
last U sample is overwritten by the first. -/
theorem not_assembles : ¬∀ l : Layout, Assembles l := by
  intro h
  obtain ⟨buffer, s', hbuffer, hnv21⟩ := h shortLastRow
    ⟨0, [], fun buffer h => absurd h List.not_mem_nil⟩ (fun _ => 0) fun k => UInt8.ofNat k
  have hresult : (onImageAvailable ⟨0, [], fun buffer h => absurd h List.not_mem_nil⟩
      (shortLastRow.image (fun _ => 0) fun k => UInt8.ofNat k)).map (fun r => r.1[23]?) =
        some (some 1) := by decide +kernel
  have hsample : Plane.sample (shortLastRow.image (fun _ => 0) fun k => UInt8.ofNat k).u 1 1 =
      some 7 := by decide +kernel
  have hchroma := (hnv21.chroma 1 (by decide) 1 (by decide)).2
  rw [hbuffer, Option.map_some, Option.some.injEq] at hresult
  rw [hsample] at hchroma
  exact absurd (hresult.symm.trans hchroma) (by decide)

end Cream.Model.CameraImage
