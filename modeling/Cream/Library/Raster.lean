import Mathlib.Order.Lattice
import Mathlib.Data.Int.Order.Basic
import Mathlib.Tactic.LinearCombination

/-!
# Bitmaps and matrices

Drawing a bitmap through a matrix, over the integers: a pixel of the result shows the pixel of
the source whose image its centre lies in. The matrices that turn and mirror are those of an
`Orientation`, and `draw_matrix` says what a bitmap drawn through one of them shows once it is
moved to the origin; `clock_image` and its siblings say how turning and mirroring a bitmap
changes its orientation.
-/

set_option autoImplicit false

namespace Cream.Library

structure Bitmap (α : Type) where
  width : Nat
  height : Nat
  pixel : Nat → Nat → α

/-- Bitmaps that show the same. -/
structure Bitmap.Same {α : Type} (a b : Bitmap α) : Prop where
  width : a.width = b.width
  height : a.height = b.height
  pixel : ∀ x < a.width, ∀ y < a.height, a.pixel x y = b.pixel x y

/-- `android.graphics.Matrix`: `(x, y) ↦ (a x + b y + tx, c x + d y + ty)`, where `x` goes to the
right and `y` down. -/
structure AffineMatrix where
  a : Int
  b : Int
  tx : Int
  c : Int
  d : Int
  ty : Int
deriving DecidableEq

structure Rect where
  left : Int
  top : Int
  right : Int
  bottom : Int

namespace AffineMatrix

def identity : AffineMatrix := ⟨1, 0, 0, 0, 1, 0⟩

/-- `m`, and `n` after it. -/
def postConcat (m n : AffineMatrix) : AffineMatrix where
  a := n.a * m.a + n.b * m.c
  b := n.a * m.b + n.b * m.d
  tx := n.a * m.tx + n.b * m.ty + n.tx
  c := n.c * m.a + n.d * m.c
  d := n.c * m.b + n.d * m.d
  ty := n.c * m.tx + n.d * m.ty + n.ty

def postScale (m : AffineMatrix) (sx sy : Int) : AffineMatrix := m.postConcat ⟨sx, 0, 0, 0, sy, 0⟩

def postTranslate (m : AffineMatrix) (dx dy : Int) : AffineMatrix :=
  m.postConcat ⟨1, 0, dx, 0, 1, dy⟩

/-- `postRotate(90)`: a quarter turn clockwise takes the x axis to the y axis. -/
def postRotate90 (m : AffineMatrix) : AffineMatrix := m.postConcat ⟨0, -1, 0, 1, 0, 0⟩

/-- `postRotate(-90)`. -/
def postRotateMinus90 (m : AffineMatrix) : AffineMatrix := m.postConcat ⟨0, 1, 0, -1, 0, 0⟩

def mapX (m : AffineMatrix) (x y : Int) : Int := m.a * x + m.b * y + m.tx

def mapY (m : AffineMatrix) (x y : Int) : Int := m.c * x + m.d * y + m.ty

/-- `mapRect`: the bounds of the corners of a rectangle at the origin. -/
def mapRect (m : AffineMatrix) (w h : Int) : Rect where
  left := min (min (m.mapX 0 0) (m.mapX w 0)) (min (m.mapX 0 h) (m.mapX w h))
  top := min (min (m.mapY 0 0) (m.mapY w 0)) (min (m.mapY 0 h) (m.mapY w h))
  right := max (max (m.mapX 0 0) (m.mapX w 0)) (max (m.mapX 0 h) (m.mapX w h))
  bottom := max (max (m.mapY 0 0) (m.mapY w 0)) (max (m.mapY 0 h) (m.mapY w h))

def det (m : AffineMatrix) : Int := m.a * m.d - m.b * m.c

/-- Where a point comes from, of a matrix with determinant 1 or -1. -/
def unmapX (m : AffineMatrix) (u v : Int) : Int := m.det * (m.d * (u - m.tx) - m.b * (v - m.ty))

def unmapY (m : AffineMatrix) (u v : Int) : Int := m.det * (m.a * (v - m.ty) - m.c * (u - m.tx))

end AffineMatrix

namespace Bitmap

variable {α : Type}

/-- `Canvas.drawBitmap` on a bitmap of a size, of a matrix with determinant 1 or -1. Centres of
pixels are at odd halves, so the plane is scaled by two. -/
def draw (blank : α) (src : Bitmap α) (m : AffineMatrix) (width height : Nat) : Bitmap α where
  width := width
  height := height
  pixel x y :=
    let twice : AffineMatrix := { m with tx := 2 * m.tx, ty := 2 * m.ty }
    let u := twice.unmapX (2 * x + 1) (2 * y + 1) / 2
    let v := twice.unmapY (2 * x + 1) (2 * y + 1) / 2
    if 0 ≤ u ∧ u < src.width ∧ 0 ≤ v ∧ v < src.height then src.pixel u.toNat v.toNat else blank

/-- Turned clockwise. -/
def clock (img : Bitmap α) : Bitmap α where
  width := img.height
  height := img.width
  pixel x y := img.pixel y (img.height - 1 - x)

/-- Turned counter-clockwise. -/
def cclock (img : Bitmap α) : Bitmap α where
  width := img.height
  height := img.width
  pixel x y := img.pixel (img.width - 1 - y) x

/-- Mirrored left to right. -/
def hflip (img : Bitmap α) : Bitmap α :=
  { img with pixel := fun x y => img.pixel (img.width - 1 - x) y }

/-- Mirrored top to bottom. -/
def vflip (img : Bitmap α) : Bitmap α :=
  { img with pixel := fun x y => img.pixel x (img.height - 1 - y) }

/-- Pictures that are the same as a third one. -/
theorem Same.trans {a b c : Bitmap α} (hab : a.Same b) (hbc : b.Same c) : a.Same c where
  width := hab.width.trans hbc.width
  height := hab.height.trans hbc.height
  pixel x hx y hy :=
    (hab.pixel x hx y hy).trans (hbc.pixel x (hab.width ▸ hx) y (hab.height ▸ hy))

/-- The other way round they are the same too. -/
theorem Same.symm {a b : Bitmap α} (h : a.Same b) : b.Same a where
  width := h.width.symm
  height := h.height.symm
  pixel x hx y hy := (h.pixel x (h.width ▸ hx) y (h.height ▸ hy)).symm

/-- Turned clockwise they stay the same. -/
theorem Same.clock {a b : Bitmap α} (h : a.Same b) : a.clock.Same b.clock where
  width := h.height
  height := h.width
  pixel x hx y hy := by
    have hx' : x < a.height := hx
    show a.pixel y (a.height - 1 - x) = b.pixel y (b.height - 1 - x)
    rw [h.pixel y hy _ (by omega), h.height]

/-- So they do turned the other way. -/
theorem Same.cclock {a b : Bitmap α} (h : a.Same b) : a.cclock.Same b.cclock where
  width := h.height
  height := h.width
  pixel x hx y hy := by
    have hy' : y < a.width := hy
    show a.pixel (a.width - 1 - y) x = b.pixel (b.width - 1 - y) x
    rw [h.pixel _ (by omega) x hx, h.width]

/-- So they do mirrored from left to right. -/
theorem Same.hflip {a b : Bitmap α} (h : a.Same b) : a.hflip.Same b.hflip where
  width := h.width
  height := h.height
  pixel x hx y hy := by
    have hx' : x < a.width := hx
    show a.pixel (a.width - 1 - x) y = b.pixel (b.width - 1 - x) y
    rw [h.pixel _ (by omega) y hy, h.width]

/-- So they do mirrored from top to bottom. -/
theorem Same.vflip {a b : Bitmap α} (h : a.Same b) : a.vflip.Same b.vflip where
  width := h.width
  height := h.height
  pixel x hx y hy := by
    have hy' : y < a.height := hy
    show a.pixel x (a.height - 1 - y) = b.pixel x (b.height - 1 - y)
    rw [h.pixel x hx _ (by omega), h.height]

end Bitmap

/-- A way to turn and mirror a bitmap: rows and columns change places first. -/
structure Orientation where
  swap : Bool
  flipX : Bool
  flipY : Bool
deriving DecidableEq

namespace Orientation

variable {α : Type}

/-- The direction a mirrored axis has. -/
def sign (flip : Bool) : Int := if flip then -1 else 1

def matrix (o : Orientation) : AffineMatrix :=
  if o.swap then ⟨0, sign o.flipX, 0, sign o.flipY, 0, 0⟩
  else ⟨sign o.flipX, 0, 0, 0, sign o.flipY, 0⟩

/-- The coordinate a mirrored one comes from. -/
def mirror (flip : Bool) (size x : Nat) : Nat := if flip then size - 1 - x else x

/-- What a turned and mirrored bitmap shows. -/
def image (o : Orientation) (src : Bitmap α) : Bitmap α where
  width := if o.swap then src.height else src.width
  height := if o.swap then src.width else src.height
  pixel x y :=
    if o.swap then src.pixel (mirror o.flipY src.width y) (mirror o.flipX src.height x)
    else src.pixel (mirror o.flipX src.width x) (mirror o.flipY src.height y)

def upright : Orientation := ⟨false, false, false⟩

def clock (o : Orientation) : Orientation := ⟨!o.swap, !o.flipY, o.flipX⟩

def cclock (o : Orientation) : Orientation := ⟨!o.swap, o.flipY, !o.flipX⟩

def hflip (o : Orientation) : Orientation := { o with flipX := !o.flipX }

def vflip (o : Orientation) : Orientation := { o with flipY := !o.flipY }

/-- A mirrored axis runs backwards. -/
@[simp] theorem sign_true : sign true = -1 := rfl

/-- An axis that is not mirrored runs forwards. -/
@[simp] theorem sign_false : sign false = 1 := rfl

/-- Mirroring once more turns the axis round. -/
theorem sign_not (flip : Bool) : sign (!flip) = -sign flip := by cases flip <;> rfl

/-- The mirrored place is within the picture. -/
theorem mirror_lt {size x : Nat} (hx : x < size) (flip : Bool) : mirror flip size x < size := by
  unfold mirror
  split <;> omega

/-- The place counted from the other end is mirrored the other way. -/
theorem mirror_not {size x : Nat} (hx : x < size) (flip : Bool) :
    mirror flip size (size - 1 - x) = mirror (!flip) size x := by
  cases flip with
  | true => simp [mirror]; omega
  | false => simp [mirror]

/-! ## Matrices -/

/-- The matrix of a turn clockwise. -/
theorem postRotate90_matrix (o : Orientation) : o.matrix.postRotate90 = o.clock.matrix := by
  cases o with
  | mk swap flipX flipY =>
    cases swap <;> simp [matrix, clock, AffineMatrix.postRotate90, AffineMatrix.postConcat,
      sign_not]

/-- The matrix of a turn the other way. -/
theorem postRotateMinus90_matrix (o : Orientation) :
    o.matrix.postRotateMinus90 = o.cclock.matrix := by
  cases o with
  | mk swap flipX flipY =>
    cases swap <;> simp [matrix, cclock, AffineMatrix.postRotateMinus90, AffineMatrix.postConcat,
      sign_not]

/-- The matrix of a mirroring from left to right. -/
theorem postScale_hflip (o : Orientation) : o.matrix.postScale (-1) 1 = o.hflip.matrix := by
  cases o with
  | mk swap flipX flipY =>
    cases swap <;> simp [matrix, hflip, AffineMatrix.postScale, AffineMatrix.postConcat,
      sign_not]

/-- The matrix of a mirroring from top to bottom. -/
theorem postScale_vflip (o : Orientation) : o.matrix.postScale 1 (-1) = o.vflip.matrix := by
  cases o with
  | mk swap flipX flipY =>
    cases swap <;> simp [matrix, vflip, AffineMatrix.postScale, AffineMatrix.postConcat,
      sign_not]

/-! ## Bitmaps -/

variable (o : Orientation) (src : Bitmap α)

/-- An upright picture is the picture itself. -/
theorem image_upright : (upright.image src).Same src := ⟨rfl, rfl, fun _ _ _ _ => rfl⟩

/-- Turning a turned and mirrored bitmap. -/
theorem clock_image : (o.image src).clock.Same (o.clock.image src) := by
  cases o with
  | mk swap flipX flipY =>
    cases swap with
    | true =>
      refine ⟨rfl, rfl, fun x hx y hy => ?_⟩
      have hx' : x < src.width := hx
      show src.pixel (mirror flipY src.width (src.width - 1 - x)) (mirror flipX src.height y) = _
      rw [mirror_not hx']
      rfl
    | false =>
      refine ⟨rfl, rfl, fun x hx y hy => ?_⟩
      have hx' : x < src.height := hx
      show src.pixel (mirror flipX src.width y) (mirror flipY src.height (src.height - 1 - x)) = _
      rw [mirror_not hx']
      rfl

/-- A picture that is turned counterclockwise once more. -/
theorem cclock_image : (o.image src).cclock.Same (o.cclock.image src) := by
  cases o with
  | mk swap flipX flipY =>
    cases swap with
    | true =>
      refine ⟨rfl, rfl, fun x hx y hy => ?_⟩
      have hy' : y < src.height := hy
      show src.pixel (mirror flipY src.width x) (mirror flipX src.height (src.height - 1 - y)) = _
      rw [mirror_not hy']
      rfl
    | false =>
      refine ⟨rfl, rfl, fun x hx y hy => ?_⟩
      have hy' : y < src.width := hy
      show src.pixel (mirror flipX src.width (src.width - 1 - y)) (mirror flipY src.height x) = _
      rw [mirror_not hy']
      rfl

/-- A picture that is mirrored from left to right once more. -/
theorem hflip_image : (o.image src).hflip.Same (o.hflip.image src) := by
  cases o with
  | mk swap flipX flipY =>
    cases swap with
    | true =>
      refine ⟨rfl, rfl, fun x hx y hy => ?_⟩
      have hx' : x < src.height := hx
      show src.pixel (mirror flipY src.width y) (mirror flipX src.height (src.height - 1 - x)) = _
      rw [mirror_not hx']
      rfl
    | false =>
      refine ⟨rfl, rfl, fun x hx y hy => ?_⟩
      have hx' : x < src.width := hx
      show src.pixel (mirror flipX src.width (src.width - 1 - x)) (mirror flipY src.height y) = _
      rw [mirror_not hx']
      rfl

/-- A picture that is mirrored from top to bottom once more. -/
theorem vflip_image : (o.image src).vflip.Same (o.vflip.image src) := by
  cases o with
  | mk swap flipX flipY =>
    cases swap with
    | true =>
      refine ⟨rfl, rfl, fun x hx y hy => ?_⟩
      have hy' : y < src.width := hy
      show src.pixel (mirror flipY src.width (src.width - 1 - y)) (mirror flipX src.height x) = _
      rw [mirror_not hy']
      rfl
    | false =>
      refine ⟨rfl, rfl, fun x hx y hy => ?_⟩
      have hy' : y < src.height := hy
      show src.pixel (mirror flipX src.width x) (mirror flipY src.height (src.height - 1 - y)) = _
      rw [mirror_not hy']
      rfl

/-! ## Drawing -/

/-- **The bounds** of a bitmap turned and mirrored. -/
theorem mapRect_matrix {w h : Int} (hw : 0 < w) (hh : 0 < h) :
    (o.matrix.mapRect w h).left = (if o.flipX then -(if o.swap then h else w) else 0) ∧
      (o.matrix.mapRect w h).top = (if o.flipY then -(if o.swap then w else h) else 0) ∧
      (o.matrix.mapRect w h).right - (o.matrix.mapRect w h).left = (if o.swap then h else w) ∧
      (o.matrix.mapRect w h).bottom - (o.matrix.mapRect w h).top = (if o.swap then w else h) := by
  cases o with
  | mk swap flipX flipY =>
    cases swap <;> cases flipX <;> cases flipY <;>
      simp [matrix, AffineMatrix.mapRect, AffineMatrix.mapX, AffineMatrix.mapY] <;> omega

/-- The pixel of a drawn bitmap, when its centre comes from a pixel of the source. -/
theorem draw_pixel {src : Bitmap α} {blank : α} {m : AffineMatrix} {width height x y p q : Nat}
    (hu : AffineMatrix.unmapX { m with tx := 2 * m.tx, ty := 2 * m.ty } (2 * x + 1)
      (2 * y + 1) / 2 = p)
    (hv : AffineMatrix.unmapY { m with tx := 2 * m.tx, ty := 2 * m.ty } (2 * x + 1)
      (2 * y + 1) / 2 = q)
    (hp : p < src.width) (hq : q < src.height) :
    (src.draw blank m width height).pixel x y = src.pixel p q := by
  unfold Bitmap.draw
  dsimp only
  rw [hu, hv, if_pos (by omega), Int.toNat_natCast, Int.toNat_natCast]

/-- Mirroring an axis twice leaves it as it is. -/
theorem sign_mul_sign (flip : Bool) : sign flip * sign flip = 1 := by cases flip <;> rfl

/-- Where the centre of a pixel comes from, along an axis that is moved to the origin. -/
theorem unmap_axis {x size : Nat} (hx : x < size) (flip : Bool) :
    (sign flip * (2 * (x : Int) + 1 - 2 * -(if flip then -(size : Int) else 0))) / 2 =
      mirror flip size x := by
  cases flip with
  | true => simp [mirror]; omega
  | false => simp [mirror]; omega

/-- **Drawing a bitmap** through the matrix of an orientation, moved to the origin. -/
theorem draw_matrix (blank : α) (hw : 0 < src.width) (hh : 0 < src.height) :
    (src.draw blank (o.matrix.postTranslate (-(o.matrix.mapRect src.width src.height).left)
      (-(o.matrix.mapRect src.width src.height).top)) (o.image src).width
        (o.image src).height).Same (o.image src) := by
  obtain ⟨hleft, htop, -, -⟩ := o.mapRect_matrix (Int.natCast_pos.mpr hw) (Int.natCast_pos.mpr hh)
  rw [hleft, htop]
  refine ⟨rfl, rfl, fun x hx y hy => ?_⟩
  have hX := sign_mul_sign o.flipX
  have hY := sign_mul_sign o.flipY
  cases o with
  | mk swap flipX flipY =>
    cases swap with
    | true =>
      have hx' : x < src.height := hx
      have hy' : y < src.width := hy
      refine draw_pixel ?_ ?_ (mirror_lt hy' flipY) (mirror_lt hx' flipX)
      · rw [← unmap_axis hy' flipY]
        congr 1
        simp only [matrix, AffineMatrix.postTranslate, AffineMatrix.postConcat,
          AffineMatrix.unmapX, AffineMatrix.det, if_true] at hX hY ⊢
        linear_combination (2 * (y : Int) + 1 - 2 * -(if flipY then -(src.width : Int) else 0)) *
          sign flipY * hX
      · rw [← unmap_axis hx' flipX]
        congr 1
        simp only [matrix, AffineMatrix.postTranslate, AffineMatrix.postConcat,
          AffineMatrix.unmapY, AffineMatrix.det, if_true] at hX hY ⊢
        linear_combination (2 * (x : Int) + 1 - 2 * -(if flipX then -(src.height : Int) else 0)) *
          sign flipX * hY
    | false =>
      have hx' : x < src.width := hx
      have hy' : y < src.height := hy
      refine draw_pixel ?_ ?_ (mirror_lt hx' flipX) (mirror_lt hy' flipY)
      · rw [← unmap_axis hx' flipX]
        congr 1
        simp only [matrix, AffineMatrix.postTranslate, AffineMatrix.postConcat,
          AffineMatrix.unmapX, AffineMatrix.det, Bool.false_eq_true, if_false] at hX hY ⊢
        linear_combination (2 * (x : Int) + 1 - 2 * -(if flipX then -(src.width : Int) else 0)) *
          sign flipX * hY
      · rw [← unmap_axis hy' flipY]
        congr 1
        simp only [matrix, AffineMatrix.postTranslate, AffineMatrix.postConcat,
          AffineMatrix.unmapY, AffineMatrix.det, Bool.false_eq_true, if_false] at hX hY ⊢
        linear_combination (2 * (y : Int) + 1 - 2 * -(if flipY then -(src.height : Int) else 0)) *
          sign flipY * hX

end Orientation

end Cream.Library
