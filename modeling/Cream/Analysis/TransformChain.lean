import Cream.Model.FfmpegFilter

/-!
# The matrix of a filter chain is the chain

`WebService.kt`: the filters of a chain are taken together in one matrix, and only the drawn
bitmap is moved to the origin. ffmpeg applies them one after the other to bitmaps. Both come
to the same `Orientation`: `postFilter_matrix` is the step on the matrix, `apply_image` the
step on the bitmap.
-/

set_option autoImplicit false

namespace Cream.Model.FfmpegFilter

open Cream.Library

variable {α : Type}

/-- The filters that turn by quarters and mirror. -/
inductive Filter where
  | transpose0
  | transpose1
  | transpose2
  | transpose3
  | hflip
  | vflip
deriving DecidableEq

namespace Filter

def text : Filter → Text
  | transpose0 => "transpose=0".toList
  | transpose1 => "transpose=1".toList
  | transpose2 => "transpose=2".toList
  | transpose3 => "transpose=3".toList
  | hflip => "hflip".toList
  | vflip => "vflip".toList

/-- What ffmpeg's filter does to a bitmap. -/
def apply : Filter → Bitmap α → Bitmap α
  | transpose0, img => img.cclock.vflip
  | transpose1, img => img.clock
  | transpose2, img => img.cclock
  | transpose3, img => img.clock.vflip
  | hflip, img => img.hflip
  | vflip, img => img.vflip

/-- What a filter does to an orientation. -/
def turn : Filter → Orientation → Orientation
  | transpose0, o => o.cclock.vflip
  | transpose1, o => o.clock
  | transpose2, o => o.cclock
  | transpose3, o => o.clock.vflip
  | hflip, o => o.hflip
  | vflip, o => o.vflip

/-- Filters of bitmaps that show the same. -/
theorem same_apply (f : Filter) {a b : Bitmap α} (h : a.Same b) : (f.apply a).Same (f.apply b) := by
  cases f with
  | transpose0 => exact h.cclock.vflip
  | transpose1 => exact h.clock
  | transpose2 => exact h.cclock
  | transpose3 => exact h.clock.vflip
  | hflip => exact h.hflip
  | vflip => exact h.vflip

/-- **The step on the bitmap.** -/
theorem apply_image (f : Filter) (o : Orientation) (src : Bitmap α) :
    (f.apply (o.image src)).Same ((f.turn o).image src) := by
  cases f with
  | transpose0 => exact (o.cclock_image src).vflip.trans (o.cclock.vflip_image src)
  | transpose1 => exact o.clock_image src
  | transpose2 => exact o.cclock_image src
  | transpose3 => exact (o.clock_image src).vflip.trans (o.clock.vflip_image src)
  | hflip => exact o.hflip_image src
  | vflip => exact o.vflip_image src

/-- The text of a filter is one segment of a chain, and has no blanks around it. -/
theorem text_plain (f : Filter) : ',' ∉ f.text ∧ trim f.text = f.text := by
  cases f <;> decide +kernel

/-- No two filters have one text. -/
theorem text_injective (f g : Filter) (h : f.text = g.text) : f = g := by
  revert h
  cases f <;> cases g <;> decide +kernel

/-- **The step on the matrix.** -/
theorem postFilter_matrix (rotate : Text → AffineMatrix → AffineMatrix) (f : Filter)
    (o : Orientation) : postFilter rotate o.matrix f.text = (f.turn o).matrix := by
  have hother : ∀ g : Filter, f ≠ g → f.text ≠ g.text := fun g hne h => hne (text_injective f g h)
  have htrim := f.text_plain.2
  unfold postFilter
  dsimp only
  rw [htrim]
  cases f with
  | transpose0 =>
    refine (if_pos rfl).trans ?_
    rw [o.postRotateMinus90_matrix, Orientation.postScale_vflip]
    rfl
  | transpose1 =>
    refine (if_neg (hother transpose0 (by decide))).trans ((if_pos rfl).trans ?_)
    exact o.postRotate90_matrix
  | transpose2 =>
    refine (if_neg (hother transpose0 (by decide))).trans ((if_neg (hother transpose1
      (by decide))).trans ((if_pos rfl).trans ?_))
    exact o.postRotateMinus90_matrix
  | transpose3 =>
    refine (if_neg (hother transpose0 (by decide))).trans ((if_neg (hother transpose1
      (by decide))).trans ((if_neg (hother transpose2 (by decide))).trans ((if_pos rfl).trans ?_)))
    rw [o.postRotate90_matrix, Orientation.postScale_vflip]
    rfl
  | hflip =>
    refine (if_neg (hother transpose0 (by decide))).trans ((if_neg (hother transpose1
      (by decide))).trans ((if_neg (hother transpose2 (by decide))).trans ((if_neg (hother
        transpose3 (by decide))).trans ((if_pos rfl).trans ?_))))
    exact o.postScale_hflip
  | vflip =>
    refine (if_neg (hother transpose0 (by decide))).trans ((if_neg (hother transpose1
      (by decide))).trans ((if_neg (hother transpose2 (by decide))).trans ((if_neg (hother
        transpose3 (by decide))).trans ((if_neg (hother hflip (by decide))).trans
          ((if_pos rfl).trans ?_)))))
    exact o.postScale_vflip

end Filter

/-! ## Chains -/

/-- A chain of filters, as ffmpeg's `-vf` takes it. -/
def chain (filters : List Filter) : Text := [','].intercalate (filters.map Filter.text)

/-- ffmpeg: the filters one after the other. -/
def applyAll (filters : List Filter) (img : Bitmap α) : Bitmap α :=
  filters.foldl (fun img f => Filter.apply f img) img

/-- Where a chain turns an orientation. -/
def turnAll (filters : List Filter) (o : Orientation) : Orientation :=
  filters.foldl (fun o f => Filter.turn f o) o

/-- The matrix of a chain. -/
theorem buildTransformMatrix_chain (rotate : Text → AffineMatrix → AffineMatrix)
    (filters : List Filter) :
    buildTransformMatrix rotate (some (chain filters)) =
      (turnAll filters .upright).matrix := by
  have hfold : ∀ o : Orientation, (filters.map Filter.text).foldl (postFilter rotate) o.matrix =
      (turnAll filters o).matrix := by
    induction filters with
    | nil => exact fun o => rfl
    | cons f filters ih =>
      intro o
      rw [List.map_cons, List.foldl_cons, f.postFilter_matrix, ih]
      rfl
  show ((chain filters).splitOn ',').foldl (postFilter rotate) Orientation.upright.matrix = _
  cases filters with
  | nil => rfl
  | cons f filters =>
    have hsplit : (chain (f :: filters)).splitOn ',' = (f :: filters).map Filter.text := by
      refine List.splitOn_intercalate _ ?_ (List.cons_ne_nil _ _)
      intro text htext
      obtain ⟨g, -, rfl⟩ := List.mem_map.mp htext
      exact g.text_plain.1
    rw [hsplit, hfold]

/-- The bitmap of a chain. -/
theorem applyAll_image (filters : List Filter) (src img : Bitmap α) (o : Orientation)
    (h : img.Same (o.image src)) :
    (applyAll filters img).Same ((turnAll filters o).image src) := by
  induction filters generalizing img o with
  | nil => exact h
  | cons f filters ih => exact ih _ _ ((f.same_apply h).trans (f.apply_image o src))

/-- **The matrix of a filter chain is the chain**: for every chain of quarter turns and mirrors
and every bitmap, drawing it through the matrix of the chain makes the bitmap that ffmpeg makes
by applying the filters one after the other.

SOURCE: WebService.kt:217-268 -/
theorem chain_drawn (rotate : Text → AffineMatrix → AffineMatrix) (blank : α)
    (filters : List Filter) (src : Bitmap α) (hwidth : 0 < src.width) (hheight : 0 < src.height) :
    ∃ out, applyMatrixToBitmap blank src (buildTransformMatrix rotate (some (chain filters))) =
        some out ∧
      out.Same (applyAll filters src) := by
  have hffmpeg := applyAll_image filters src src .upright (Orientation.image_upright src).symm
  rw [buildTransformMatrix_chain]
  generalize turnAll filters .upright = o at hffmpeg
  obtain ⟨-, -, hw, hh⟩ := o.mapRect_matrix (Int.natCast_pos.mpr hwidth)
    (Int.natCast_pos.mpr hheight)
  refine ⟨_, ?_, (o.draw_matrix src blank hwidth hheight).trans hffmpeg.symm⟩
  have hwide : (o.matrix.mapRect src.width src.height).right -
      (o.matrix.mapRect src.width src.height).left = (o.image src).width := by
    rw [hw]
    cases o with
    | mk swap flipX flipY => cases swap <;> rfl
  have htall : (o.matrix.mapRect src.width src.height).bottom -
      (o.matrix.mapRect src.width src.height).top = (o.image src).height := by
    rw [hh]
    cases o with
    | mk swap flipX flipY => cases swap <;> rfl
  have hpos : 0 < (o.image src).width ∧ 0 < (o.image src).height := by
    cases o with
    | mk swap flipX flipY =>
      cases swap with
      | true => exact ⟨hheight, hwidth⟩
      | false => exact ⟨hwidth, hheight⟩
  unfold applyMatrixToBitmap
  dsimp only
  rw [hwide, htall, if_pos ⟨Int.natCast_pos.mpr hpos.1, Int.natCast_pos.mpr hpos.2⟩,
    Int.toNat_natCast, Int.toNat_natCast]

/-- A chain on a bitmap of two by three pixels. -/
theorem chain_drawn_two_three :
    ∃ out, applyMatrixToBitmap 9 ⟨2, 3, fun x y => 2 * y + x⟩
        (buildTransformMatrix (fun _ m => m) (some (chain [.transpose0, .hflip, .transpose3]))) =
          some out ∧
      out.Same (applyAll [.transpose0, .hflip, .transpose3] ⟨2, 3, fun x y => 2 * y + x⟩) :=
  chain_drawn _ 9 _ ⟨2, 3, fun x y => 2 * y + x⟩ (by decide) (by decide)

end Cream.Model.FfmpegFilter
