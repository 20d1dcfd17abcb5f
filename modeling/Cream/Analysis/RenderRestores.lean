import Cream.Library.TextEditing
import Cream.Model.Timelapse

/-!
# What a render leaves behind

The flag is taken back and the duplicates are removed at the end of the straight line, so every
exception that gets out before leaves both (`render_spec`). On the way that comes to the end a
duplicate is copied over whatever has its name, and removed: a frame that is numbered after the
count of the frames is lost. `render_restores_iff` says when a render leaves the flag and the
frames as it found them.
-/

set_option autoImplicit false

namespace Cream.Model

open Cream.Library Cream.Library.Text

namespace Timelapse

variable {C : Type} {files : Files C} {lastframe : Text} {config : TimelapseConfig}
  {env : RenderEnv C} {s : Timelapse C}

/-! ## Names -/

/-- Frames with different numbers have different names. -/
theorem frameName_injective : Function.Injective frameName := by
  intro m n h
  unfold frameName zfill at h
  have hdigits := List.append_cancel_left (List.append_cancel_right h)
  have hvalue := congrArg (fun s => Nat.ofDigitChars 10 s 0) hdigits
  have hzeros : ∀ k : Nat, Nat.ofDigitChars 10 (List.replicate k '0') 0 = 0 := by
    intro k
    induction k with
    | zero => rfl
    | succ k ih =>
      rw [List.replicate_succ, Nat.ofDigitChars_cons]
      exact ih
  simpa [Nat.ofDigitChars_append, hzeros, Nat.ofDigitChars_ten_toDigits] using hvalue

/-- The copies have distinct names. -/
theorem nodup_duplicates (config : TimelapseConfig) (framecount : Nat) :
    (duplicates config framecount).Nodup := by
  refine List.nodup_range.map fun i j h => ?_
  have hsame := frameName_injective h
  omega

/-! ## The two loops -/

/-- A copy writes its own name only. -/
theorem lookup_copy (files : Files C) (src dst : Text) (fault : Option (Option C)) (name : Text) :
    (copy files src dst fault).lookup name =
      if name = dst then (written files src dst fault).or (files.lookup name)
      else files.lookup name := by
  unfold copy
  cases hw : written files src dst fault with
  | none => simp
  | some content =>
    by_cases hname : name = dst
    · subst hname
      simp [AList.lookup_insert]
    · rw [if_neg hname]
      exact AList.lookup_insert_ne hname

/-- The last frame itself is never written. -/
theorem written_self (files : Files C) (src : Text) (fault : Option (Option C)) :
    written files src src fault = none := if_pos rfl

/-- What is copied stays as it is. -/
theorem lookup_copy_source (files : Files C) (src dst : Text) (fault : Option (Option C)) :
    (copy files src dst fault).lookup src = files.lookup src := by
  rw [lookup_copy]
  split
  · next h => rw [← h, written_self]; rfl
  · rfl

/-- What is written depends on the last frame only. -/
theorem written_congr {files' : Files C} {src : Text} (h : files'.lookup src = files.lookup src)
    (dst : Text) (fault : Option (Option C)) :
    written files' src dst fault = written files src dst fault := by
  unfold written
  rw [h]

/-- **The loop of copies** leaves in each duplicate what its turn wrote. -/
theorem lookup_duplicate (copyFault : Nat → Option (Option C)) {ds : List Text} (hds : ds.Nodup)
    (k : Nat) (files : Files C) (name : Text) :
    (duplicate lastframe copyFault k ds files).lookup name =
      match ds.idxOf? name with
      | some i => (written files lastframe name (copyFault (k + i))).or (files.lookup name)
      | none => files.lookup name := by
  induction ds generalizing k files with
  | nil => rfl
  | cons d ds ih =>
    obtain ⟨hd, hds⟩ := List.nodup_cons.mp hds
    rw [duplicate, ih hds, lookup_copy, List.idxOf?_cons]
    by_cases hname : name = d
    · subst hname
      have hnone : ds.idxOf? name = none := List.idxOf?_eq_none_iff.mpr hd
      simp [hnone]
    · have hne : (d == name) = false := beq_eq_false_iff_ne.mpr fun h => hname h.symm
      rw [if_neg hname, if_neg (by rw [hne]; exact Bool.false_ne_true)]
      cases ds.idxOf? name with
      | none => rfl
      | some i =>
        simp only [Option.map_some]
        rw [written_congr (lookup_copy_source files lastframe d (copyFault k)),
          Nat.add_right_comm, Nat.add_assoc]

/-- **The loop of removals.** -/
theorem lookup_cleanup (removeFault : Nat → Bool) {ds : List Text} (hds : ds.Nodup) (k : Nat)
    (files : Files C) (name : Text) :
    (cleanup removeFault k ds files).lookup name =
      match ds.idxOf? name with
      | some i => if removeFault (k + i) then files.lookup name else none
      | none => files.lookup name := by
  induction ds generalizing k files with
  | nil => rfl
  | cons d ds ih =>
    obtain ⟨hd, hds⟩ := List.nodup_cons.mp hds
    rw [cleanup, ih hds, List.idxOf?_cons]
    by_cases hname : name = d
    · subst hname
      have hnone : ds.idxOf? name = none := List.idxOf?_eq_none_iff.mpr hd
      rw [hnone]
      simp only [beq_self_eq_true, if_true, Nat.add_zero]
      split
      · rfl
      · exact AList.lookup_erase _ _
    · have hne : (d == name) = false := beq_eq_false_iff_ne.mpr fun h => hname h.symm
      have hkept : (if removeFault k then files else files.erase d).lookup name =
          files.lookup name := by
        split
        · rfl
        · exact AList.lookup_erase_ne hname
      simp only [hne, Bool.false_eq_true, if_false]
      cases ds.idxOf? name with
      | none => exact hkept
      | some i =>
        simp only [Option.map_some]
        rw [hkept, Nat.add_right_comm, Nat.add_assoc]

/-! ## What is to hold -/

/-- The frames when `render` goes on. -/
def resumed (env : RenderEnv C) (s : Timelapse C) : Files C :=
  match env.queryObjects with
  | none => s.files
  | some (files, _) => files

/-- `render` has taken the flag back, and left the frames as it found them: those that were
there are unchanged, and there are no others. -/
def Restores (config : TimelapseConfig) (env : RenderEnv C) (s : Timelapse C) : Prop :=
  (render config env s).2.renderisrunning = false ∧
    ∀ name, (render config env s).2.files.lookup name = (resumed env s).lookup name

/-- Copying over a duplicate and removing it leaves its name as it was: it was free and is
removed if it was written, or it was a frame that could not be removed and was not changed. -/
def Harmless (files : Files C) (lastframe name : Text) (copyFault : Option (Option C))
    (removeFault : Bool) : Prop :=
  match files.lookup name with
  | none => (written files lastframe name copyFault).isSome → removeFault = false
  | some content => removeFault = true ∧
      ∀ new ∈ written files lastframe name copyFault, new = content

/-- Both loops leave the frames as they were when every duplicate is harmless. -/
theorem loops_restore_iff (copyFault : Nat → Option (Option C)) (removeFault : Nat → Bool)
    {ds : List Text} (hds : ds.Nodup) (files : Files C) :
    (∀ name, (cleanup removeFault 0 ds (duplicate lastframe copyFault 0 ds files)).lookup name =
      files.lookup name) ↔
    ∀ i name, ds[i]? = some name → Harmless files lastframe name (copyFault i) (removeFault i) := by
  have hone : ∀ i name, ds.idxOf? name = some i →
      ((cleanup removeFault 0 ds (duplicate lastframe copyFault 0 ds files)).lookup name =
        files.lookup name ↔ Harmless files lastframe name (copyFault i) (removeFault i)) := by
    intro i name hi
    rw [lookup_cleanup _ hds, lookup_duplicate _ hds, hi]
    simp only [Nat.zero_add, Harmless]
    cases files.lookup name <;> cases removeFault i <;>
      cases written files lastframe name (copyFault i) <;> simp
  constructor
  · intro h i name hi
    have hidx : ds.idxOf? name = some i := by
      obtain ⟨hlt, rfl⟩ := List.getElem?_eq_some_iff.mp hi
      rw [List.idxOf?_eq_some_iff]
      exact ⟨hlt, rfl, fun j hj heq => Nat.ne_of_lt hj (hds.getElem_inj_iff.mp heq)⟩
    exact (hone i name hidx).mp (h name)
  · intro h name
    cases hidx : ds.idxOf? name with
    | some i =>
      refine (hone i name hidx).mpr (h i name ?_)
      obtain ⟨hlt, heq, -⟩ := List.idxOf?_eq_some_iff.mp hidx
      rw [List.getElem?_eq_getElem hlt, heq]
    | none => rw [lookup_cleanup _ hds, lookup_duplicate _ hds, hidx]

/-! ## The straight line -/

/-- The list holds the frames that are there. -/
theorem mem_filelist {name : Text} :
    name ∈ filelist files ↔ (files.lookup name).isSome ∧ isFrame name := by
  unfold filelist
  rw [List.mem_insertionSort, List.mem_filter, AList.lookup_isSome, AList.mem_keys]

/-- The copies do not make the list of the frames empty, nor fill it. -/
theorem filelist_duplicate (hlast : isFrame lastframe) (copyFault : Nat → Option (Option C))
    {ds : List Text} (hds : ds.Nodup) (files : Files C) :
    filelist (duplicate lastframe copyFault 0 ds files) = [] ↔ filelist files = [] := by
  simp only [List.eq_nil_iff_forall_not_mem, mem_filelist, not_and]
  constructor
  · intro h name hsome
    refine h name ?_
    rw [lookup_duplicate _ hds]
    split
    · rw [Option.isSome_or, hsome, Bool.or_true]
    · exact hsome
  · intro h name hsome
    rw [lookup_duplicate _ hds] at hsome
    have hsource : files.lookup lastframe = none := by
      by_contra hne
      exact h lastframe (Option.isSome_iff_ne_none.mpr hne) hlast
    split at hsome
    · -- nothing is copied from a file that is not there
      have hnone : ∀ fault, written files lastframe name fault = none := by
        intro fault
        unfold written
        rw [hsource, Option.bind_none, ite_self]
      rw [hnone, Option.none_or] at hsome
      exact h name hsome
    · exact h name hsome

/-- No exception gets out once the query is answered. -/
def GetsThrough (config : TimelapseConfig) (env : RenderEnv C) (files : Files C) : Prop :=
  ¬(config.variableFps ∧ config.targetlength = 0) ∧ env.encode ≠ .raises ∧
    ¬(env.encode = .response false ∧ config.previewimage ∧ 0 < config.duplicatelastframe ∧
      filelist files = [])

/-- What a render that goes on comes to.
SOURCE: timelapse.py:582-782 -/
theorem render_spec (hlast : (filelist s.files).getLast? = some lastframe)
    (hflag : s.renderisrunning = false) :
    (env.queryObjects = none ∧ (render config env s).2.renderisrunning = true) ∨
      ∃ files framecount, env.queryObjects = some (files, framecount) ∧
        ((¬GetsThrough config env files ∧ (render config env s).2.renderisrunning = true) ∨
          (GetsThrough config env files ∧ (render config env s).2.renderisrunning = false ∧
            (render config env s).2.files = cleanup env.removeFault 0 (duplicates config framecount)
              (duplicate lastframe env.copyFault 0 (duplicates config framecount) files))) := by
  have hne : filelist s.files ≠ [] := by
    intro hnil
    rw [hnil] at hlast
    cases hlast
  have hframe : isFrame lastframe := (mem_filelist.mp (List.mem_of_getLast? hlast)).2
  unfold render
  simp only [hlast, hflag, Bool.false_eq_true, if_false]
  cases hquery : env.queryObjects with
  | none => exact .inl ⟨rfl, rfl⟩
  | some answer =>
    obtain ⟨files, framecount⟩ := answer
    refine .inr ⟨files, framecount, rfl, ?_⟩
    simp only
    have hempty : (if config.duplicatelastframe > 0 then filelist (duplicate lastframe env.copyFault 0
        (duplicates config framecount) files) else filelist s.files) = [] ↔
        0 < config.duplicatelastframe ∧ filelist files = [] := by
      split
      · next hpos =>
        rw [filelist_duplicate hframe _ (nodup_duplicates config framecount)]
        simp [hpos]
      · next hnot => simp [hne, hnot]
    unfold GetsThrough
    by_cases hfps : config.variableFps ∧ config.targetlength = 0
    · left
      rw [if_pos hfps]
      exact ⟨fun h => h.1 hfps, rfl⟩
    · rw [if_neg hfps]
      cases hencode : env.encode with
      | raises =>
        left
        exact ⟨fun h => h.2.1 rfl, rfl⟩
      | response empty =>
        cases empty with
        | true =>
          right
          exact ⟨⟨hfps, nofun, fun h => nomatch h.1⟩, rfl, rfl⟩
        | false =>
          simp only [hempty]
          by_cases hpreview : config.previewimage ∧ 0 < config.duplicatelastframe ∧ filelist files = []
          · left
            rw [if_pos hpreview]
            exact ⟨fun h => h.2.2 ⟨trivial, hpreview⟩, rfl⟩
          · right
            rw [if_neg hpreview]
            exact ⟨⟨hfps, nofun, fun h => hpreview h.2⟩, rfl, rfl⟩

/-- **What a render restores.** A render that goes on leaves the flag and the frames as it found
them just when the query is answered, no exception gets out after it, and every duplicate is
harmless: its name is free, and it is removed if it was written.
SOURCE: timelapse.py:582-782 -/
theorem render_restores_iff (hlast : (filelist s.files).getLast? = some lastframe)
    (hflag : s.renderisrunning = false) : Restores config env s ↔
      ∃ files framecount, env.queryObjects = some (files, framecount) ∧
        GetsThrough config env files ∧ ∀ i < config.duplicatelastframe.toNat,
          Harmless files lastframe (frameName (framecount + i + 1)) (env.copyFault i)
            (env.removeFault i) := by
  have hduplicates : ∀ framecount (P : Nat → Text → Prop),
      (∀ i name, (duplicates config framecount)[i]? = some name → P i name) ↔
        ∀ i < config.duplicatelastframe.toNat, P i (frameName (framecount + i + 1)) := by
    intro framecount P
    unfold duplicates
    constructor
    · intro h i hi
      exact h i _ (by simp [hi])
    · intro h i name hi
      simp only [List.getElem?_map, Option.map_eq_some_iff] at hi
      obtain ⟨j, hj, rfl⟩ := hi
      obtain ⟨hlt, rfl⟩ := List.getElem?_eq_some_iff.mp hj
      rw [List.getElem_range]
      exact h i (by simpa using hlt)
  unfold Restores resumed
  rcases @render_spec C lastframe config env s hlast hflag with ⟨hquery, hrunning⟩ |
    ⟨files, framecount, hquery, ⟨hnot, hrunning⟩ | ⟨hthrough, hdone, hfiles⟩⟩
  · rw [hrunning, hquery]
    simp
  · rw [hrunning, hquery]
    constructor
    · rintro ⟨h, -⟩
      cases h
    · rintro ⟨files', framecount', heq, hthrough, -⟩
      cases heq
      exact absurd hthrough hnot
  · rw [hdone, hfiles, hquery]
    simp only [true_and]
    rw [loops_restore_iff _ _ (nodup_duplicates config framecount), hduplicates]
    constructor
    · exact fun h => ⟨files, framecount, rfl, hthrough, h⟩
    · rintro ⟨files', framecount', heq, -, h⟩
      cases heq
      exact h

/-- The default configuration. -/
def defaultConfig : TimelapseConfig := ⟨5, false, 10, true⟩

/-- Some frames of a print. -/
def frames (numbers : List Nat) : Files Nat :=
  numbers.foldr (fun n files => files.insert (frameName n) n) ∅

/-- With frames numbered from 1 on, nothing failing and a video made, all is restored. -/
theorem render_restores_numbered : Restores defaultConfig
    ⟨some (frames [1, 2, 3], 3), fun _ => none, .response false, fun _ => false⟩
    ⟨false, 3, frames [1, 2, 3]⟩ := by
  have hlast : (filelist (frames [1, 2, 3])).getLast? = some (frameName 3) := by decide +kernel
  refine (render_restores_iff hlast rfl).mpr
    ⟨frames [1, 2, 3], 3, rfl, ⟨by decide, by decide, by decide +kernel⟩, ?_⟩
  have hfree : ∀ i < 5, (frames [1, 2, 3]).lookup (frameName (3 + i + 1)) = none := by
    decide +kernel
  intro i hi
  unfold Harmless
  rw [hfree i hi]
  exact fun _ => rfl

/-- The first request raises, and the flag is never taken back; and when the frames have a gap
in their numbers, a frame is lost.
SOURCE: timelapse.py:616-624, 692-702 -/
theorem render_not_restored :
    (¬∀ (config : TimelapseConfig) (env : RenderEnv Nat) (s : Timelapse Nat),
      env.queryObjects = some (s.files, s.framecount) → (filelist s.files).length = s.framecount →
        filelist s.files ≠ [] → s.renderisrunning = false →
          (render config env s).2.renderisrunning = false) ∧
    ¬∀ (config : TimelapseConfig) (env : RenderEnv Nat) (s : Timelapse Nat),
      env.queryObjects = some (s.files, s.framecount) → (filelist s.files).length = s.framecount →
        filelist s.files ≠ [] → s.renderisrunning = false →
          ∀ name, (s.files.lookup name).isSome →
            ((render config env s).2.files.lookup name).isSome := by
  constructor
  · intro h
    have hflag := h defaultConfig ⟨some (frames [1, 2, 3], 3), fun _ => none, .raises, fun _ => false⟩
      ⟨false, 3, frames [1, 2, 3]⟩ rfl (by decide +kernel) (by decide +kernel) rfl
    exact absurd hflag (by decide +kernel)
  · intro h
    have hkept := h defaultConfig
      ⟨some (frames [1, 2, 8], 3), fun _ => none, .response false, fun _ => false⟩
      ⟨false, 3, frames [1, 2, 8]⟩ rfl (by decide +kernel) (by decide +kernel) rfl (frameName 8)
      (by decide +kernel)
    exact absurd hkept (by decide +kernel)

end Timelapse

end Cream.Model
