import Cream.Analysis.FfmpegCommands
import Cream.Analysis.GlobExpansion
import Cream.Model.Timelapse
import Cream.Model.TimelapseEncoder

/-!
# The frames of a rendered timelapse

`render` asks the app for a video of the files `frame%6d.jpg`, as ffmpeg would be asked; the
app reads the command with `parseFfmpegCmd` and looks for the frames with `expandWildcard`, which
knows `*` and `?` only. What it finds are at most files of the name `frame%6d.jpg`
(`expanded_name`), and no frame that `newframe` has written has this name:
`timelapse_never_renders`.
-/

set_option autoImplicit false

namespace Cream.Analysis

open Library Library.FilePath Model Model.WebService

namespace TimelapseFrames

/-- The frames `newframe` has written, and the copies of the last one, in the order of time. The
frames are numbered without gaps: where a download fails, `newframe` takes the number back. -/
def frames (config : TimelapseConfig) (captured : Nat) : List Text :=
  (List.range captured).map (fun i => frameName (i + 1)) ++ Timelapse.duplicates config captured

/-- The main command makes a video: it selects the frames, each once and in their order, and what
the app returns is not empty just when the pictures of these frames were written to the file that
`render` moves. -/
structure Renders {Bitmap : Type} (engine : Glob.Engine) (t : FileTree) (names : RenderNames)
    (frames : List Text) (decodeFile : Text → Option Bitmap) (size : Int × Int)
    (answers : Nat → Answer) (cmd : ParsedCmd) (files : List Text) : Prop where
  expanded : expandWildcard engine t cmd.inputPath = some files
  selects : files.map t.find = frames.map fun name => t.find (names.tempDir ++ name)
  reports : ∀ n s,
    TimelapseEncoder.before ⟨files, decodeFile, cmd.fps.getD 30, size.1, size.2⟩ answers n = some s →
      s.phase ≠ .draining →
        (s.phase = .finished ↔ cmd.outputPath = names.output ∧ s.written.map Prod.fst =
          frames.filterMap fun name => decodeFile (normalize (names.tempDir ++ name)))

variable {engine : Glob.Engine} {t : FileTree} {dir f path : Text} {files : List Text}
  {q : List Text}

/-- `frame%6d.jpg` -/
def inputName : Text := "frame%6d.jpg".toList

/-- It may be the name of a file. -/
theorem isFileName_inputName : IsFileName inputName := by decide +kernel

/-- No wildcard, no parenthesis and no metacharacter is in the name. -/
theorem inputName_plain : (∀ c ∈ inputName, c ∉ Glob.METACHARACTERS) ∧
    ('*' ∉ inputName ∧ '?' ∉ inputName) ∧ '(' ∉ inputName ∧ ')' ∉ inputName := by
  have hall : inputName.all (fun c => c ∉ Glob.METACHARACTERS ∧ c ∉ ['*', '?', '(', ')']) = true := by
    decide +kernel
  have hplain : ∀ c ∈ inputName, c ∉ Glob.METACHARACTERS ∧ c ∉ ['*', '?', '(', ')'] :=
    fun c hc => of_decide_eq_true (List.all_eq_true.mp hall c hc)
  have hnot : ∀ c ∈ ['*', '?', '(', ')'], c ∉ inputName := fun c hc hmem => (hplain c hmem).2 hc
  exact ⟨fun c hc => (hplain c hc).1, ⟨hnot _ (by simp), hnot _ (by simp)⟩, hnot _ (by simp),
    hnot _ (by simp)⟩

/-- **What is expanded** are files of the name `frame%6d.jpg`. -/
theorem expanded_name (hpath : components path = components dir ++ [inputName])
    (hfiles : expandWildcard engine t path = some files) (hf : f ∈ files)
    (hfind : t.find f = some q) : q.getLast? = some inputName := by
  have hname : name (normalize path) = inputName := name_normalize hpath
  unfold expandWildcard at hfiles
  split at hfiles
  · obtain ⟨hplain, ⟨hstar, hquestion⟩, hopening, hclosing⟩ := inputName_plain
    rw [hname, GlobExpansion.namePattern_eq, Glob.compile_toRegex engine hplain,
      Glob.balanced_map hopening hclosing, decide_eq_true rfl, if_pos rfl, Option.map_some] at hfiles
    rw [← Option.some.inj hfiles, List.mem_insertionSort] at hf
    obtain ⟨n, r, -, htest, ⟨parent, -, hr, -⟩, hfound⟩ := GlobExpansion.mem_kept.mp hf
    rw [Glob.ungrouped_eq hopening hclosing, Glob.test_iff,
      Glob.matches_self hstar hquestion] at htest
    rw [hfind] at hfound
    rw [Option.some.inj hfound, hr, htest, List.getLast?_concat]
  · rw [← Option.some.inj hfiles] at hf
    split at hf
    · rw [List.mem_singleton.mp hf, FileTree.find_of_components isFileName_inputName t
        ((components_normalize path).trans hpath)] at hfind
      obtain ⟨parent, -, hlast⟩ := Option.bind_eq_some_iff.mp hfind
      split at hlast
      · rw [← Option.some.inj hlast, List.getLast?_concat]
      · cases hlast
    · cases hf

/-- **No frame is selected** when there is one. -/
theorem not_selects {names : RenderNames} {captured : Nat} {config : TimelapseConfig}
    (hdir : names.tempDir = dir ++ ['/']) (hcaptured : 0 < captured)
    (hframes : ∀ n ∈ frames config captured, t.isFile (names.tempDir ++ n))
    (hfiles : expandWildcard engine t names.inputfiles = some files) :
    files.map t.find ≠ (frames config captured).map fun n => t.find (names.tempDir ++ n) := by
  intro hselects
  -- the first frame has a place
  obtain ⟨k, rfl⟩ : ∃ k, captured = k + 1 := ⟨captured - 1, by omega⟩
  have hmem : frameName 1 ∈ frames config (k + 1) :=
    List.mem_append_left _ (List.mem_map.mpr ⟨0, by simp, rfl⟩)
  have hfile := hframes _ hmem
  obtain ⟨e, he, -⟩ := (Option.any_eq_true _ _).mp hfile
  obtain ⟨q, hq, -⟩ := Option.bind_eq_some_iff.mp he
  have hisname : IsFileName (frameName 1) := by decide +kernel
  have hslash : ∀ n, names.tempDir ++ n = dir ++ '/' :: n := fun n => by
    rw [hdir, List.append_assoc, List.singleton_append]
  have hcomponents : ∀ n, IsFileName n → components (names.tempDir ++ n) = components dir ++ [n] :=
    fun n hn => by rw [hslash, components_append, components_of_notMem hn.1 hn.2.1]
  have hlast : q.getLast? = some (frameName 1) := by
    rw [FileTree.find_of_components hisname t (hcomponents _ hisname)] at hq
    obtain ⟨parent, -, hplace⟩ := Option.bind_eq_some_iff.mp hq
    split at hplace
    · rw [← Option.some.inj hplace, List.getLast?_concat]
    · cases hplace
  -- but it is among the selected files, which have another name
  have hplace : some q ∈ files.map t.find := by
    rw [hselects, ← hq]
    exact List.mem_map_of_mem hmem
  obtain ⟨f, hf, hfind⟩ := List.mem_map.mp hplace
  have hother := expanded_name (hcomponents _ isFileName_inputName) hfiles hf hfind
  rw [hlast] at hother
  have hne : frameName 1 ≠ inputName := by decide +kernel
  exact hne (Option.some.inj hother)

/-- The input path of the main command is what `render` put there. -/
theorem inputPath_eq {cc : CharClasses} {rd : Radians} {config : RenderConfig}
    {names : RenderNames} {fps : Int} {cmd : ParsedCmd} (hquote : '\'' ∉ names.tempDir)
    (hcmd : parseFfmpegCmd cc (renderCmd rd config names fps) = some cmd) :
    cmd.inputPath = names.inputfiles := by
  have hi : 'i' ∉ " -r ".toList ++ str fps := by
    have hdigits : 'i' ∉ Nat.toDigits 10 fps.natAbs := fun hmem =>
      absurd (Text.isDigit_of_mem_toDigits hmem) (by decide)
    unfold str
    split <;> simp [hdigits]
  have hne : names.inputfiles ≠ [] := by simp [RenderNames.inputfiles]
  have hin : '\'' ∉ names.inputfiles := by simp [RenderNames.inputfiles, hquote]
  obtain ⟨-, hinput, -, -⟩ := parseFfmpegCmd_eq_some.mp hcmd
  rw [renderCmd_eq] at hinput
  exact hinput.symm.trans ((firstGroup_input_iff hi hne).mpr hin)

/-- **The main command never makes a video of the frames**, whatever the frames, the settings and
the directories are.

SOURCE: timelapse.py:606-672, WebService.kt:166-215, WebService.kt:294-300 -/
theorem timelapse_never_renders {Bitmap : Type} (cc : CharClasses) (rd : Radians)
    (engine : Glob.Engine) (t : FileTree) (settings : RenderConfig) (names : RenderNames)
    (fps : Int) (config : TimelapseConfig) (captured : Nat) (decodeFile : Text → Option Bitmap)
    (size : Int × Int) (answers : Nat → Answer) (hdir : ∃ dir, names.tempDir = dir ++ ['/'])
    (hquote : '\'' ∉ names.tempDir) (hcaptured : 0 < captured)
    (hframes : ∀ n ∈ frames config captured, t.isFile (names.tempDir ++ n)) :
    ¬∃ cmd files, parseFfmpegCmd cc (renderCmd rd settings names fps) = some cmd ∧
      Renders engine t names (frames config captured) decodeFile size answers cmd files := by
  rintro ⟨cmd, files, hcmd, h⟩
  obtain ⟨dir, hdir⟩ := hdir
  have hexpanded := h.expanded
  rw [inputPath_eq hquote hcmd] at hexpanded
  exact not_selects hdir hcaptured hframes hexpanded h.selects

/-- One frame in `/t`, no duplicates. -/
def oneFrame : FileTree := FileTree.empty.putAll
  [("/t".toList, .directory), ("/t/frame000001.jpg".toList, .file [])]

def oneFrameNames : RenderNames := ⟨"/t/".toList, "/o/".toList, "a".toList, "1".toList⟩

def noDuplicates : TimelapseConfig := ⟨0, false, 10, false⟩

def plainSettings : RenderConfig := ⟨23, "yuv420p".toList, [], 0, false, false⟩

def noRadians : Radians := ⟨fun _ => [], fun _ _ hc => (List.not_mem_nil hc).elim⟩

/-- A codec that has nothing to return yet. -/
def idleCodec (_ : Nat) : Answer := .tryAgainLater

/-- One frame. -/
theorem timelapse_never_renders_oneFrame :
    ¬∃ cmd files, parseFfmpegCmd asciiClasses (renderCmd noRadians plainSettings oneFrameNames 30) =
      some cmd ∧ Renders GlobExpansion.lineEngine oneFrame oneFrameNames (frames noDuplicates 1)
        some (640, 480) idleCodec cmd files :=
  timelapse_never_renders asciiClasses noRadians GlobExpansion.lineEngine oneFrame plainSettings
    oneFrameNames 30 noDuplicates 1 some (640, 480) idleCodec ⟨"/t".toList, by decide +kernel⟩
    (by decide +kernel) Nat.one_pos (by
      have hall : (frames noDuplicates 1).all (fun n => oneFrame.isFile ("/t/".toList ++ n)) = true := by
        decide +kernel
      exact List.all_eq_true.mp hall)

/-- Not even one frame is selected. -/
theorem timelapse_not_rendered :
    ¬∀ (engine : Glob.Engine) (t : FileTree) (settings : RenderConfig) (names : RenderNames)
      (config : TimelapseConfig) (captured : Nat), 0 < captured →
        (∀ n ∈ frames config captured, t.isFile (names.tempDir ++ n)) →
          ∃ cmd files, parseFfmpegCmd asciiClasses (renderCmd noRadians settings names 30) = some cmd ∧
            Renders engine t names (frames config captured) some (640, 480) idleCodec cmd files := by
  intro h
  have hall : (frames noDuplicates 1).all (fun n => oneFrame.isFile ("/t/".toList ++ n)) = true := by
    decide +kernel
  obtain ⟨cmd, files, hcmd, hrenders⟩ := h GlobExpansion.lineEngine oneFrame plainSettings
    oneFrameNames noDuplicates 1 Nat.one_pos (List.all_eq_true.mp hall)
  have hexpanded := hrenders.expanded
  have hquote : '\'' ∉ oneFrameNames.tempDir := by decide +kernel
  rw [inputPath_eq hquote hcmd] at hexpanded
  have hnothing : expandWildcard GlobExpansion.lineEngine oneFrame oneFrameNames.inputfiles =
      some [] := by decide +kernel
  rw [hnothing] at hexpanded
  have hselects := hrenders.selects
  rw [← Option.some.inj hexpanded] at hselects
  exact absurd hselects.symm (List.cons_ne_nil _ _)

end TimelapseFrames

end Cream.Analysis
