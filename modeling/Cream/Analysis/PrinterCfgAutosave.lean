import Cream.Analysis.PrinterCfg
import Cream.Model.ConfigFile

/-!
# The edit of printer.cfg and the stored values

Klipper keeps the values of `SAVE_CONFIG` in a block at the end of `printer.cfg`, and the edit
of `BaseKlippyService.kt` appends its section behind it. Klipper takes the section for a
modification of the block and discards the block (`findAutosaveData_written`): the edit keeps
what Klipper extracts just when there is no block, or one that was discarded before.
`autosave_kept_iff` says so for every file.
-/

set_option autoImplicit false

namespace Cream.Model.BaseKlippyService

open Cream.Library Text Ini ConfigFile

/-- What Klipper extracts of a file: the regular data and the stored values. -/
def extracted (content : Text) : Text × Text := findAutosaveData (readConfigFile content)

/-- The stored values of a file without a block. -/
def NO_VALUES : Text := unlines [[], [], []]

/-- The name of the section. -/
def sdcard : Text := "virtual_sdcard".toList

/-- The edit keeps the stored values, and its section is in the regular data of a file that had
none. -/
def KeepsAutosave (dialect : Dialect) (s d : Text) : Prop :=
  (extracted (edit s d)).2 = (extracted s).2 ∧
    (¬HasSection dialect (readConfigFile s) sdcard → newSection d <:+: (extracted (edit s d)).1)

/-- When it does: when nothing is written, the file has the section; else Klipper finds neither a
block nor a stored value, or it has discarded the stored values before, and what is left of the
file still shows it why. -/
def NoBlock (dialect : Dialect) (s d : Text) : Prop :=
  match cutStale s d with
  | none => HasSection dialect (readConfigFile s) sdcard
  | some t =>
    if VIRTUAL_SDCARD <:+: t then HasSection dialect (readConfigFile s) sdcard
    else if AUTOSAVE_PREFIX <:+: readConfigFile t then (extracted s).2 = []
    else (extracted s).2 = NO_VALUES

variable {s t d : Text}

/-! ## The section that is written -/

/-- Without a carriage return there is nothing to replace. -/
theorem universalNewlines_of_notMem (h : '\r' ∉ s) : universalNewlines s = s := by
  induction s with
  | nil => rfl
  | cons c s ih =>
    rw [List.mem_cons, not_or] at h
    rw [universalNewlines_cons (Ne.symm h.1), ih h.2]

/-- The section without the line feeds around it. -/
def sectionText (d : Text) : Text :=
  VIRTUAL_SDCARD ++ '\n' :: ("path: ".toList ++ FilePath.child d "gcodes".toList)

/-- The new section stands in lines of its own. -/
theorem newSection_eq_text (d : Text) : newSection d = '\n' :: (sectionText d ++ ['\n']) := by
  rw [newSection_eq, sectionText, List.append_assoc, List.cons_append, List.append_assoc]

/-- What the texts in the file are, character by character. -/
theorem texts :
    '\r' ∉ "\n[virtual_sdcard]\npath: ".toList ∧ "gcodes".toList = "gcode".toList ++ ['s'] ∧
    '\n' ∉ "path: ".toList ∧ "path: ".toList.head? = some 'p' ∧
    AUTOSAVE_PREFIX = '\n' :: '#' :: "*# ".toList ∧ '\n' ∉ AUTOSAVE_PREFIX.tail ∧
    AUTOSAVE_PREFIX <+: AUTOSAVE_HEADER ∧ '[' ∉ AUTOSAVE_HEADER.tail := by
  decide +kernel

/-- There is no carriage return in it. -/
theorem notMem_section (hd : OneLine d) : '\r' ∉ newSection d := by
  obtain ⟨rest, hgcodes, -, hrest⟩ := gcodes_eq d
  have hchild : '\r' ∉ FilePath.child d "gcodes".toList := by
    rw [hgcodes, List.mem_append]
    rintro (h | h)
    · exact (hd _ h).2 rfl
    · exact (hrest _ h).2 rfl
  have hheader := texts.1
  unfold newSection
  rw [List.mem_append, List.mem_append, List.mem_singleton]
  rintro (h | h | h)
  · exact hheader h
  · exact hchild h
  · cases h

/-- The path ends with the name of the directory. -/
theorem gcodes_suffix (d : Text) : "gcodes".toList <:+ FilePath.child d "gcodes".toList := by
  have hnormal : FilePath.normalize "gcodes".toList = "gcodes".toList := by decide
  unfold FilePath.child FilePath.resolve
  rw [hnormal, if_neg (by decide : ¬("gcodes".toList = [] ∨ "gcodes".toList = ['/'])),
    if_neg (by decide : ¬("gcodes".toList.head? = some '/'))]
  split
  · exact List.suffix_rfl
  · split
    · exact List.suffix_append _ _
    · exact ⟨d ++ ['/'], by simp⟩

/-- The section begins and ends with no blank. -/
theorem solid_sectionText (d : Text) : Solid (sectionText d) := by
  have hhead : (sectionText d).head? = some '[' := by
    rw [sectionText, List.head?_append, header_head]
    rfl
  have hlast : (sectionText d).getLast? = some 's' := by
    obtain ⟨x, hx⟩ := gcodes_suffix d
    have hg := texts.2.1
    rw [sectionText, ← hx, hg, ← List.append_assoc, ← List.append_assoc, ← List.cons_append,
      ← List.append_assoc, List.getLast?_concat]
  have hne : sectionText d ≠ [] := fun hnil => by
    rw [hnil] at hhead
    cases hhead
  refine ⟨hne, ?_, ?_⟩
  · rw [← Option.some.inj (hhead.symm.trans (List.head?_eq_some_head hne))]
    decide
  · rw [List.getLast_eq_iff_getLast?_eq_some hne |>.mpr hlast]
    decide

/-- The start of a line of stored values, character by character. -/
theorem autosavePrefix_eq : AUTOSAVE_PREFIX = '\n' :: '#' :: "*# ".toList :=
  texts.2.2.2.2.1

/-- Its only line break is the first character. -/
theorem autosavePrefix_tail : '\n' ∉ AUTOSAVE_PREFIX.tail := texts.2.2.2.2.2.1

/-- The header of the block starts with it. -/
theorem prefix_header : AUTOSAVE_PREFIX <+: AUTOSAVE_HEADER := texts.2.2.2.2.2.2.1

/-- A line that does not start like the block. -/
theorem prefix_notInfix_line {w : Text} (hw : '\n' ∉ w) (hhead : w.head? ≠ some '#') :
    ¬AUTOSAVE_PREFIX <:+: '\n' :: w := by
  rintro ⟨x, y, h⟩
  rw [autosavePrefix_eq] at h
  cases x with
  | nil =>
    have htail := (List.cons.inj h).2
    rw [← htail] at hhead
    exact hhead rfl
  | cons c x =>
    refine hw ?_
    rw [← (List.cons.inj h).2]
    simp

/-- No line of the section is one of the block. -/
theorem prefix_notInfix_section (hd : OneLine d) : ¬AUTOSAVE_PREFIX <:+: newSection d := by
  obtain ⟨rest, hgcodes, -, hrest⟩ := gcodes_eq d
  have hpath : '\n' ∉ "path: ".toList ++ FilePath.child d "gcodes".toList := by
    rw [hgcodes, List.mem_append, List.mem_append]
    rintro (h | h | h)
    · exact texts.2.2.1 h
    · exact (hd _ h).1 rfl
    · exact (hrest _ h).1 rfl
  have hheader : VIRTUAL_SDCARD.head? ≠ some '#' := by
    rw [header_head]
    decide
  have hlabel : ("path: ".toList ++ FilePath.child d "gcodes".toList).head? ≠ some '#' := by
    have hp := texts.2.2.2.1
    rw [List.head?_append, hp, Option.some_or]
    decide
  rw [newSection_eq, ← List.cons_append, isInfix_append_cons autosavePrefix_tail, not_or]
  refine ⟨prefix_notInfix_line header_oneLine hheader, ?_⟩
  rw [← List.append_assoc, ← List.cons_append, isInfix_append_cons autosavePrefix_tail, not_or]
  exact ⟨prefix_notInfix_line hpath hlabel, prefix_notInfix_line List.not_mem_nil (by simp)⟩

/-! ## What Klipper extracts of it -/

/-- The file as Klipper reads it: the section is behind the rest on lines of its own. -/
theorem readConfigFile_written (hd : OneLine d) (t : Text) :
    ∃ a, readConfigFile (t ++ newSection d) = a ++ newSection d ∧
      (AUTOSAVE_PREFIX <:+: a ↔ AUTOSAVE_PREFIX <:+: readConfigFile t) := by
  obtain ⟨w, hw⟩ : ∃ w, newSection d = '\n' :: w := ⟨_, newSection_eq_text d⟩
  have hreturn := notMem_section hd
  rw [hw] at hreturn
  obtain ⟨a, ha, hrest⟩ := universalNewlines_append t w
  refine ⟨a, ?_, ?_⟩
  · unfold readConfigFile
    rw [hw, ha, universalNewlines_of_notMem fun h => hreturn (List.mem_cons_of_mem _ h)]
  · unfold readConfigFile
    rcases hrest with hrest | hrest
    · rw [hrest]
    · rw [hrest, isInfix_append_cons autosavePrefix_tail]
      exact (or_iff_left (prefix_notInfix_line List.not_mem_nil (by simp))).symm

/-- The section behind a block is no line of the block. -/
theorem modified_of_header {a before after : Text} (hd : OneLine d)
    (h : a ++ newSection d = before ++ AUTOSAVE_HEADER ++ after) :
    strip after ≠ [] ∧ ∃ line ∈ lines (strip after), Modified line := by
  have hnot := prefix_notInfix_section hd
  have hheader := prefix_header
  have hbracket := texts.2.2.2.2.2.2.2
  obtain ⟨w, hw⟩ : ∃ w, sectionText d ++ ['\n'] = '[' :: w := by
    obtain ⟨v, hv⟩ := List.head?_eq_some_iff.mp header_head
    exact ⟨_, by rw [sectionText, hv]; rfl⟩
  have hsplit : (a ++ ['\n']) ++ '[' :: w = before ++ AUTOSAVE_HEADER ++ after := by
    rw [← hw, ← h, newSection_eq_text, List.append_assoc, List.singleton_append]
  rcases infix_append_cons hbracket hsplit with ⟨y, hy, hafter⟩ | ⟨x, -, hx⟩
  · -- the section is a line of what is behind the header
    have hsolid := solid_sectionText d
    have hstrip : strip after = y.dropWhile isspace ++ sectionText d := by
      rw [hafter, ← hw, ← List.append_assoc, strip_append hsolid]
      simp [List.rdropWhile, isspace]
    have hlines : ∃ ls, lines (strip after) = ls ++ lines (sectionText d) := by
      rw [hstrip]
      rcases List.eq_nil_or_concat (y.dropWhile isspace) with hnil | ⟨z, c, hz⟩
      · exact ⟨[], by rw [hnil, List.nil_append, List.nil_append]⟩
      · have hlast : (y.dropWhile isspace).getLast? = some c := by
          rw [hz, List.concat_eq_append, List.getLast?_concat]
        have hsuffix : y.dropWhile isspace <:+ a ++ ['\n'] :=
          (List.dropWhile_suffix _).trans ⟨_, hy.symm⟩
        obtain ⟨v, hv⟩ := hsuffix
        have hne : y.dropWhile isspace ≠ [] := by
          rw [hz]
          simp
        have hc : c = '\n' := by
          rw [← List.getLast?_append_of_ne_nil v hne, hv, List.getLast?_concat] at hlast
          exact (Option.some.inj hlast).symm
        refine ⟨lines z, ?_⟩
        rw [hz, hc, List.concat_eq_append, List.append_assoc, List.singleton_append, lines_append]
    obtain ⟨ls, hls⟩ := hlines
    refine ⟨by rw [hstrip]; simp [hsolid.ne_nil], VIRTUAL_SDCARD, ?_, .inl (by decide +kernel)⟩
    rw [hls, sectionText, lines_append, lines_eq_singleton header_oneLine]
    simp
  · -- a header does not start in the section
    refine absurd ?_ hnot
    rw [newSection_eq_text, hw, hx]
    exact (hheader.isInfix.trans ⟨'\n' :: x, after, by simp⟩)

/-- **What Klipper extracts of the file that is written**: everything is regular data, and the
stored values are none, or discarded when there was a block. -/
theorem extracted_written (hd : OneLine d) (t : Text) :
    (extracted (t ++ newSection d)).1 = readConfigFile (t ++ newSection d) ∧
      (extracted (t ++ newSection d)).2 =
        if AUTOSAVE_PREFIX <:+: readConfigFile t then [] else NO_VALUES := by
  obtain ⟨a, ha, hprefix⟩ := readConfigFile_written hd t
  have hdata : AUTOSAVE_PREFIX <:+: a ++ newSection d ↔ AUTOSAVE_PREFIX <:+: readConfigFile t := by
    rw [newSection_eq_text, isInfix_append_cons autosavePrefix_tail, ← newSection_eq_text, hprefix]
    exact or_iff_left (prefix_notInfix_section hd)
  unfold extracted findAutosaveData
  rw [ha]
  cases hheader : (a ++ newSection d).dropInfix? AUTOSAVE_HEADER with
  | none =>
    dsimp only
    by_cases hblock : AUTOSAVE_PREFIX <:+: readConfigFile t
    · rw [if_pos (hdata.mpr hblock), if_pos hblock]
      exact ⟨rfl, rfl⟩
    · rw [if_neg fun h => hblock (hdata.mp h), if_neg hblock, if_neg fun h => h.1 rfl]
      exact ⟨rfl, rfl⟩
  | some split =>
    obtain ⟨before, after⟩ := split
    have hsplit := dropInfix_some hheader
    have hblock : AUTOSAVE_PREFIX <:+: readConfigFile t := by
      refine hdata.mp ?_
      rw [hsplit]
      exact prefix_header.isInfix.trans ⟨before, after, rfl⟩
    dsimp only
    rw [if_pos hblock]
    split
    · exact ⟨rfl, rfl⟩
    · rw [if_pos (modified_of_header hd hsplit)]
      exact ⟨rfl, rfl⟩

/-! ## A file with the section's text -/

/-- A header is met wherever its line stands. -/
theorem mem_headersFrom {dialect : Dialect} {name : Text} {rest : List Text}
    (h : ∀ cursor, name ∈ headersFrom dialect cursor rest) (before : List Text) (cursor : Cursor) :
    name ∈ headersFrom dialect cursor (before ++ rest) := by
  induction before generalizing cursor with
  | nil => exact h cursor
  | cons line before ih =>
    rw [List.cons_append, headersFrom]
    split
    · exact ih .start
    · dsimp only
      split
      · exact List.mem_cons_of_mem _ (ih _)
      · exact ih _

/-- The header of the section is met. -/
theorem headersFrom_header (dialect : Dialect) (cursor : Cursor) (rest : List Text) :
    sdcard ∈ headersFrom dialect cursor (VIRTUAL_SDCARD :: rest) := by
  have huncommented : uncommented VIRTUAL_SDCARD = VIRTUAL_SDCARD := by decide +kernel
  have hcontent : content VIRTUAL_SDCARD = VIRTUAL_SDCARD := by decide +kernel
  have hheader : dialect.sectionHeader VIRTUAL_SDCARD = some sdcard := by
    have hbracket : VIRTUAL_SDCARD = '[' :: (sdcard ++ [']']) := by decide +kernel
    have htake : (sdcard ++ [']']).takeWhile (· ≠ ']') = sdcard := by decide +kernel
    have hdrop : ((sdcard ++ [']']).reverse.dropWhile (· ≠ ']')).tail.reverse = sdcard := by
      decide +kernel
    have hne : ']' ∈ sdcard ++ [']'] ∧ sdcard ≠ [] := by decide +kernel
    rw [hbracket, Dialect.sectionHeader]
    rw [htake, hdrop, ite_self, if_pos hne]
  have hinclude : includeSpec dialect VIRTUAL_SDCARD = none := by
    have hnot : ¬"include ".toList <+: sdcard := by decide +kernel
    unfold includeSpec
    rw [hheader]
    exact if_neg hnot
  have hkind : cursor.classify dialect VIRTUAL_SDCARD = .header sdcard := by
    have hne : VIRTUAL_SDCARD ≠ [] := by decide +kernel
    have hindent : indentOf VIRTUAL_SDCARD = 0 := by decide +kernel
    unfold Cursor.classify
    rw [hcontent, if_neg hne, if_neg fun hcontinues => by
      have hlt := hcontinues.2.2
      rw [hindent] at hlt
      exact absurd hlt (Nat.not_lt_zero _), hheader]
  rw [headersFrom, huncommented, hinclude]
  dsimp only
  rw [hkind]
  exact List.mem_cons_self

/-- The regular data are a part of the file. -/
theorem extracted_within (s : Text) : (extracted s).1 <:+: readConfigFile s := by
  unfold extracted findAutosaveData
  cases hheader : (readConfigFile s).dropInfix? AUTOSAVE_HEADER with
  | none =>
    dsimp only
    split
    · exact List.infix_rfl
    · split
      · exact List.infix_rfl
      · exact List.infix_rfl
  | some split =>
    obtain ⟨before, after⟩ := split
    have hbefore : before <:+: readConfigFile s := by
      rw [dropInfix_some hheader, List.append_assoc]
      exact (List.prefix_append before _).isInfix
    dsimp only
    split
    · exact List.infix_rfl
    · split
      · exact List.infix_rfl
      · exact hbefore

/-- A file with the section's text has the section. -/
theorem hasSection_within {dialect : Dialect} (h : newSection d <:+: readConfigFile s) :
    HasSection dialect (readConfigFile s) sdcard := by
  obtain ⟨x, y, hxy⟩ := h
  have hdata : readConfigFile s = x ++ '\n' :: (VIRTUAL_SDCARD ++ '\n' ::
      ("path: ".toList ++ (FilePath.child d "gcodes".toList ++ ['\n']) ++ y)) := by
    rw [← hxy, newSection_eq]
    simp
  unfold HasSection
  rw [hdata, lines_append, lines_append, lines_eq_singleton header_oneLine, List.singleton_append]
  exact mem_headersFrom (fun cursor => headersFrom_header dialect cursor _) _ _

/-! ## The stored values -/

/-- A file that is left alone keeps its stored values, and has no new section. -/
theorem kept_same {dialect : Dialect} (h : edit s d = s) :
    KeepsAutosave dialect s d ↔ HasSection dialect (readConfigFile s) sdcard := by
  unfold KeepsAutosave
  rw [h]
  constructor
  · rintro ⟨-, hadded⟩
    by_contra hnone
    exact hnone (hasSection_within ((hadded hnone).trans (extracted_within s)))
  · exact fun hsection => ⟨rfl, fun hnone => absurd hsection hnone⟩

/-- A file in which no line starts like the block has no stored values. -/
theorem extracted_noBlock (h : ¬AUTOSAVE_PREFIX <:+: readConfigFile s) :
    (extracted s).2 = NO_VALUES := by
  have hheader : ¬AUTOSAVE_HEADER <:+: readConfigFile s := fun hinfix => by
    exact h (prefix_header.isInfix.trans hinfix)
  unfold extracted findAutosaveData
  rw [dropInfix_eq_none hheader]
  dsimp only
  rw [if_neg h, if_neg fun hand => hand.1 rfl]
  rfl

/-- **The condition for a file without the section**: no line starts like the block, or Klipper
has discarded the stored values before. -/
theorem noBlock_iff (dialect : Dialect) (h : ¬VIRTUAL_SDCARD <:+: s) :
    NoBlock dialect s d ↔ (AUTOSAVE_PREFIX <:+: readConfigFile s → (extracted s).2 = []) := by
  have hfind : pattern.find s = none := by
    by_contra hsome
    obtain ⟨⟨before, gs, after⟩, hfound⟩ := Option.ne_none_iff_exists'.mp hsome
    obtain ⟨t, rfl, hmatch⟩ := Pattern.find_eq_some hfound
    rw [pattern_eq, Pattern.matchAt] at hmatch
    obtain ⟨r, hdrop, -⟩ := Option.bind_eq_some_iff.mp hmatch
    obtain ⟨v, ht, heq⟩ := List.dropPrefix?_eq_some_iff.mp hdrop
    rw [eq_of_beq heq] at ht
    exact h ⟨before, r, by rw [List.append_assoc, ht]⟩
  have hcut : cutStale s d = some s := by
    unfold cutStale
    rw [hfind]
  unfold NoBlock
  rw [hcut]
  dsimp only
  rw [if_neg h]
  split
  · next hblock => exact ⟨fun hvalues _ => hvalues, fun hvalues => hvalues hblock⟩
  · next hblock => exact ⟨fun _ hnone => absurd hnone hblock, fun _ => extracted_noBlock hblock⟩

/-- **When the edit keeps the values `SAVE_CONFIG` stored**: for every file and every public
directory on one line, exactly when it does not append its section behind a block Klipper accepts
(nor cuts a section out of a block), and a file it leaves alone has the section.

SOURCE: BaseKlippyService.kt:82-101, configfile.py:170-192 -/
theorem autosave_kept_iff (dialect : Dialect) (s d : Text) (hd : OneLine d) :
    KeepsAutosave dialect s d ↔ NoBlock dialect s d := by
  unfold NoBlock
  cases hcut : cutStale s d with
  | none =>
    refine kept_same ?_
    unfold edit written
    rw [hcut]
    rfl
  | some t =>
    dsimp only
    by_cases hsection : VIRTUAL_SDCARD <:+: t
    · rw [if_pos hsection]
      refine kept_same ?_
      unfold edit written
      rw [hcut, Option.bind_eq_bind, Option.bind_some, if_pos hsection]
      rfl
    · have hedit : edit s d = t ++ newSection d := by
        unfold edit written
        rw [hcut, Option.bind_eq_bind, Option.bind_some, if_neg hsection]
        rfl
      obtain ⟨hregular, hvalues⟩ := extracted_written hd t
      obtain ⟨a, ha, -⟩ := readConfigFile_written hd t
      have hpart : newSection d <:+: (extracted (edit s d)).1 := by
        rw [hedit, hregular, ha]
        exact (List.suffix_append a _).isInfix
      rw [if_neg hsection]
      unfold KeepsAutosave
      rw [hedit, hvalues] at *
      split
      · exact ⟨fun h => h.1.symm, fun h => ⟨h.symm, fun _ => hpart⟩⟩
      · exact ⟨fun h => h.1.symm, fun h => ⟨h.symm, fun _ => hpart⟩⟩

/-- A dialect that knows the case of the ASCII letters only. -/
def plainDialect : Dialect where
  lower t := t.map fun c => if c.toNat < 128 then c.toLower else c
  lower_ascii _ h := List.map_congr_left fun c hc => if_pos (h c hc)
  toLastBracket := false

/-- The section is there already, and gets another directory. -/
theorem autosave_kept_iff_moved :
    KeepsAutosave plainDialect "[virtual_sdcard]\npath: /old/gcodes\n".toList "/new".toList ↔
      NoBlock plainDialect "[virtual_sdcard]\npath: /old/gcodes\n".toList "/new".toList :=
  autosave_kept_iff plainDialect _ _ (by simp [OneLine])

/-- A printer whose bed has been calibrated. -/
def calibrated : Text :=
  "[printer]\n".toList ++ AUTOSAVE_HEADER ++ "#*# [bed]\n#*# z = 1\n".toList

/-- The calibration is lost with the first start. -/
theorem autosave_not_kept :
    ¬∀ (dialect : Dialect) (s d : Text), OneLine d → KeepsAutosave dialect s d := by
  intro h
  have hkept := (h plainDialect calibrated "/new".toList (by simp [OneLine])).1
  have hlost : (extracted (edit calibrated "/new".toList)).2 ≠ (extracted calibrated).2 := by
    decide +kernel
  exact hlost hkept

end Cream.Model.BaseKlippyService
