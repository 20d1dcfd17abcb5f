import Cream.Model.BaseKlippyService
import Mathlib.Logic.Function.Iterate

/-!
# The edit of printer.cfg is done once

`BaseKlippyService.kt`: every start of an instance runs the edit of `printer.cfg` again. What
a first run has written is left alone by the next: the section it appended is the first one
of the file, as the file was only written when no other was left, and its path starts with
the public directory.
-/

set_option autoImplicit false

namespace Cream.Model.BaseKlippyService

open Cream.Library

variable {s d : Text}

/-- A directory whose path stays on one line. -/
def OneLine (d : Text) : Prop := ∀ c ∈ d, c ≠ '\n' ∧ c ≠ '\r'

/-! ## The section that is appended -/

/-- The pattern without its header. -/
def pathPattern : Pattern :=
  [.run (· ∈ ['\r', '\n', ' ']), .text "path: ".toList, .group (· ∉ ['\r', '\n'])]

/-- The pattern begins with the header of the section. -/
theorem pattern_eq : pattern = .text VIRTUAL_SDCARD :: pathPattern := rfl

/-- The new section: its header and the path. -/
theorem newSection_eq (d : Text) :
    newSection d = '\n' :: (VIRTUAL_SDCARD ++ '\n' :: ("path: ".toList ++
      (FilePath.child d "gcodes".toList ++ ['\n']))) := by
  have htext : "\n[virtual_sdcard]\npath: ".toList =
      '\n' :: (VIRTUAL_SDCARD ++ '\n' :: "path: ".toList) := by decide +kernel
  unfold newSection
  generalize "path: ".toList = label, FilePath.child d "gcodes".toList = path,
    "\n[virtual_sdcard]\npath: ".toList = text at *
  rw [htext, List.cons_append, List.append_assoc, List.cons_append]

/-- The header is one line. -/
theorem header_oneLine : '\n' ∉ VIRTUAL_SDCARD := by decide +kernel

/-- It begins with a bracket. -/
theorem header_head : VIRTUAL_SDCARD.head? = some '[' := by decide +kernel

/-- The path is that of the directory with something behind it. -/
theorem gcodes_eq (d : Text) :
    ∃ rest, FilePath.child d "gcodes".toList = d ++ rest ∧ rest ≠ [] ∧ OneLine rest := by
  have hnormal : FilePath.normalize "gcodes".toList = "gcodes".toList := by decide
  unfold FilePath.child FilePath.resolve
  rw [hnormal, if_neg (by decide : ¬("gcodes".toList = [] ∨ "gcodes".toList = ['/'])),
    if_neg (by decide : ¬("gcodes".toList.head? = some '/'))]
  split
  · next hd =>
    refine ⟨"gcodes".toList, by rw [hd, List.nil_append], by simp, ?_⟩
    simp [OneLine]
  · split
    · exact ⟨"gcodes".toList, rfl, by simp, by simp [OneLine]⟩
    · exact ⟨"/gcodes".toList, rfl, by simp, by simp [OneLine]⟩

/-- No section starts before the appended one. -/
theorem matchAt_before {u rest : Text} (hs : ¬VIRTUAL_SDCARD <:+: s) (hne : u ≠ [])
    (hu : u <:+ s ++ ['\n']) : pattern.matchAt (u ++ rest) = none := by
  rw [pattern_eq, Pattern.matchAt]
  have hheader := header_oneLine
  have hhead := header_head
  generalize VIRTUAL_SDCARD = header at *
  cases hdrop : (u ++ rest).dropPrefix? header with
  | none => rfl
  | some w =>
    obtain ⟨t, ht, heq⟩ := List.dropPrefix?_eq_some_iff.mp hdrop
    obtain rfl := eq_of_beq heq
    obtain ⟨v, rfl⟩ : ∃ v, u = v ++ ['\n'] := by
      obtain ⟨x, hx⟩ := hu
      have hlast : u.getLast? = some '\n' := by
        rw [← List.getLast?_concat (l := s), ← hx, List.getLast?_append_of_ne_nil _ hne]
      exact List.getLast?_eq_some_iff.mp hlast
    have hv : v <:+ s := by
      obtain ⟨x, hx⟩ := hu
      rw [← List.append_assoc] at hx
      exact ⟨x, (List.append_inj' hx rfl).1⟩
    rw [List.append_assoc, List.singleton_append, ← List.nil_append (t ++ w),
      ← List.append_assoc] at ht
    rcases Text.infix_append_cons (fun h => hheader (List.mem_of_mem_tail h)) ht with
      ⟨y, hy, -⟩ | ⟨x, hx, hy⟩
    · exact absurd (List.IsInfix.trans ⟨[], y, hy.symm⟩ hv.isInfix) hs
    · -- the section would start with the line feed
      rw [(List.append_eq_nil_iff.mp hx.symm).2, List.nil_append] at hy
      have hfirst := congrArg List.head? hy
      rw [List.head?_cons, List.head?_append, hhead] at hfirst
      simp at hfirst

/-- What is matched of the appended section. -/
theorem matchAt_path {path : Text} (hne : path ≠ []) (hpath : OneLine path) :
    pathPattern.matchAt ('\n' :: ("path: ".toList ++ (path ++ ['\n']))) =
      some ([path], ['\n']) := by
  have hgroup : Pattern.matchAt [.group (· ∉ ['\r', '\n'])] (path ++ ['\n']) =
      some ([path], ['\n']) := by
    have haccepts : ∀ c ∈ path, (decide (c ∉ ['\r', '\n']) : Bool) := by
      intro c hc
      simp [hpath c hc]
    have hnext : Pattern.matchAt [] ['\n'] = some ([], ['\n']) := rfl
    have hrun := Pattern.run_append hne haccepts (by simp) hnext
    rw [Pattern.matchAt, hrun]
    rfl
  have hprefix : Pattern.matchAt [.text "path: ".toList, .group (· ∉ ['\r', '\n'])]
      ("path: ".toList ++ (path ++ ['\n'])) = some ([path], ['\n']) := by
    rw [Pattern.matchAt, List.dropPrefix?_append_of_beq _ (beq_self_eq_true _), Option.bind_some,
      hgroup]
  have hhead : ("path: ".toList ++ (path ++ ['\n'])).head? = some 'p' := rfl
  have hstop : ∀ c ∈ ("path: ".toList ++ (path ++ ['\n'])).head?,
      (decide (c ∈ ['\r', '\n', ' ']) : Bool) = false := by
    intro c hc
    rw [hhead, Option.mem_def, Option.some.injEq] at hc
    rw [← hc]
    decide
  have hrun := Pattern.run_append (w := ['\n']) (by simp) (by simp) hstop hprefix
  exact congrArg (Option.map Prod.snd) hrun

/-- **The appended section is found first** where the file had none. -/
theorem find_newSection (hs : ¬VIRTUAL_SDCARD <:+: s) (hd : OneLine d) :
    pattern.find (s ++ newSection d) =
      some (s ++ ['\n'], [FilePath.child d "gcodes".toList], ['\n']) := by
  obtain ⟨rest, hgcodes, hne, hrest⟩ := gcodes_eq d
  have hpath : OneLine (d ++ rest) := by
    intro c hc
    rcases List.mem_append.mp hc with hc | hc
    · exact hd c hc
    · exact hrest c hc
  have hsplit : s ++ newSection d =
      (s ++ ['\n']) ++ (VIRTUAL_SDCARD ++ '\n' :: ("path: ".toList ++
        (FilePath.child d "gcodes".toList ++ ['\n']))) := by
    rw [newSection_eq, List.append_assoc, List.singleton_append]
  have hmatch : pattern.matchAt (VIRTUAL_SDCARD ++ '\n' :: ("path: ".toList ++
      (FilePath.child d "gcodes".toList ++ ['\n']))) =
        some ([FilePath.child d "gcodes".toList], ['\n']) := by
    rw [pattern_eq, Pattern.matchAt, List.dropPrefix?_append_of_beq _ (beq_self_eq_true _),
      Option.bind_some, hgcodes]
    exact matchAt_path (by simp [hne]) hpath
  rw [hsplit, Pattern.find_skip fun u hu hsuffix => matchAt_before hs hu hsuffix,
    Pattern.find_of_matchAt hmatch]
  simp only [Option.map_some, List.append_nil]

/-! ## Starting again -/

/-- What was written has its first section in the public directory. -/
theorem edit_newSection (hs : ¬VIRTUAL_SDCARD <:+: s) (hd : OneLine d) :
    edit (s ++ newSection d) d = s ++ newSection d := by
  obtain ⟨rest, hgcodes, -, -⟩ := gcodes_eq d
  have hkept : cutStale (s ++ newSection d) d = some (s ++ newSection d) := by
    unfold cutStale
    rw [find_newSection hs hd]
    exact if_pos (by rw [hgcodes]; exact List.prefix_append d rest)
  have hhas : VIRTUAL_SDCARD <:+: s ++ newSection d := by
    rw [newSection_eq]
    refine ⟨s ++ ['\n'], '\n' :: ("path: ".toList ++
      (FilePath.child d "gcodes".toList ++ ['\n'])), ?_⟩
    rw [List.append_assoc, List.append_assoc, List.singleton_append]
  unfold edit written
  rw [hkept, Option.bind_eq_bind, Option.bind_some, if_pos hhas]
  rfl

/-- What a run of the edit leaves: the file as it was, or a text without a section and the
new section after it. -/
theorem edit_cases (s d : Text) :
    edit s d = s ∨ ∃ t, ¬VIRTUAL_SDCARD <:+: t ∧ edit s d = t ++ newSection d := by
  unfold edit written
  cases cutStale s d with
  | none => exact .inl rfl
  | some t =>
    rw [Option.bind_eq_bind, Option.bind_some]
    split
    · exact .inl rfl
    · next h => exact .inr ⟨t, h, rfl⟩

/-- **The edit of printer.cfg is done once**: whatever the file holds (commented, repeated or
broken sections, a header that only comes about when a section is cut out), and whether or not
the edit throws, a second start changes nothing, nor does any later one.

SOURCE: BaseKlippyService.kt:82-105 -/
theorem edit_idempotent (s d : Text) (hd : OneLine d) :
    edit (edit s d) d = edit s d ∧
      ∀ starts, (fun content => edit content d)^[starts + 1] s = edit s d := by
  have hagain : edit (edit s d) d = edit s d := by
    rcases edit_cases s d with hsame | ⟨t, ht, hwritten⟩
    · rw [hsame, hsame]
    · rw [hwritten]
      exact edit_newSection ht hd
  refine ⟨hagain, fun starts => ?_⟩
  induction starts with
  | zero => rfl
  | succ starts ih =>
    rw [Function.iterate_succ_apply', ih]
    exact hagain

/-- A section of another directory is replaced once. -/
theorem edit_idempotent_moved :
    edit (edit "[virtual_sdcard]\npath: /old/gcodes\n".toList "/new".toList) "/new".toList =
        edit "[virtual_sdcard]\npath: /old/gcodes\n".toList "/new".toList ∧
      ∀ starts, (fun content => edit content "/new".toList)^[starts + 1]
        "[virtual_sdcard]\npath: /old/gcodes\n".toList =
          edit "[virtual_sdcard]\npath: /old/gcodes\n".toList "/new".toList :=
  edit_idempotent _ _ (by simp [OneLine])

example : edit "[virtual_sdcard]\npath: /old/gcodes\n".toList "/new".toList =
    "\n[virtual_sdcard]\npath: /new/gcodes\n".toList := by decide +kernel

end Cream.Model.BaseKlippyService
