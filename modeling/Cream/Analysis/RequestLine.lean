import Cream.Analysis.ProxyBody
import Cream.Library.UrlBytes

/-!
# The request line, as bytes

A client sends the target of its request as bytes; the session decodes all it has read as UTF-8
before it takes the line apart. Line ends, blanks and the question mark are ASCII, so that the
parts are the decoded parts of the bytes (`decodeTarget_of_receive`, `cut_utf8Decode`). What the
session has read of the target is all of it, or a beginning where the line is longer than the
buffer (`readTarget_isPrefix`).

SOURCE: HTTPSession.java:130-186, 306-390
-/

set_option autoImplicit false

namespace Cream.Model.HTTPSession

open Cream.Library PercentCoding Url

/-! ## What the client sends -/

/-- The byte ends a line. -/
def newlineByte (b : UInt8) : Bool := b = 10 || b = 13

/-- The byte separates the parts of a request line. -/
def blankByte (b : UInt8) : Bool := b = 32 || b = 9 || b = 10 || b = 13 || b = 12

/-- The target in the request line some bytes begin with. -/
def lineTarget (bytes : Bytes) : Bytes :=
  ((((bytes.takeWhile (!newlineByte ·)).dropWhile blankByte).dropWhile (!blankByte ·)).dropWhile
    blankByte).takeWhile (!blankByte ·)

/-- The path of a target. -/
def pathOf (target : Bytes) : Bytes := target.takeWhile (· != 0x3F)

/-- The query of a target. -/
def queryOf (target : Bytes) : Option Bytes :=
  match target.dropWhile (· != 0x3F) with
  | [] => none
  | _ :: query => some query

/-- What a session reads of the target. -/
def readTarget (inflow : Inflow) : Bytes :=
  match readHead inflow with
  | some head => lineTarget head.buf
  | none => []

/-! ## Prefixes -/

/-- Dropping from a beginning leaves a beginning. -/
theorem dropWhile_isPrefix {q : UInt8 → Bool} {a b : Bytes} (h : a <+: b) :
    a.dropWhile q <+: b.dropWhile q := by
  obtain ⟨t, rfl⟩ := h
  induction a with
  | nil => exact List.nil_prefix
  | cons x a ih =>
    rw [List.cons_append, List.dropWhile_cons, List.dropWhile_cons]
    split
    · exact ih
    · exact ⟨t, rfl⟩

/-- Taking from a beginning takes a beginning. -/
theorem takeWhile_isPrefix {q : UInt8 → Bool} {a b : Bytes} (h : a <+: b) :
    a.takeWhile q <+: b.takeWhile q := by
  obtain ⟨t, rfl⟩ := h
  induction a with
  | nil => exact List.nil_prefix
  | cons x a ih =>
    rw [List.cons_append, List.takeWhile_cons, List.takeWhile_cons]
    split
    · exact (List.prefix_cons_inj x).mpr ih
    · exact List.prefix_rfl

/-- The buffer holds a beginning of what the connection brings. -/
theorem fill_isPrefix (buf : Bytes) (pieces : List Bytes) :
    (fill buf pieces).1 <+: buf ++ pieces.flatten := by
  induction pieces generalizing buf with
  | nil => exact ⟨[], by rw [fill, List.flatten_nil]⟩
  | cons piece rest ih =>
    have hread : buf ++ piece.take (BUFSIZE - buf.length) <+: buf ++ (piece :: rest).flatten := by
      rw [List.flatten_cons, List.prefix_append_right_inj]
      exact (List.take_prefix _ _).trans (List.prefix_append _ _)
    rw [fill]
    split
    · exact hread
    · next hfull =>
      -- the whole piece has been read
      have hdrop : piece.drop (BUFSIZE - buf.length) = [] :=
        not_not.mp fun hne => hfull (.inr hne)
      have htake : piece.take (BUFSIZE - buf.length) = piece := by
        have hsplit := List.take_append_drop (BUFSIZE - buf.length) piece
        rwa [hdrop, List.append_nil] at hsplit
      have hrest := ih (buf ++ piece)
      rw [htake]
      rwa [List.flatten_cons, ← List.append_assoc]

/-- The buffer holds a beginning of what comes in. -/
theorem readHead_isPrefix {inflow : Inflow} {head : Head} (h : readHead inflow = some head) :
    head.buf <+: inflow.bytes := by
  have hfill := fill_isPrefix [] inflow.pieces
  unfold readHead at h
  rcases heq : fill [] inflow.pieces with ⟨buf, pieces⟩
  rw [heq] at h hfill
  simp only [Option.ite_none_left_eq_some] at h
  obtain ⟨-, -, h⟩ := h
  cases h
  exact hfill

/-- **What is read of the target** is a beginning of it. -/
theorem readTarget_isPrefix (inflow : Inflow) : readTarget inflow <+: lineTarget inflow.bytes := by
  unfold readTarget
  split
  · next head hhead =>
    unfold lineTarget
    exact takeWhile_isPrefix (dropWhile_isPrefix (dropWhile_isPrefix (dropWhile_isPrefix
      (takeWhile_isPrefix (readHead_isPrefix hhead)))))
  · exact List.nil_prefix

/-! ## Lines and tokens -/

/-- The character ends a line. -/
def newline (c : Char) : Bool := c = '\n' || c = '\r'

/-- A line break is a byte of its own. -/
theorem asciiKind_newline : AsciiKind newline newlineByte :=
  (AsciiKind.single (x := 10) rfl).or (.single (x := 13) rfl)

/-- So is a blank. -/
theorem asciiKind_blank : AsciiKind blank blankByte :=
  ((((AsciiKind.single (x := 32) rfl).or (.single (x := 9) rfl)).or (.single (x := 10) rfl)).or
    (.single (x := 13) rfl)).or (.single (x := 12) rfl)

/-- The first line of a text. -/
theorem lines_head {t inLine : Text} {rest : List Text}
    (h : Text.lines (Text.universalNewlines t) = inLine :: rest) :
    inLine = t.takeWhile (!newline ·) := by
  induction t generalizing inLine rest with
  | nil =>
    cases h
    rfl
  | cons c t ih =>
    -- a line ends here, or the character is kept
    have hcons : ∀ d : Char, ∀ u : Text, Text.lines (d :: u) =
        if d = '\n' then [] :: Text.lines u else (Text.lines u).modifyHead (d :: ·) := by
      intro d u
      unfold Text.lines
      rw [List.splitOn_cons_eq_if_modifyHead]
      by_cases hd : d = '\n' <;> simp [hd]
    by_cases hreturn : c = '\r'
    · subst hreturn
      obtain ⟨u, hu⟩ : ∃ u, Text.universalNewlines ('\r' :: t) = '\n' :: u := by
        rw [Text.universalNewlines.eq_def]
        split
        · next heq => cases heq
        · exact ⟨_, rfl⟩
        · exact ⟨_, rfl⟩
        · next hne heq => exact absurd (List.cons.inj heq).1.symm hne
      rw [hu, hcons, if_pos rfl] at h
      rw [← (List.cons.inj h).1]
      rfl
    · rw [Text.universalNewlines_cons hreturn, hcons] at h
      by_cases hfeed : c = '\n'
      · rw [if_pos hfeed] at h
        rw [← (List.cons.inj h).1, hfeed]
        rfl
      · rw [if_neg hfeed] at h
        have hkeep : (!newline c) = true := by simp [newline, hfeed, hreturn]
        rw [List.takeWhile_cons_of_pos (p := (!newline ·)) hkeep]
        cases hlines : Text.lines (Text.universalNewlines t) with
        | nil => exact absurd hlines (List.splitOn_ne_nil _ _)
        | cons l ls =>
          rw [hlines, List.modifyHead_cons] at h
          rw [← (List.cons.inj h).1, ih hlines]

/-- Delimiters at the head are passed over. -/
theorem tokens_dropWhile (delim : Char → Bool) (t : Text) :
    tokens delim t = tokens delim (t.dropWhile delim) := by
  induction t with
  | nil => rfl
  | cons c t ih =>
    rw [List.dropWhile_cons]
    split
    · next hc =>
      rw [← ih]
      unfold tokens
      rw [List.splitOnP_cons_eq_if_modifyHead, if_pos hc, List.filter_cons_of_neg (by simp)]
    · rfl

/-- The first token of a text, and the text behind it. -/
theorem tokens_word {delim : Char → Bool} {c : Char} {t : Text} (hc : delim c = false) :
    tokens delim (c :: t) =
      (c :: t).takeWhile (!delim ·) :: tokens delim ((c :: t).dropWhile (!delim ·)) := by
  have hword : ∀ d ∈ (c :: t).takeWhile (!delim ·), delim d = false := fun d hd => by
    simpa using List.mem_takeWhile_imp hd
  have hne : ((c :: t).takeWhile (!delim ·)).isEmpty = false := by
    rw [List.takeWhile_cons_of_pos (by simp [hc])]
    rfl
  have hsplit := List.takeWhile_append_dropWhile (p := (!delim ·)) (l := c :: t)
  cases hdrop : (c :: t).dropWhile (!delim ·) with
  | nil =>
    rw [hdrop, List.append_nil] at hsplit
    rw [hsplit] at hword hne ⊢
    unfold tokens
    rw [List.splitOnP_eq_singleton hword, List.filter_cons_of_pos (by simp)]
    rfl
  | cons d u =>
    have hd : delim d = true := by
      have hhead := List.head_dropWhile_not (!delim ·) (l := c :: t) (by rw [hdrop]; simp)
      simpa [hdrop] using hhead
    rw [hdrop] at hsplit
    have hfirst : tokens delim (c :: t) =
        (c :: t).takeWhile (!delim ·) :: tokens delim u := by
      unfold tokens
      rw [← hsplit, List.splitOnP_append_cons_of_forall_mem hword d hd, hsplit,
        List.filter_cons_of_pos (by simp [hne])]
    rw [hfirst, tokens_dropWhile delim (d :: u), List.dropWhile_cons_of_pos hd, ← tokens_dropWhile]

/-- The second token of a text. -/
theorem tokens_second {delim : Char → Bool} {t first second : Text} {more : List Text}
    (h : tokens delim t = first :: second :: more) :
    second = (((t.dropWhile delim).dropWhile (!delim ·)).dropWhile delim).takeWhile (!delim ·) := by
  have hhead : ∀ {u first : Text} {more : List Text}, tokens delim u = first :: more →
      first = (u.dropWhile delim).takeWhile (!delim ·) ∧
        more = tokens delim ((u.dropWhile delim).dropWhile (!delim ·)) := by
    intro u first more h
    rw [tokens_dropWhile] at h
    cases hdrop : u.dropWhile delim with
    | nil =>
      rw [hdrop] at h
      cases h
    | cons c v =>
      have hc : delim c = false := by
        have hne : u.dropWhile delim ≠ [] := by rw [hdrop]; simp
        have hnot := List.head_dropWhile_not delim hne
        simpa [hdrop] using hnot
      rw [hdrop, tokens_word hc] at h
      obtain ⟨rfl, rfl⟩ := List.cons.inj h
      exact ⟨rfl, rfl⟩
  obtain ⟨-, hmore⟩ := hhead h
  exact (hhead hmore.symm).1

/-! ## What the session reads -/

/-- What `cut` gives, in terms of the characters before the first occurrence. -/
theorem cut_eq (c : Char) (t : Text) : cut c t = (t.takeWhile fun d => !decide (d = c),
    match t.dropWhile fun d => !decide (d = c) with
    | [] => none
    | _ :: after => some after) := by
  induction t with
  | nil => rfl
  | cons d t ih =>
    unfold cut
    by_cases hd : d = c
    · rw [if_pos hd, List.takeWhile_cons_of_neg (by simp [hd]),
        List.dropWhile_cons_of_neg (by simp [hd])]
    · rw [if_neg hd, List.takeWhile_cons_of_pos (by simp [hd]),
        List.dropWhile_cons_of_pos (by simp [hd]), ih]

/-- The path and the query of a decoded target are the decoded ones. -/
theorem cut_utf8Decode (target : Bytes) : cut '?' (utf8Decode target) =
    (utf8Decode (pathOf target), (queryOf target).map utf8Decode) := by
  have hkind : AsciiKind (fun c => decide (c = '?')) fun x => decide (x = 0x3F) :=
    .single (x := 0x3F) rfl
  have hbyte : (fun x : UInt8 => x != 0x3F) = fun x => !decide (x = 0x3F) := rfl
  obtain ⟨htake, hdrop⟩ := hkind.utf8Decode_cut target
  rw [cut_eq, pathOf, queryOf, hbyte, htake, ← hdrop]
  rcases takeWhile_cases (fun x => decide (x = 0x3F)) target with
    ⟨-, -, hnil⟩ | ⟨a, x, rest, -, -, hx, -, hcons⟩
  · rw [hnil]
    rfl
  · have hascii : asciiByte x = true := by
      rw [of_decide_eq_true hx]
      rfl
    rw [hcons, utf8Decode_ascii hascii]
    rfl

/-- **The target the session decodes** is the text of the bytes it has read of it. -/
theorem decodeTarget_of_receive {prev : Option Text} {inflow rest : Inflow} {request : HttpRequest}
    (h : receive prev inflow = some (request, rest)) :
    decodeTarget prev (utf8Decode (readTarget inflow)) =
      some (request.uri, request.parms, request.queryParameterString) := by
  obtain ⟨head, hhead, h⟩ := Option.bind_eq_some_iff.mp h
  obtain ⟨request', hdecode, h⟩ := Option.bind_eq_some_iff.mp h
  simp only [Option.ite_none_right_eq_some, Option.some.injEq, Prod.mk.injEq] at h
  obtain ⟨-, rfl, -⟩ := h
  unfold decodeHeader at hdecode
  split at hdecode
  · cases hdecode
  next inLine lines hlines =>
  split at hdecode
  · next method target more htokens =>
    obtain ⟨⟨uri, parms, query⟩, htarget, hrequest⟩ := Option.bind_eq_some_iff.mp hdecode
    cases hrequest
    have hline := lines_head hlines
    have hsecond := tokens_second htokens
    have hread : utf8Decode (readTarget inflow) = target := by
      unfold readTarget lineTarget
      rw [hhead, hsecond, hline]
      simp only [(asciiKind_blank.utf8Decode_cut _).1, (asciiKind_blank.utf8Decode_cut _).2,
        asciiKind_blank.utf8Decode_dropWhile, (asciiKind_newline.utf8Decode_cut _).1]
    rw [hread]
    exact htarget
  · cases hdecode

end Cream.Model.HTTPSession
