import Cream.Library.PercentCoding

/-!
# HTTP responses on the wire

Writing and reading of HTTP/1.1 responses as bytes. `parse` is the reader of RFC 9112: the
status line, the header fields, and a body that is delimited by the chunked coding, by its
length or by the end of the connection; two ways of delimiting it at once are refused. The
main rules: what is read of a written message (`parse_write`), and what is read of a body
that was written in chunks (`unchunk_writeChunks`).
-/

set_option autoImplicit false

namespace Cream.Library

namespace HttpMessage

/-- The bytes of an ASCII text. -/
def ascii (s : String) : Bytes := s.toList.map fun c => UInt8.ofNat c.toNat

/-! ## Fields -/

/-- The characters of a token. -/
def tchar (b : UInt8) : Bool :=
  (48 ≤ b && b ≤ 57) || (65 ≤ b && b ≤ 90) || (97 ≤ b && b ≤ 122) ||
    (ascii "!#$%&'*+-.^_`|~").contains b

/-- The name of a field. -/
def IsToken (name : Bytes) : Prop := name ≠ [] ∧ ∀ b ∈ name, tchar b = true

instance (name : Bytes) : Decidable (IsToken name) :=
  haveI := List.decidableBAll (fun b => tchar b = true) name
  inferInstanceAs (Decidable (_ ∧ _))

/-- A blank or a tab. -/
def blank (b : UInt8) : Bool := b = 32 || b = 9

/-- Without the blanks at its ends. -/
def strip (v : Bytes) : Bytes := (v.dropWhile blank).rdropWhile blank

/-- The value of a field. -/
structure IsValue (v : Bytes) : Prop where
  noReturn : 13 ∉ v
  noNewline : 10 ∉ v
  stripped : strip v = v

instance (v : Bytes) : Decidable (IsValue v) :=
  decidable_of_iff (13 ∉ v ∧ 10 ∉ v ∧ strip v = v)
    ⟨fun h => ⟨h.1, h.2.1, h.2.2⟩, fun h => ⟨h.1, h.2, h.3⟩⟩

/-- A header line as a field. -/
def field (line : Bytes) : Option (Bytes × Bytes) :=
  match line.dropWhile (· ≠ 58) with
  | _ :: value =>
    let name := line.takeWhile (· ≠ 58)
    if IsToken name then some (name, strip value) else none
  | [] => none

/-- Lower case. -/
def lower (b : UInt8) : UInt8 := if 65 ≤ b ∧ b ≤ 90 then b + 32 else b

/-- A name in lower case. -/
def lowered (name : Bytes) : Bytes := name.map lower

/-- The values of the fields with a name, given in lower case. -/
def named (name : Bytes) (fields : List (Bytes × Bytes)) : List Bytes :=
  (fields.filter fun f => lowered f.1 = name).map Prod.snd

/-! ## Lines -/

/-- The first line, and what stands behind its end. -/
def readLine : Bytes → Option (Bytes × Bytes)
  | [] => none
  | 13 :: 10 :: rest => some ([], rest)
  | b :: rest => (readLine rest).map fun (line, rest) => (b :: line, rest)

/-- The lines up to the empty one. The first argument bounds their number. -/
def readHeadN : Nat → Bytes → Option (List Bytes × Bytes)
  | 0, _ => none
  | n + 1, bytes =>
    match readLine bytes with
    | none => none
    | some ([], rest) => some ([], rest)
    | some (line, rest) => (readHeadN n rest).map fun (lines, rest) => (line :: lines, rest)

/-- The lines up to the empty one. -/
def readHead (bytes : Bytes) : Option (List Bytes × Bytes) := readHeadN bytes.length bytes

/-- The value of a decimal digit. -/
def digit (b : UInt8) : Option Nat := if 48 ≤ b ∧ b ≤ 57 then some (b.toNat - 48) else none

/-- The start of a status line. -/
def version : Bytes := ascii "HTTP/1.1 "

/-- The status code of a status line. -/
def statusCode (line : Bytes) : Option Nat :=
  if version.isPrefixOf line then
    match line.drop version.length with
    | a :: b :: c :: rest =>
      match digit a, digit b, digit c with
      | some a, some b, some c =>
        if rest.head?.getD 32 = 32 then some (100 * a + 10 * b + c) else none
      | _, _, _ => none
    | _ => none
  else none

/-- A decimal number. -/
def decimal (v : Bytes) : Option Nat :=
  if v = [] then none
  else v.foldl (fun n b => n.bind fun n => (digit b).map fun d => 10 * n + d) (some 0)

/-! ## Chunks -/

/-- The value of a hexadecimal digit. -/
def hexDigitValue (b : UInt8) : Option Nat :=
  if 48 ≤ b ∧ b ≤ 57 then some (b.toNat - 48)
  else if 97 ≤ b ∧ b ≤ 102 then some (b.toNat - 87)
  else if 65 ≤ b ∧ b ≤ 70 then some (b.toNat - 55)
  else none

/-- The hexadecimal number that goes on with some digits. -/
def hexFrom (n : Nat) : Bytes → Option Nat
  | [] => some n
  | b :: rest => (hexDigitValue b).bind fun d => hexFrom (16 * n + d) rest

/-- The size of a chunk. -/
def hexSize (line : Bytes) : Option Nat := if line = [] then none else hexFrom 0 line

/-- A hexadecimal digit. -/
def hexDigit (n : Nat) : UInt8 := UInt8.ofNat (if n < 10 then 48 + n else 87 + n)

/-- The digits of a number. The first argument bounds their number. -/
def hexDigitsN : Nat → Nat → Bytes
  | 0, _ => []
  | f + 1, n => if n < 16 then [hexDigit n] else hexDigitsN f (n / 16) ++ [hexDigit (n % 16)]

/-- A number in hexadecimal digits. -/
def hexDigits (n : Nat) : Bytes := hexDigitsN (n + 1) n

/-- Read chunks up to the empty one. The first argument bounds their number. -/
def unchunkN : Nat → Bytes → Option (Bytes × Bytes)
  | 0, _ => none
  | f + 1, bytes =>
    match readLine bytes with
    | none => none
    | some (line, rest) =>
      match hexSize line with
      | none => none
      | some 0 => if rest.take 2 = [13, 10] then some ([], rest.drop 2) else none
      | some n =>
        if (rest.drop n).take 2 = [13, 10] then
          (unchunkN f (rest.drop (n + 2))).map fun (body, after) => (rest.take n ++ body, after)
        else none

/-- Read a chunked body. -/
def unchunk (bytes : Bytes) : Option (Bytes × Bytes) := unchunkN bytes.length bytes

/-- Write a chunk. Nothing is written for an empty one, which would end the body. -/
def writeChunk (chunk : Bytes) : Bytes :=
  if chunk = [] then [] else hexDigits chunk.length ++ 13 :: 10 :: (chunk ++ [13, 10])

/-- Write a body in chunks. -/
def writeChunks (chunks : List Bytes) : Bytes := chunks.flatMap writeChunk ++ [48, 13, 10, 13, 10]

/-! ## Messages -/

structure Message where
  code : Nat
  fields : List (Bytes × Bytes)
  body : Bytes
deriving DecidableEq, Repr

/-- A response that has no body, whatever its fields say; `head` says that it answers a
`HEAD` request. -/
def bodiless (head : Bool) (code : Nat) : Bool := head || code < 200 || code = 204 || code = 304

/-- The body of a response, from the bytes behind its head up to the end of the connection. -/
def content (head : Bool) (code : Nat) (fields : List (Bytes × Bytes)) (rest : Bytes) :
    Option Bytes :=
  match named (ascii "transfer-encoding") fields, named (ascii "content-length") fields with
  | [], [] => if bodiless head code then (if rest = [] then some [] else none) else some rest
  | [coding], [] =>
    if lowered coding ≠ ascii "chunked" then none
    else if bodiless head code then (if rest = [] then some [] else none)
    else
      match unchunk rest with
      | some (body, []) => some body
      | _ => none
  | [], [length] =>
    match decimal length with
    | none => none
    | some n =>
      if bodiless head code then (if rest = [] then some [] else none)
      else if rest.length = n then some rest
      else none
  | _, _ => none

/-- Read a response that takes the whole connection. -/
def parse (head : Bool) (bytes : Bytes) : Option Message :=
  match readHead bytes with
  | some (first :: lines, rest) => do
    let code ← statusCode first
    let fields ← lines.mapM field
    let body ← content head code fields rest
    some ⟨code, fields, body⟩
  | _ => none

/-- Write a line. -/
def writeLine (line : Bytes) : Bytes := line ++ [13, 10]

/-- The line of a field. -/
def fieldLine (f : Bytes × Bytes) : Bytes := f.1 ++ 58 :: 32 :: f.2

/-- Write a head. -/
def writeHead (first : Bytes) (fields : List (Bytes × Bytes)) : Bytes :=
  (first :: fields.map fieldLine).flatMap writeLine ++ [13, 10]

/-! ## Reading lines -/

variable {line rest : Bytes}

/-- A line that was written is read back. -/
theorem readLine_append (h : 13 ∉ line) : readLine (line ++ 13 :: 10 :: rest) = some (line, rest) := by
  induction line with
  | nil => rfl
  | cons b line ih =>
    rw [List.mem_cons, not_or] at h
    rw [List.cons_append, readLine, ih h.2]
    · rfl
    · exact fun r hb _ => h.1 hb.symm

/-- The line that is read is where the bytes begin. -/
theorem readLine_isPrefix {bytes : Bytes} (h : readLine bytes = some (line, rest)) :
    line <+: bytes := by
  induction bytes using readLine.induct generalizing line rest with
  | case1 => cases h
  | case2 rest' =>
    cases h
    exact List.nil_prefix
  | case3 b bytes hb ih =>
    rw [readLine] at h
    · obtain ⟨⟨line', rest'⟩, hline, heq⟩ := Option.map_eq_some_iff.mp h
      cases heq
      exact List.cons_prefix_cons.mpr ⟨rfl, ih hline⟩
    · exact hb

/-- So are the lines of a head up to the empty one. -/
theorem readHeadN_write {lines : List Bytes} (h : ∀ l ∈ lines, l ≠ [] ∧ 13 ∉ l) (n : Nat)
    (hn : lines.length < n) :
    readHeadN n (lines.flatMap writeLine ++ 13 :: 10 :: rest) = some (lines, rest) := by
  induction lines generalizing n with
  | nil =>
    obtain ⟨n, rfl⟩ := Nat.exists_eq_succ_of_ne_zero (Nat.ne_of_gt hn)
    rfl
  | cons l lines ih =>
    obtain ⟨n, rfl⟩ := Nat.exists_eq_succ_of_ne_zero (Nat.ne_of_gt (Nat.lt_of_le_of_lt (Nat.zero_le _) hn))
    obtain ⟨⟨hne, hreturn⟩, hlines⟩ := List.forall_mem_cons.mp h
    have hrest := ih hlines n (by simpa using hn)
    have hread : readLine ((l :: lines).flatMap writeLine ++ 13 :: 10 :: rest) =
        some (l, lines.flatMap writeLine ++ 13 :: 10 :: rest) := by
      rw [List.flatMap_cons, writeLine, List.append_assoc, List.append_assoc]
      exact readLine_append hreturn
    rw [readHeadN, hread]
    cases l with
    | nil => exact absurd rfl hne
    | cons b l =>
      dsimp only
      rw [hrest]
      rfl

/-- Every line takes a byte at least. -/
theorem length_le_flatMap_writeLine (lines : List Bytes) :
    lines.length ≤ (lines.flatMap writeLine).length := by
  induction lines with
  | nil => exact Nat.le_refl 0
  | cons l lines ih =>
    rw [List.flatMap_cons, List.length_append, writeLine, List.length_append, List.length_cons]
    simp only [List.length_cons, List.length_nil]
    omega

/-- A colon is no character of a token. -/
theorem colon_not_tchar : tchar 58 = false := by decide

/-- A field is read as it was written. -/
theorem field_fieldLine {name value : Bytes} (hname : IsToken name) (hvalue : IsValue value) :
    field (fieldLine (name, value)) = some (name, value) := by
  have hcolon : ∀ b ∈ name, (fun b => decide (b ≠ 58)) b = true := by
    intro b hb
    refine decide_eq_true fun heq => ?_
    have htoken := hname.2 b hb
    rw [heq, colon_not_tchar] at htoken
    cases htoken
  have hdrop : (fieldLine (name, value)).dropWhile (· ≠ 58) = 58 :: 32 :: value := by
    rw [fieldLine, List.dropWhile_append_of_pos hcolon]
    rfl
  have htake : (fieldLine (name, value)).takeWhile (· ≠ 58) = name := by
    rw [fieldLine, List.takeWhile_append_of_pos hcolon, List.takeWhile_cons_of_neg (by decide),
      List.append_nil]
  have hstrip : strip (32 :: value) = value := hvalue.stripped
  rw [field, hdrop]
  dsimp only
  rw [htake, if_pos hname, hstrip]

/-- The fields are read back from their lines. -/
theorem mapM_field {fields : List (Bytes × Bytes)}
    (h : ∀ f ∈ fields, IsToken f.1 ∧ IsValue f.2) :
    (fields.map fieldLine).mapM field = some fields := by
  induction fields with
  | nil => rfl
  | cons f fields ih =>
    obtain ⟨⟨hname, hvalue⟩, hfields⟩ := List.forall_mem_cons.mp h
    rw [List.map_cons, List.mapM_cons, ih hfields, field_fieldLine hname hvalue]
    rfl

/-- Nor is a carriage return. -/
theorem return_not_tchar : tchar 13 = false := by decide

/-- **What is read of a message that was written.** -/
theorem parse_write {first : Bytes} {fields : List (Bytes × Bytes)} (hne : first ≠ [])
    (hfirst : 13 ∉ first) (hfields : ∀ f ∈ fields, IsToken f.1 ∧ IsValue f.2) (head : Bool) :
    parse head (writeHead first fields ++ rest) =
      (statusCode first).bind fun code =>
        (content head code fields rest).map fun body => ⟨code, fields, body⟩ := by
  have hlines : ∀ l ∈ first :: fields.map fieldLine, l ≠ [] ∧ 13 ∉ l := by
    rw [List.forall_mem_cons, List.forall_mem_map]
    refine ⟨⟨hne, hfirst⟩, fun f hf => ⟨?_, ?_⟩⟩
    · rw [fieldLine]
      simp
    · obtain ⟨hname, hvalue⟩ := hfields f hf
      rw [fieldLine, List.mem_append, List.mem_cons, List.mem_cons]
      rintro (hmem | hmem | hmem | hmem)
      · have htoken := hname.2 13 hmem
        rw [return_not_tchar] at htoken
        cases htoken
      · cases hmem
      · cases hmem
      · exact hvalue.noReturn hmem
  have hread : readHead (writeHead first fields ++ rest) =
      some (first :: fields.map fieldLine, rest) := by
    rw [readHead, writeHead, List.append_assoc]
    refine readHeadN_write hlines _ ?_
    rw [List.length_append]
    have hle := length_le_flatMap_writeLine (first :: fields.map fieldLine)
    simp only [List.cons_append, List.nil_append, List.length_cons] at hle ⊢
    omega
  rw [parse, hread]
  dsimp only
  rw [mapM_field hfields]
  cases statusCode first with
  | none => rfl
  | some code =>
    cases hcontent : content head code fields rest <;> simp [hcontent]

/-- Bytes that do not begin with the version are no response. -/
theorem parse_of_not_version {bytes : Bytes} (h : ¬version <+: bytes) (head : Bool) :
    parse head bytes = none := by
  unfold parse
  split
  · next first lines rest hread =>
    have hbegin : first <+: bytes := by
      unfold readHead at hread
      cases hn : bytes.length with
      | zero =>
        rw [hn] at hread
        cases hread
      | succ n =>
        rw [hn, readHeadN] at hread
        split at hread
        · cases hread
        · cases hread
        · next line rest' _ hline =>
          obtain ⟨r, -, heq⟩ := Option.map_eq_some_iff.mp hread
          cases heq
          exact readLine_isPrefix hline
    have hcode : statusCode first = none := by
      rw [statusCode, if_neg]
      intro hversion
      exact h ((List.isPrefixOf_iff_prefix.mp hversion).trans hbegin)
    rw [hcode]
    rfl
  · rfl

/-! ## Reading chunks -/

/-- A hexadecimal digit has its value. -/
theorem hexDigitValue_hexDigit : ∀ n < 16, hexDigitValue (hexDigit n) = some n := by decide

/-- Digits are read from the left to the right. -/
theorem hexFrom_append (n : Nat) (a b : Bytes) :
    hexFrom n (a ++ b) = (hexFrom n a).bind fun m => hexFrom m b := by
  induction a generalizing n with
  | nil => rfl
  | cons c a ih =>
    rw [List.cons_append, hexFrom, hexFrom]
    cases hexDigitValue c with
    | none => rfl
    | some d => exact ih _

/-- A number is read back from its digits. -/
theorem hexFrom_hexDigitsN (f n : Nat) (h : n < f) : hexFrom 0 (hexDigitsN f n) = some n := by
  induction f generalizing n with
  | zero => exact absurd h (Nat.not_lt_zero n)
  | succ f ih =>
    rw [hexDigitsN]
    split
    · next hn =>
      rw [hexFrom, hexDigitValue_hexDigit n hn]
      show some (16 * 0 + n) = some n
      rw [Nat.mul_zero, Nat.zero_add]
    · next hn =>
      rw [hexFrom_append, ih _ (by omega)]
      show hexFrom (n / 16) [hexDigit (n % 16)] = some n
      rw [hexFrom, hexDigitValue_hexDigit _ (Nat.mod_lt n (by decide))]
      show some (16 * (n / 16) + n % 16) = some n
      rw [Nat.div_add_mod]

/-- It has a digit. -/
theorem hexDigitsN_ne_nil (f n : Nat) (h : 0 < f) : hexDigitsN f n ≠ [] := by
  cases f with
  | zero => exact absurd h (Nat.lt_irrefl 0)
  | succ f =>
    rw [hexDigitsN]
    split <;> simp

/-- The size of a chunk is read as it was written. -/
theorem hexSize_hexDigits (n : Nat) : hexSize (hexDigits n) = some n := by
  rw [hexSize, hexDigits, if_neg (hexDigitsN_ne_nil _ _ (Nat.succ_pos n))]
  exact hexFrom_hexDigitsN _ _ (Nat.lt_succ_self n)

/-- No digit is a carriage return. -/
theorem hexDigit_ne_return : ∀ n < 16, hexDigit n ≠ 13 := by decide

/-- So there is none in a number. -/
theorem return_not_mem_hexDigitsN (f n : Nat) : (13 : UInt8) ∉ hexDigitsN f n := by
  induction f generalizing n with
  | zero => exact List.not_mem_nil
  | succ f ih =>
    rw [hexDigitsN]
    split
    · next hn =>
      rw [List.mem_singleton]
      exact fun h => hexDigit_ne_return n hn h.symm
    · rw [List.mem_append, not_or, List.mem_singleton]
      exact ⟨ih _, fun h => hexDigit_ne_return _ (Nat.mod_lt n (by decide)) h.symm⟩

/-- **Chunks are read back** as what is in them. -/
theorem unchunkN_writeChunks (chunks : List Bytes) (f : Nat)
    (hf : (chunks.flatMap writeChunk).length < f) :
    unchunkN f (writeChunks chunks) = some (chunks.flatten, []) := by
  induction chunks generalizing f with
  | nil =>
    obtain ⟨f, rfl⟩ := Nat.exists_eq_succ_of_ne_zero (Nat.ne_of_gt hf)
    rfl
  | cons chunk chunks ih =>
    by_cases hempty : chunk = []
    · subst hempty
      exact ih f hf
    have hsize : chunk.length ≠ 0 := fun h => hempty (List.length_eq_zero_iff.mp h)
    have hwritten : writeChunk chunk =
        hexDigits chunk.length ++ 13 :: 10 :: (chunk ++ [13, 10]) := if_neg hempty
    rw [List.flatMap_cons, List.length_append, hwritten] at hf
    simp only [List.length_append, List.length_cons] at hf
    obtain ⟨f, rfl⟩ := Nat.exists_eq_succ_of_ne_zero (Nat.ne_of_gt (Nat.lt_of_le_of_lt (Nat.zero_le _) hf))
    have hrest := ih f (by omega)
    have hbytes : writeChunks (chunk :: chunks) =
        hexDigits chunk.length ++ 13 :: 10 :: (chunk ++ 13 :: 10 :: writeChunks chunks) := by
      rw [writeChunks, writeChunks, List.flatMap_cons, hwritten]
      simp only [List.append_assoc, List.cons_append, List.nil_append]
    have hline : readLine (writeChunks (chunk :: chunks)) =
        some (hexDigits chunk.length, chunk ++ 13 :: 10 :: writeChunks chunks) := by
      rw [hbytes]
      exact readLine_append (return_not_mem_hexDigitsN _ _)
    rw [unchunkN, hline]
    dsimp only
    rw [hexSize_hexDigits]
    obtain ⟨n, hn⟩ := Nat.exists_eq_succ_of_ne_zero hsize
    rw [hn]
    show (if _ then _ else _) = _
    have hend : (13 :: 10 :: writeChunks chunks).take 2 = [13, 10] := rfl
    rw [← hn, List.drop_left, List.take_left, if_pos hend]
    have hdrop : (chunk ++ 13 :: 10 :: writeChunks chunks).drop (chunk.length + 2) =
        writeChunks chunks := by
      rw [List.drop_length_add_append]
      rfl
    rw [hdrop, hrest]
    rfl

/-- **A body that was written in chunks** is read whole. -/
theorem unchunk_writeChunks (chunks : List Bytes) :
    unchunk (writeChunks chunks) = some (chunks.flatten, []) := by
  refine unchunkN_writeChunks chunks _ ?_
  rw [writeChunks, List.length_append]
  exact Nat.lt_add_of_pos_right (by decide)

/-- Even without a chunk there is something to read. -/
theorem writeChunks_ne_nil (chunks : List Bytes) : writeChunks chunks ≠ [] := by
  rw [writeChunks]
  simp

end HttpMessage

end Cream.Library
