import Cream.Model.WebSocketFrame

/-!
# The forwarding of messages

Between timeouts that fall between two frames the loop reads every frame as it was written
(`reads_encode`), and its fragments make up the messages that were sent. A timeout inside a
frame throws away what has been read of it: the loop goes on with the rest of the frame as if
a new one began there, and a payload can hold bytes that make up a message of their own.

In the other direction `write` is the encoding of the frame. The array of a buffer is written
whole, so that a binary message is kept exactly if the buffer holds nothing else.
-/

set_option autoImplicit false

namespace Cream.Model

open Cream.Library PercentCoding WebSocketFraming

namespace WebSocketFrame

variable {α β : Type} {x : Reader α} {f : α → Reader β} {bytes more : Bytes} {a : α} {b : β}

/-! ## Reading -/

/-- The bytes are read as a value, and what stands behind them is left. -/
def Reads (x : Reader α) (bytes : Bytes) (a : α) : Prop :=
  ∀ ticks, x (bytes.map some ++ ticks) = (.ok a, ticks)

/-- The bytes break the protocol. -/
def Breaks (x : Reader α) (bytes : Bytes) : Prop :=
  ∀ ticks, (x (bytes.map some ++ ticks)).1 = .error .webSocketException

/-- Nothing is read for a value that is there. -/
theorem reads_pure (a : α) : Reads (Reader.pure a) [] a := fun _ => rfl

/-- What two readers read stands behind each other. -/
theorem Reads.bind (hx : Reads x bytes a) (hf : Reads (f a) more b) :
    Reads (x >>= f) (bytes ++ more) b := by
  intro ticks
  show Reader.bind x f _ = _
  rw [Reader.bind, List.map_append, List.append_assoc, hx]
  exact hf ticks

/-- A last step that reads nothing more. -/
theorem Reads.last (hx : Reads x bytes a) (hf : Reads (f a) [] b) : Reads (x >>= f) bytes b := by
  have h := hx.bind hf
  rwa [List.append_nil] at h

/-- A reader that breaks off behind another does so behind what that has read. -/
theorem Reads.breaks (hx : Reads x bytes a) (hf : Breaks (f a) more) :
    Breaks (x >>= f) (bytes ++ more) := by
  intro ticks
  show (Reader.bind x f _).1 = _
  rw [Reader.bind, List.map_append, List.append_assoc, hx]
  exact hf ticks

/-- Nothing is read after a reader has broken off. -/
theorem Breaks.bind_left (hx : Breaks x bytes) : Breaks (x >>= f) bytes := by
  intro ticks
  have hbreaks := hx ticks
  show (Reader.bind x f _).1 = _
  rw [Reader.bind]
  rcases hread : x (bytes.map some ++ ticks) with ⟨_ | a, rest⟩
  · rw [hread] at hbreaks
    cases hbreaks
    rfl
  · rw [hread] at hbreaks
    cases hbreaks

/-- It breaks off whatever follows. -/
theorem Breaks.append (hx : Breaks x bytes) : Breaks x (bytes ++ more) := by
  intro ticks
  rw [List.map_append, List.append_assoc]
  exact hx _

/-- An exception breaks off at once. -/
theorem breaks_throw : Breaks (Reader.throw .webSocketException : Reader α) [] := fun _ => rfl

/-- One byte is read. -/
theorem reads_byte (b : UInt8) : Reads readByte [b] b := fun _ => rfl

/-- As many bytes are read as there are. -/
theorem reads_bytes (bytes : Bytes) : Reads (readBytes bytes.length) bytes bytes := by
  induction bytes with
  | nil => exact reads_pure []
  | cons b bytes ih =>
    have htail : Reads (readBytes bytes.length >>= fun bytes => Reader.pure (b :: bytes)) bytes
        (b :: bytes) := ih.last (reads_pure (b :: bytes))
    exact (reads_byte b).bind htail

/-- A number of bytes is read where there are that many. -/
theorem reads_bytes_of_length {n : Nat} (h : bytes.length = n) : Reads (readBytes n) bytes bytes :=
  h ▸ reads_bytes bytes

/-! ## The length of a payload -/

/-- The second byte of a frame: its first bit, and the other ones. -/
theorem sizeByte_spec (masked : Bool) {n : Nat} (h : n < 128) :
    decide (128 ≤ (UInt8.ofNat ((if masked then 128 else 0) + n)).toNat) = masked ∧
      (UInt8.ofNat ((if masked then 128 else 0) + n)).toNat % 128 = n := by
  rw [UInt8.toNat_ofNat']
  cases masked
  · refine ⟨decide_eq_false ?_, ?_⟩ <;> simp only [Bool.false_eq_true, if_false] <;> omega
  · refine ⟨decide_eq_true ?_, ?_⟩ <;> simp only [if_true] <;> omega

/-- The bytes of a length behind the second byte. -/
def extension (n : Nat) : Bytes :=
  if n ≤ 125 then [] else if n ≤ 0xffff then be16 n else be64 n

/-- The last seven bits of the second byte. -/
def shortLength (n : Nat) : Nat := if n ≤ 125 then n else if n ≤ 0xffff then 126 else 127

/-- A short length leaves the bit for the mask. -/
theorem shortLength_lt (n : Nat) : shortLength n < 128 := by
  unfold shortLength
  split
  · omega
  split <;> decide

/-- The length field is the mask bit with the short length, and its extension. -/
theorem lengthField_eq (masked : Bool) (n : Nat) : lengthField masked n =
    UInt8.ofNat ((if masked then 128 else 0) + shortLength n) :: extension n := by
  unfold lengthField shortLength extension
  by_cases hsmall : n ≤ 125
  · simp only [if_pos hsmall]
  by_cases hmiddle : n ≤ 0xffff
  · simp only [if_neg hsmall, if_pos hmiddle]
  · simp only [if_neg hsmall, if_neg hmiddle]

/-- A long length has eight bytes. -/
theorem length_be64 (n : Nat) : (be64 n).length = 8 := rfl

/-- The length is read back. -/
theorem reads_length {n : Nat} (h : n ≤ MAX_VALUE) :
    Reads (readLength (shortLength n)) (extension n) n := by
  unfold MAX_VALUE at h
  unfold shortLength extension readLength
  by_cases hsmall : n ≤ 125
  · rw [if_pos hsmall, if_pos hsmall, if_neg (by omega), if_neg (by omega)]
    exact reads_pure n
  by_cases hmiddle : n ≤ 0xffff
  · rw [if_neg hsmall, if_neg hsmall, if_pos hmiddle, if_pos hmiddle, if_pos rfl]
    have hbytes : Reads (readBytes 2) (be16 n) (be16 n) := reads_bytes_of_length rfl
    refine hbytes.last ?_
    rw [number_be16 (by omega), if_neg (by omega)]
    exact reads_pure n
  · rw [if_neg hsmall, if_neg hsmall, if_neg hmiddle, if_neg hmiddle, if_neg (by decide),
      if_pos rfl]
    have hbytes : Reads (readBytes 8) (be64 n) (be64 n) := reads_bytes_of_length (length_be64 n)
    refine hbytes.last ?_
    have hfirst : ((be64 n).getD 0 0).toNat = 0 := by
      show (UInt8.ofNat (n / 256 ^ 7)).toNat = 0
      rw [UInt8.toNat_ofNat']
      omega
    have hfifth : ((be64 n).getD 4 0).toNat < 128 := by
      show (UInt8.ofNat (n / 256 ^ 3)).toNat < 128
      rw [UInt8.toNat_ofNat']
      omega
    rw [number_be64 (by omega), if_neg (by omega), if_neg (by omega),
      if_neg (by unfold MAX_VALUE; omega)]
    exact reads_pure n

/-- A length that no array has ends the loop. -/
theorem breaks_length {n : Nat} (h : MAX_VALUE < n) (hn : n < 2 ^ 63) :
    Breaks (readLength (shortLength n)) (extension n) := by
  unfold MAX_VALUE at h
  have hsmall : ¬n ≤ 125 := by omega
  have hmiddle : ¬n ≤ 0xffff := by omega
  unfold shortLength extension readLength
  rw [if_neg hsmall, if_neg hsmall, if_neg hmiddle, if_neg hmiddle, if_neg (by decide),
    if_pos rfl, ← List.append_nil (be64 n)]
  have hbytes : Reads (readBytes 8) (be64 n) (be64 n) := reads_bytes_of_length (length_be64 n)
  refine hbytes.breaks ?_
  split
  · exact breaks_throw
  rw [number_be64 (by omega), if_neg (by omega), if_pos (by unfold MAX_VALUE; omega)]
  exact breaks_throw

/-- **The length and the mask are read back**, unless the length is none the frame may have. -/
theorem reads_payloadInfo {opCode : OpCode} (key : Option Key) {n : Nat} (h : n ≤ MAX_VALUE)
    (hcontrol : opCode.isControlFrame = true → n ≤ 125) (hclose : opCode = .Close → n ≠ 1) :
    Reads (readPayloadInfo opCode)
      (lengthField key.isSome n ++ (key.map Key.bytes).getD []) (n, key.map Key.bytes) := by
  obtain ⟨hmasked, hshort⟩ := sizeByte_spec key.isSome (shortLength_lt n)
  rw [lengthField_eq, List.cons_append]
  refine (reads_byte _).bind ?_
  rw [hshort]
  refine (reads_length h).bind ?_
  rw [if_neg fun hc => absurd (hcontrol hc.1) (Nat.not_le.mpr hc.2),
    if_neg fun hc => hclose hc.1 hc.2]
  cases key with
  | none =>
    rw [if_neg (of_decide_eq_false hmasked)]
    exact reads_pure _
  | some key =>
    rw [if_pos (of_decide_eq_true hmasked)]
    exact (reads_bytes_of_length key.length_eq).last (reads_pure (n, some key.bytes))

/-- A length beyond the greatest `Int` is refused. -/
theorem breaks_payloadInfo {opCode : OpCode} (key : Option Key) {n : Nat} (h : MAX_VALUE < n)
    (hn : n < 2 ^ 63) : Breaks (readPayloadInfo opCode) (lengthField key.isSome n) := by
  obtain ⟨-, hshort⟩ := sizeByte_spec key.isSome (shortLength_lt n)
  rw [lengthField_eq]
  refine (reads_byte _).breaks ?_
  rw [hshort]
  exact (breaks_length h hn).bind_left

/-! ## A frame -/

/-- What `read` asks of a frame. -/
structure Readable (frame : Frame) : Prop where
  fin : frame.opCode.isControlFrame = true → frame.fin = true
  control : frame.opCode.isControlFrame = true → frame.payload.length ≤ 125
  close : frame.opCode = .Close → frame.payload.length ≠ 1
  size : frame.payload.length < 2 ^ 63

/-- A frame is its head, its length and mask, and its payload. -/
theorem encode_eq (key : Option Key) (frame : Frame) : encode key frame =
    [headByte frame.fin frame.opCode] ++
      ((lengthField key.isSome frame.payload.length ++ (key.map Key.bytes).getD []) ++
        match key with
        | some key => mask key.bytes frame.payload
        | none => frame.payload) := by
  unfold encode
  cases key with
  | none => simp
  | some key => simp

/-- **A frame is read as it was written.**
SOURCE: WebSocketFrame.java:64-85, 217-278 -/
theorem reads_encode {frame : Frame} (h : Readable frame)
    (hsize : frame.payload.length ≤ MAX_VALUE) (key : Option Key) :
    Reads read (encode key frame) frame := by
  obtain ⟨hfin, hreserved, hfind⟩ := headByte_spec frame.fin frame.opCode
  rw [encode_eq]
  refine (reads_byte _).bind ?_
  dsimp only
  rw [if_neg (by rw [hreserved]; decide), hfin, hfind]
  dsimp only
  have hcontrol : (frame.opCode.isControlFrame && !frame.fin) = false := by
    cases hc : frame.opCode.isControlFrame with
    | false => rfl
    | true => rw [h.fin hc]; rfl
  rw [if_neg (by rw [hcontrol]; decide)]
  refine (reads_payloadInfo key hsize h.control h.close).bind ?_
  refine Reads.last ?_ (reads_pure frame)
  cases key with
  | none => exact (reads_bytes frame.payload).last (reads_pure frame.payload)
  | some key =>
    refine (reads_bytes_of_length (length_mask key.bytes frame.payload)).last ?_
    show Reads (Reader.pure (mask key.bytes (mask key.bytes frame.payload))) [] frame.payload
    rw [mask_mask]
    exact reads_pure frame.payload

/-- A frame that is too long ends the loop. -/
theorem breaks_encode {frame : Frame} (h : Readable frame)
    (hsize : MAX_VALUE < frame.payload.length) (key : Option Key) :
    Breaks read (encode key frame) := by
  obtain ⟨hfin, hreserved, hfind⟩ := headByte_spec frame.fin frame.opCode
  rw [encode_eq]
  refine (reads_byte _).breaks ?_
  dsimp only
  rw [if_neg (by rw [hreserved]; decide), hfin, hfind]
  dsimp only
  have hcontrol : (frame.opCode.isControlFrame && !frame.fin) = false := by
    cases hc : frame.opCode.isControlFrame with
    | false => rfl
    | true => rw [h.fin hc]; rfl
  rw [if_neg (by rw [hcontrol]; decide)]
  exact ((breaks_payloadInfo key hsize h.size).append.append).bind_left

/-- **`write` is the encoding of the frame.**
SOURCE: WebSocketFrame.java:330-370 -/
theorem write_eq_encode {frame : Frame} (h : frame.payload.length ≤ MAX_VALUE) :
    write frame = encode none frame := by
  unfold MAX_VALUE at h
  have hzero : ∀ k, 2 ^ 31 ≤ k → UInt8.ofNat (frame.payload.length / k) = 0 := by
    intro k hk
    rw [Nat.div_eq_of_lt (by omega)]
    rfl
  unfold write encode lengthField headByte be16 be64
  simp only [Option.isSome_none, Bool.false_eq_true, if_false, Nat.zero_add,
    Nat.shiftRight_eq_div_pow]
  by_cases hsmall : frame.payload.length ≤ 125
  · rw [if_pos hsmall, if_pos hsmall]
  by_cases hmiddle : frame.payload.length ≤ 0xffff
  · rw [if_neg hsmall, if_neg hsmall, if_pos hmiddle, if_pos hmiddle]
    rfl
  · rw [if_neg hsmall, if_neg hsmall, if_neg hmiddle, if_neg hmiddle,
      hzero (256 ^ 7) (by decide), hzero (256 ^ 6) (by decide), hzero (256 ^ 5) (by decide),
      hzero (256 ^ 4) (by decide)]
    rfl

end WebSocketFrame

namespace WebSocketLoop

open WebSocketFrame

/-! ## Towards Moonraker -/

/-- The message that is passed to the remote client. -/
def Sent.message : Sent → OpCode × Bytes
  | .text message => (.Text, utf8Encode message)
  | .binary payload => (.Binary, payload)

/-- The texts of a client are UTF-8. -/
def TextsDecode (sent : List (OpCode × Bytes)) : Prop :=
  ∀ m ∈ sent, m.1 = .Text → ∃ t, m.2 = utf8Encode t

/-- Frames, each with its key and the timeouts before its first byte, and the timeouts behind
the last one. -/
def paced (items : List (Nat × Key × Frame)) (after : Nat) : List Tick :=
  (items.flatMap fun (before, key, frame) =>
    List.replicate before none ++ (encode (some key) frame).map some) ++ List.replicate after none

/-- The loop has the fragments of the message that has been started. -/
structure Holds (s : Fragments) (started : Option (OpCode × Bytes)) : Prop where
  opCode : s.continuousOpCode = started.map Prod.fst
  payload : ∀ op front, started = some (op, front) → s.continuousFrames.flatMap Frame.payload = front
  data : ∀ op front, started = some (op, front) → op = .Text ∨ op = .Binary

/-- No message has been started. -/
theorem holds_none : Holds ⟨none, []⟩ none := ⟨rfl, nofun, nofun⟩

/-- The browser is sent the message, a text as text. -/
theorem message_onMessage {op : OpCode} {payload : Bytes} (h : op = .Text ∨ op = .Binary)
    (htext : op = .Text → ∃ t, payload = utf8Encode t) :
    (onMessage op payload).message = (op, payload) := by
  rcases h with rfl | rfl
  · obtain ⟨t, rfl⟩ := htext rfl
    show (OpCode.Text, utf8Encode (utf8Decode (utf8Encode t))) = _
    rw [utf8Decode_utf8Encode]
  · rfl

/-- A frame that is neither a control frame nor a continuation begins a message. -/
theorem data_of_not_control {op : OpCode} (h : op.isControlFrame = false)
    (hne : op ≠ .Continuation) : op = .Text ∨ op = .Binary := by
  cases op with
  | Continuation => exact absurd rfl hne
  | Text => exact .inl rfl
  | Binary => exact .inr rfl
  | Close => cases h
  | Ping => cases h
  | Pong => cases h

/-- Control frames leave the fragments alone. -/
theorem handle_control (s : Fragments) {frame : Frame} (h : frame.opCode.isControlFrame = true) :
    handleWebsocketFrame s frame = some (s, none) := by
  unfold handleWebsocketFrame
  cases hop : frame.opCode with
  | Close => rfl
  | Ping => rfl
  | Pong => rfl
  | Continuation => rw [hop] at h; cases h
  | Text => rw [hop] at h; cases h
  | Binary => rw [hop] at h; cases h

/-- What `handleWebsocketFrame` makes of a data frame. -/
inductive Handled (s : Fragments) (frame : Frame) (whole : OpCode × Bytes) : Prop
  | tooBig (h : handleWebsocketFrame s frame = none)
  | complete (s' : Fragments) (h : handleWebsocketFrame s frame = some (s', some whole))
      (hfin : frame.fin = true) (hs : Holds s' none)
  | fragment (s' : Fragments) (h : handleWebsocketFrame s frame = some (s', none))
      (hfin : frame.fin = false) (hs : Holds s' (some whole))

/-- The first frame of a message. -/
theorem handled_first {s : Fragments} {frame : Frame} (hs : Holds s none)
    (hop : frame.opCode = .Text ∨ frame.opCode = .Binary) :
    Handled s frame (frame.opCode, frame.payload) := by
  have hnone : s.continuousOpCode = none := hs.opCode
  cases hfin : frame.fin with
  | true =>
    refine .complete s ?_ hfin hs
    unfold handleWebsocketFrame
    rcases hop with hop | hop <;> rw [hop] <;> simp [hfin, hnone]
  | false =>
    refine .fragment ⟨some frame.opCode, [frame]⟩ ?_ hfin ⟨rfl, ?_, ?_⟩
    · unfold handleWebsocketFrame handleFrameFragment
      rcases hop with hop | hop <;> rw [hop] <;> simp [hfin, hnone]
    · rintro op front heq
      cases heq
      simp
    · rintro op front heq
      cases heq
      exact hop

/-- A further frame of a message. -/
theorem handled_continuation {s : Fragments} {frame : Frame} {op : OpCode} {front : Bytes}
    (hs : Holds s (some (op, front))) (hop : frame.opCode = .Continuation) :
    Handled s frame (op, front ++ frame.payload) := by
  have hstarted : s.continuousOpCode = some op := hs.opCode
  have hpayload : (s.continuousFrames ++ [frame]).flatMap Frame.payload =
      front ++ frame.payload := by
    rw [List.flatMap_append, hs.payload op front rfl]
    simp
  have hhandle : handleWebsocketFrame s frame =
      if frame.fin then
        if MAX_VALUE < ((s.continuousFrames ++ [frame]).flatMap Frame.payload).length then none
        else some (⟨none, []⟩, some (op, (s.continuousFrames ++ [frame]).flatMap Frame.payload))
      else some (⟨some op, s.continuousFrames ++ [frame]⟩, none) := by
    unfold handleWebsocketFrame handleFrameFragment
    rw [hop, hstarted]
    simp
  cases hfin : frame.fin with
  | true =>
    rw [hfin, if_pos rfl, hpayload] at hhandle
    split at hhandle
    · exact .tooBig hhandle
    · exact .complete _ hhandle hfin holds_none
  | false =>
    rw [hfin, if_neg (by decide)] at hhandle
    refine .fragment _ hhandle hfin ⟨rfl, ?_, ?_⟩
    · rintro op' front' heq
      cases heq
      exact hpayload
    · rintro op' front' heq
      cases heq
      exact hs.data op front rfl

/-- A data frame extends the message, and ends it if it is the final one. -/
theorem messages_data {started : Option (OpCode × Bytes)} {frame : Frame} {frames : List Frame}
    (h : frame.opCode.isControlFrame = false) : messages started (frame :: frames) =
      if frame.fin then extended started frame :: messages none frames
      else messages (some (extended started frame)) frames := by
  rw [messages, h, if_neg (by decide)]

/-- A control frame is no part of a message. -/
theorem messages_control {started : Option (OpCode × Bytes)} {frame : Frame}
    {frames : List Frame} (h : frame.opCode.isControlFrame = true) :
    messages started (frame :: frames) = messages started frames := by
  rw [messages, h, if_pos rfl]

/-- A data frame that may come next. -/
theorem handled_data {s : Fragments} {started : Option (OpCode × Bytes)} {frame : Frame}
    {frames : List Frame} (hs : Holds s started) (hdata : frame.opCode.isControlFrame = false)
    (hformed : WellFormed started (frame :: frames)) :
    Handled s frame (extended started frame) ∧
      ((extended started frame).1 = .Text ∨ (extended started frame).1 = .Binary) ∧
        WellFormed (if frame.fin then none else some (extended started frame)) frames := by
  rw [WellFormed, hdata, if_neg (by decide)] at hformed
  obtain ⟨-, hformed⟩ := hformed
  cases started with
  | none =>
    have hop := data_of_not_control hdata fun hop => nomatch hformed.1.mp hop
    exact ⟨handled_first hs hop, hop, hformed.2⟩
  | some whole =>
    obtain ⟨op, front⟩ := whole
    exact ⟨handled_continuation hs (hformed.1.mpr rfl), hs.data op front rfl, hformed.2⟩

/-- The first of well-formed frames can be read. -/
theorem readable_of_wellFormed {started : Option (OpCode × Bytes)} {frame : Frame}
    {frames : List Frame} (h : WellFormed started (frame :: frames)) : Readable frame := by
  rw [WellFormed] at h
  obtain ⟨hsize, h⟩ := h
  cases hcontrol : frame.opCode.isControlFrame with
  | true =>
    rw [hcontrol, if_pos rfl] at h
    exact ⟨fun _ => h.1, fun _ => h.2.1, h.2.2.1, hsize⟩
  | false =>
    refine ⟨fun hc => ?_, fun hc => ?_, fun hc => ?_, hsize⟩
    · rw [hcontrol] at hc; cases hc
    · rw [hcontrol] at hc; cases hc
    · rw [hc] at hcontrol; cases hcontrol

/-- **What is passed on is a beginning of what was sent.** -/
theorem forwarded_isPrefix (turns : List Bool) (items : List (Nat × Key × Frame)) (after : Nat)
    {s : Fragments} {started : Option (OpCode × Bytes)} (hs : Holds s started)
    (hformed : WellFormed started (items.map fun i => i.2.2))
    (htexts : TextsDecode (messages started (items.map fun i => i.2.2))) :
    (readWebsocket turns s (paced items after)).map Sent.message <+:
      messages started (items.map fun i => i.2.2) := by
  induction turns generalizing items after s started with
  | nil => exact List.nil_prefix
  | cons isOpen turns ih =>
    cases items with
    | nil =>
      -- timeouts behind the last frame, and the end of the stream
      cases after with
      | zero => exact ih [] 0 hs hformed htexts
      | succ after => exact ih [] after hs hformed htexts
    | cons item items =>
      obtain ⟨before, key, frame⟩ := item
      cases before with
      | succ before => exact ih ((before, key, frame) :: items) after hs hformed htexts
      | zero =>
        have hreadable := readable_of_wellFormed hformed
        have hpaced : paced ((0, key, frame) :: items) after =
            (encode (some key) frame).map some ++ paced items after := by
          unfold paced
          rw [List.flatMap_cons, List.append_assoc]
          rfl
        rw [hpaced]
        by_cases hsize : frame.payload.length ≤ MAX_VALUE
        · rw [readWebsocket, reads_encode hreadable hsize (some key)]
          dsimp only
          cases hcontrol : frame.opCode.isControlFrame with
          | true =>
            rw [List.map_cons, messages_control hcontrol] at htexts ⊢
            rw [List.map_cons, WellFormed, hcontrol, if_pos rfl] at hformed
            rw [handle_control s hcontrol]
            dsimp only
            split
            · exact List.nil_prefix
            · exact ih items after hs hformed.2.2.2.2 htexts
          | false =>
            obtain ⟨hhandled, hop, hnext⟩ := handled_data hs hcontrol hformed
            rw [List.map_cons, messages_data hcontrol] at htexts ⊢
            cases hhandled with
            | tooBig h =>
              rw [h]
              exact List.nil_prefix
            | complete s' h hfin hs' =>
              rw [hfin, if_pos rfl] at htexts hnext ⊢
              rw [h]
              dsimp only
              cases isOpen with
              | false => exact List.nil_prefix
              | true =>
                rw [if_pos rfl, List.map_cons, message_onMessage hop
                  (htexts _ List.mem_cons_self)]
                refine List.cons_prefix_cons.mpr ⟨rfl, ih items after hs' hnext ?_⟩
                exact fun m hm => htexts m (List.mem_cons_of_mem _ hm)
            | fragment s' h hfin hs' =>
              rw [hfin, if_neg (by decide)] at htexts hnext ⊢
              rw [h]
              dsimp only
              have hnotClose : frame.opCode ≠ .Close := by
                intro hc
                rw [hc] at hcontrol
                cases hcontrol
              rw [if_neg hnotClose]
              exact ih items after hs' hnext htexts
        · have hbreaks := breaks_encode hreadable (Nat.lt_of_not_le hsize) (some key)
            (paced items after)
          rw [readWebsocket]
          rcases hread : read ((encode (some key) frame).map some ++ paced items after)
            with ⟨result, rest⟩
          rw [hread] at hbreaks
          dsimp only at hbreaks
          subst hbreaks
          exact List.nil_prefix

/-! ## Towards the browser -/

/-- The message that the remote client delivers. -/
def Outgoing.message : Outgoing → Option (OpCode × Bytes)
  | .text message => some (.Text, utf8Encode message)
  | .binary array position limit => some (.Binary, (array.take limit).drop position)
  | .pong _ => none

/-- What the language and the protocol grant: arrays are no longer than an `int` can say, and
a ping has at most 125 bytes. -/
def Outgoing.Sized (o : Outgoing) : Prop :=
  o.frame.payload.length ≤ MAX_VALUE ∧ ∀ payload, o = .pong payload → payload.length ≤ 125

/-- The array of a buffer holds the message and nothing else. -/
def Outgoing.Exact : Outgoing → Prop
  | .binary array position limit => (array.take limit).drop position = array
  | _ => True

/-- The browser is sent whole frames, and the messages in them are those delivered. -/
def Delivered (outgoing : List Outgoing) : Prop :=
  ∃ frames, written outgoing = frames.flatMap (encode none) ∧ WellFormed none frames ∧
    (∀ frame ∈ frames, frame.payload.length ≤ MAX_VALUE) ∧
      messages none frames = outgoing.filterMap Outgoing.message

/-- What is written are frames behind each other. -/
theorem written_eq {outgoing : List Outgoing} (h : ∀ o ∈ outgoing, o.Sized) :
    written outgoing = (outgoing.map Outgoing.frame).flatMap (encode none) := by
  unfold written
  rw [List.flatMap_map]
  exact List.flatMap_congr fun o ho => write_eq_encode (h o ho).1

/-- They are well formed. -/
theorem wellFormed_frames {outgoing : List Outgoing} (h : ∀ o ∈ outgoing, o.Sized) :
    WellFormed none (outgoing.map Outgoing.frame) := by
  induction outgoing with
  | nil => trivial
  | cons o outgoing ih =>
    obtain ⟨ho, houtgoing⟩ := List.forall_mem_cons.mp h
    have hsize : o.frame.payload.length < 2 ^ 63 :=
      Nat.lt_of_le_of_lt ho.1 (by decide)
    rw [List.map_cons, WellFormed]
    refine ⟨hsize, ?_⟩
    cases o with
    | text message => exact ⟨⟨nofun, nofun⟩, ih houtgoing⟩
    | binary array position limit => exact ⟨⟨nofun, nofun⟩, ih houtgoing⟩
    | pong payload => exact ⟨rfl, ho.2 payload rfl, nofun, ih houtgoing⟩

/-- **Frames can be told apart**: their bytes say what they are. -/
theorem encode_injective {a b : List Frame} {s t : Option (OpCode × Bytes)}
    (ha : WellFormed s a) (hb : WellFormed t b)
    (hsa : ∀ frame ∈ a, frame.payload.length ≤ MAX_VALUE)
    (hsb : ∀ frame ∈ b, frame.payload.length ≤ MAX_VALUE)
    (h : a.flatMap (encode none) = b.flatMap (encode none)) : a = b := by
  have hnext : ∀ {s : Option (OpCode × Bytes)} {f : Frame} {frames : List Frame},
      WellFormed s (f :: frames) → ∃ s', WellFormed s' frames := by
    intro s f frames hf
    rw [WellFormed] at hf
    obtain ⟨-, hf⟩ := hf
    split at hf
    · exact ⟨_, hf.2.2.2⟩
    · exact ⟨_, hf.2⟩
  induction a generalizing b s t with
  | nil =>
    cases b with
    | nil => rfl
    | cons g b => simp [encode] at h
  | cons f a ih =>
    cases b with
    | nil => simp [encode] at h
    | cons g b =>
      obtain ⟨hf, hsizea⟩ := List.forall_mem_cons.mp hsa
      obtain ⟨hg, hsizeb⟩ := List.forall_mem_cons.mp hsb
      rw [List.flatMap_cons, List.flatMap_cons] at h
      have hread : read ((encode none f ++ a.flatMap (encode none)).map some) =
          read ((encode none g ++ b.flatMap (encode none)).map some) := by rw [h]
      rw [List.map_append, List.map_append, reads_encode (readable_of_wellFormed ha) hf none,
        reads_encode (readable_of_wellFormed hb) hg none] at hread
      obtain ⟨hframe, hrest⟩ := Prod.mk.inj hread
      obtain rfl := Except.ok.inj hframe
      obtain ⟨s', ha'⟩ := hnext ha
      obtain ⟨t', hb'⟩ := hnext hb
      rw [ih ha' hb' hsizea hsizeb (List.append_cancel_left h)]

/-- **They carry the messages** that were to be sent exactly when each frame carries its own. -/
theorem messages_frames_iff (outgoing : List Outgoing) :
    messages none (outgoing.map Outgoing.frame) = outgoing.filterMap Outgoing.message ↔
      ∀ o ∈ outgoing, o.Exact := by
  induction outgoing with
  | nil => exact ⟨fun _ _ h => (List.not_mem_nil h).elim, fun _ => rfl⟩
  | cons o outgoing ih =>
    rw [List.map_cons, List.forall_mem_cons, ← ih]
    cases o with
    | text message =>
      show (_ :: _) = (_ :: _) ↔ _
      rw [List.cons.injEq]
      exact ⟨fun h => ⟨trivial, h.2⟩, fun h => ⟨rfl, h.2⟩⟩
    | binary array position limit =>
      show (_ :: _) = (_ :: _) ↔ _
      rw [List.cons.injEq]
      exact ⟨fun h => ⟨(congrArg Prod.snd h.1).symm, h.2⟩,
        fun h => ⟨congrArg (Prod.mk OpCode.Binary) (Eq.symm h.1), h.2⟩⟩
    | pong payload => exact ⟨fun h => ⟨trivial, h⟩, fun h => h.2⟩

/-- **What is delivered is written.** -/
theorem delivered_iff {outgoing : List Outgoing} (h : ∀ o ∈ outgoing, o.Sized) :
    Delivered outgoing ↔ ∀ o ∈ outgoing, o.Exact := by
  have hsize : ∀ frame ∈ outgoing.map Outgoing.frame, frame.payload.length ≤ MAX_VALUE := by
    intro frame hframe
    obtain ⟨o, ho, rfl⟩ := List.mem_map.mp hframe
    exact (h o ho).1
  rw [← messages_frames_iff]
  constructor
  · rintro ⟨frames, hwritten, hformed, hsizes, hmessages⟩
    rw [written_eq h] at hwritten
    rw [encode_injective (wellFormed_frames h) hformed hsize hsizes hwritten]
    exact hmessages
  · intro hmessages
    exact ⟨_, written_eq h, wellFormed_frames h, hsize, hmessages⟩

/-- **The forwarding of messages.** When no timeout falls inside a frame, the messages passed
to the remote client are a beginning of those the browser sends; and those the remote client
delivers reach the browser exactly if the arrays of the buffers hold nothing else.
SOURCE: WebSocket.java:177-252, WebSocketFrame.java:64-85, 217-278, WebService.kt:622-699 -/
theorem messages_forwarded (items : List (Nat × Key × Frame)) (after : Nat) (turns : List Bool)
    (outgoing : List Outgoing) (hformed : WellFormed none (items.map fun i => i.2.2))
    (htexts : TextsDecode (messages none (items.map fun i => i.2.2)))
    (hsized : ∀ o ∈ outgoing, o.Sized) :
    (readWebsocket turns ⟨none, []⟩ (paced items after)).map Sent.message <+:
        messages none (items.map fun i => i.2.2) ∧
      (Delivered outgoing ↔ ∀ o ∈ outgoing, o.Exact) :=
  ⟨forwarded_isPrefix turns items after holds_none hformed htexts, delivered_iff hsized⟩

/-- The key of four zeros. -/
def zeroKey : Key := ⟨[0, 0, 0, 0], rfl⟩

/-- A binary message whose payload is the bytes of an empty masked one. -/
def nestedFrame : Frame := ⟨true, .Binary, encode (some zeroKey) ⟨true, .Binary, []⟩⟩

/-- Sent without a timeout inside the frame, the message arrives. -/
theorem messages_forwarded_nested :
    (readWebsocket [true, true] ⟨none, []⟩ (paced [(1, zeroKey, nestedFrame)] 0)).map
      Sent.message <+: messages none [nestedFrame] := by
  refine (messages_forwarded [(1, zeroKey, nestedFrame)] 0 [true, true] [] ?_ ?_ nofun).1
  · exact ⟨by decide +kernel, ⟨nofun, nofun⟩, trivial⟩
  · intro m hm htext
    have hall : ∀ m ∈ messages none [nestedFrame], m.1 ≠ .Text := by decide +kernel
    exact absurd htext (hall m hm)

/-- A timeout behind the masking key: the payload is read as a frame of its own.
SOURCE: WebSocket.java:226-247 -/
theorem messages_not_forwarded :
    ¬∀ (sent : List (Key × Frame)) (ticks : List Tick) (turns : List Bool),
      ticks.reduceOption = sent.flatMap (fun i => encode (some i.1) i.2) →
        WellFormed none (sent.map Prod.snd) → TextsDecode (messages none (sent.map Prod.snd)) →
          (readWebsocket turns ⟨none, []⟩ ticks).map Sent.message <+:
            messages none (sent.map Prod.snd) := by
  intro h
  have hinvented := h [(zeroKey, nestedFrame)]
    (((encode (some zeroKey) nestedFrame).take 6).map some ++ none ::
      ((encode (some zeroKey) nestedFrame).drop 6).map some) [true, true, true]
    (by decide +kernel) ⟨by decide +kernel, ⟨nofun, nofun⟩, trivial⟩ (by
      intro m hm htext
      have hall : ∀ m ∈ messages none [nestedFrame], m.1 ≠ .Text := by decide +kernel
      exact absurd htext (hall m hm))
  revert hinvented
  decide +kernel

end WebSocketLoop

end Cream.Model
