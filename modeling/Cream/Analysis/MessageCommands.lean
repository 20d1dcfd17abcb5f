import Cream.Analysis.MessageInts
import Cream.Model.Command

/-!
# Commands from the host to their handlers

The host encodes a command by the format that the firmware announced; the firmware finds the
handler by the number at the start of the message and the arguments by the parameter types it was
compiled with. The number has a second form that the host works with, and the way from one form
to the other and back is the identity for all numbers but the last 32 (`msgid_parsed_iff`). Where
formats and parsers agree, running a block is running the commands the host put into it, one
after the other (`block_executed`).

SOURCE: src/app/src/main/klipper/src/command.c:84-130, 329-347
SOURCE: src/app/src/main/klipper/klippy/msgproto.py:37-187, scripts/buildcommands.py:284-299
-/

set_option autoImplicit false

namespace Cream.Analysis.MessageCommands

open Cream.Library Cream.Model Cream.Model.Command Vlq PercentCoding MessageInts Msgblock
open Msgproto (MessageFormat Codec ParamType Value)

/-! ## Message ids -/

/-- The groups in which the firmware sends a number. -/
def idGroups (cmdid : Nat) : List Nat := if cmdid < 128 then [cmdid] else [cmdid / 128, cmdid % 128]

/-- A group of an id is below 128. -/
theorem idGroups_lt {cmdid : Nat} (h : cmdid < 2 ^ 14) : ∀ d ∈ idGroups cmdid, d < 128 := by
  unfold idGroups
  split
  · simpa
  · simp only [List.mem_cons, List.not_mem_nil, or_false, forall_eq_or_imp, forall_eq]
    omega

/-- An id has a group. -/
theorem idGroups_ne_nil (cmdid : Nat) : idGroups cmdid ≠ [] := by
  unfold idGroups
  split <;> simp

/-- The host's form of a number is what its groups stand for. -/
theorem convertEncodedMsgid_eq {cmdid : Nat} (h : cmdid < 2 ^ 14) :
    Msgproto.convertEncodedMsgid cmdid = some (value (idGroups cmdid)) := by
  have hdata : (if cmdid ≥ 0x80 then [(cmdid >>> 7) ||| 0x80, cmdid &&& 0x7f] else [cmdid]).map
      UInt8.ofNat = continued (idGroups cmdid) := by
    have hand : cmdid &&& 0x7f = cmdid % 128 := Nat.and_two_pow_sub_one_eq_mod cmdid 7
    have hor : (cmdid >>> 7) ||| 0x80 = cmdid / 128 + 128 := by
      have hsum := Nat.two_pow_add_eq_or_of_lt (i := 7) (b := cmdid / 2 ^ 7) (by omega) 1
      rw [Nat.shiftRight_eq_div_pow, Nat.or_comm]
      simp only [mul_one, Nat.reducePow] at hsum ⊢
      omega
    unfold idGroups
    by_cases hsmall : cmdid < 128
    · rw [if_neg (by omega), if_pos hsmall]
      rfl
    · rw [if_pos (by omega), if_neg hsmall, hand, hor]
      rfl
  have hread := read_value (idGroups_ne_nil cmdid) (idGroups_lt h) []
  rw [List.append_nil] at hread
  unfold Msgproto.convertEncodedMsgid
  dsimp only
  rw [hdata, parseInt_eq, readInt, hread]
  rfl

/-- The groups of an id are read back. -/
theorem parseMsgid_idGroups {cmdid : Nat} (h : cmdid < 2 ^ 14) (p : Bytes) :
    parseMsgid (continued (idGroups cmdid) ++ p) = some (cmdid, p) := by
  unfold idGroups
  split
  · next hsmall =>
    have hbyte : (UInt8.ofNat cmdid).toNat = cmdid := by
      simp
      omega
    rw [continued, List.singleton_append]
    simp only [parseMsgid, (and_128_eq_zero_iff (UInt8.ofNat cmdid)).mpr (by omega), if_true, hbyte]
  · next hlarge =>
    have hhigh : (UInt8.ofNat (cmdid / 128 + 128)).toNat = cmdid / 128 + 128 := by
      simp
      omega
    have hlow : (UInt8.ofNat (cmdid % 128)).toNat = cmdid % 128 := by
      simp
      omega
    have hmod : (cmdid / 128 + 128) % 128 = cmdid / 128 := by omega
    have hsum := Nat.two_pow_add_eq_or_of_lt (i := 7) (b := cmdid % 128) (by omega) (cmdid / 128)
    rw [continued, continued, List.cons_append, List.singleton_append]
    · have hcontinued : ¬UInt8.ofNat (cmdid / 128 + 128) &&& 0x80 = 0 :=
        mt (and_128_eq_zero_iff _).mp (by omega)
      simp only [parseMsgid, hcontinued, if_false]
      rw [toNat_and_127, hhigh, hmod, hlow, Nat.shiftLeft_eq, mul_comm, ← hsum]
      congr 2
      omega
    · simp

/-- The number the firmware finds in a message of the host is the one it was made for, unless it is
one of the last 32. -/
theorem msgid_parsed {cmdid : Nat} (h : cmdid < 2 ^ 14) {msgid : Int}
    (hmsgid : Msgproto.convertEncodedMsgid cmdid = some msgid) (p : Bytes) :
    parseMsgid (Msgproto.encodeInt msgid ++ p) = some (cmdid, p) ↔ cmdid < 16352 := by
  rw [convertEncodedMsgid_eq h, Option.some.injEq] at hmsgid
  -- the host writes the groups it read, but for the numbers of which it needs only one
  have hgroups : digits (size 4 msgid) msgid =
      if cmdid < 16352 then idGroups cmdid else [cmdid % 128] := by
    rw [← hmsgid, size_four]
    unfold idGroups
    by_cases hsmall : cmdid < 128
    · have hfits : Fits 0 (value [cmdid]) := by
        simp only [value, List.foldl_nil, signed, Fits]
        split <;> omega
      rw [if_pos hsmall, if_pos hfits, if_pos (by omega), digits]
      simp only [value, List.foldl_nil, signed, List.cons.injEq, and_true]
      split <;> omega
    · rw [if_neg hsmall]
      have hvalue : value [cmdid / 128, cmdid % 128] =
          (if cmdid / 128 < 96 then ((cmdid / 128 : Nat) : Int) else (cmdid / 128 : Nat) - 128) *
            128 + (cmdid % 128 : Nat) := rfl
      have hzero : Fits 0 (value [cmdid / 128, cmdid % 128]) ↔ ¬cmdid < 16352 := by
        rw [hvalue]
        unfold Fits
        split <;> omega
      have hone : Fits 1 (value [cmdid / 128, cmdid % 128]) := by
        rw [hvalue]
        unfold Fits
        split <;> omega
      by_cases hlast : cmdid < 16352
      · rw [if_neg (by rw [hzero]; exact not_not.mpr hlast), if_pos hone, if_pos hlast, digits,
          digits, hvalue]
        simp only [List.singleton_append, List.cons.injEq, and_true]
        constructor
        · split <;> omega
        · split <;> omega
      · rw [if_pos (hzero.mpr hlast), if_neg hlast, digits, hvalue]
        simp only [List.cons.injEq, and_true]
        split <;> omega
  rw [encodeInt_eq, hgroups]
  split
  · next hlast => exact iff_of_true (parseMsgid_idGroups h p) hlast
  · next hlast =>
    have hone : continued [cmdid % 128] = continued (idGroups (cmdid % 128)) := by
      rw [idGroups, if_pos (by omega)]
    rw [hone, parseMsgid_idGroups (by omega)]
    simp only [Option.some.injEq, Prod.mk.injEq, and_true]
    omega

/-- **For which numbers the two forms agree**: a message of the host is taken for the command it
was made for, unless the number is one of the last 32. -/
theorem msgid_parsed_iff {cmdid : Nat} (h : cmdid < 2 ^ 14) (p : Bytes) :
    (∃ msgid, Msgproto.convertEncodedMsgid cmdid = some msgid ∧
      parseMsgid (Msgproto.encodeInt msgid ++ p) = some (cmdid, p)) ↔ cmdid < 16352 := by
  have hmsgid := convertEncodedMsgid_eq h
  constructor
  · rintro ⟨msgid, hconvert, hparse⟩
    exact (msgid_parsed h hconvert p).mp hparse
  · intro hlast
    exact ⟨_, hmsgid, (msgid_parsed h hmsgid p).mpr hlast⟩

/-- The first id that is not parsed. -/
theorem msgid_parsed_iff_last :
    (∃ msgid, Msgproto.convertEncodedMsgid 16352 = some msgid ∧
      parseMsgid (Msgproto.encodeInt msgid ++ [0]) = some (16352, [0])) ↔ 16352 < 16352 :=
  msgid_parsed_iff (by norm_num) [0]

/-! ## Arguments -/

/-- What a handler is given for a value: 32 bits of an integer; of bytes their number, and a
pointer to them. -/
def Passed (t : Codec) (v : Value) (args : List Arg) : Prop :=
  match t.enums, v with
  | none, .int v => args = [.int (UInt32.ofInt v)]
  | none, .bytes v => ∃ p, args = [.int (UInt32.ofNat v.length), .ptr p] ∧ p.take v.length = v
  | some enums, .name key => ∃ v, enums.lookup key = some v ∧ args = [.int (UInt32.ofInt v)]
  | _, _ => False

/-- What a handler is given for the values of a message. -/
def PassedAll : List (Text × Codec) → List Value → List Arg → Prop
  | [], _, args => args = []
  | _ :: _, [], _ => False
  | (_, t) :: params, v :: values, args =>
    ∃ a b, args = a ++ b ∧ Passed t v a ∧ PassedAll params values b

/-- The types that the firmware takes in a command. -/
def Taken (pt : ParamType) : Prop := pt.isInt ∨ pt = .buffer

/-- **An integer is passed** in 32 bits. -/
theorem parsef_isInt {pt : ParamType} (h : pt.isInt) (paramTypes : List ParamType) (v : Int)
    {rest : Bytes} (hrest : MESSAGE_TRAILER_SIZE ≤ rest.length) :
    parsef (pt :: paramTypes) (Msgproto.encodeInt v ++ rest) =
      (parsef paramTypes rest).map fun r => (.int (UInt32.ofInt v) :: r.1, r.2) := by
  have hlong : ¬(Msgproto.encodeInt v ++ rest).length < MESSAGE_TRAILER_SIZE := by
    rw [List.length_append]
    omega
  have hparse := encodeInt_parsed v rest
  cases pt with
  | string => cases h
  | progmemBuffer => cases h
  | buffer => cases h
  | uint32 | int32 | uint16 | int16 | byte =>
    simp only [parsef, hlong, if_false, hparse, Option.bind_eq_bind, Option.bind_some]
    cases parsef paramTypes rest <;> rfl

/-- **A buffer is passed** as its length and where it begins. -/
theorem parsef_buffer (paramTypes : List ParamType) {v : Bytes} (hv : v.length < 256)
    {rest : Bytes} (hrest : MESSAGE_TRAILER_SIZE ≤ rest.length) :
    parsef (.buffer :: paramTypes) (UInt8.ofNat v.length :: v ++ rest) =
      (parsef paramTypes rest).map fun r =>
        (.int (UInt32.ofNat v.length) :: .ptr (v ++ rest) :: r.1, r.2) := by
  have hlen : (UInt8.ofNat v.length).toNat = v.length := by
    simp
    omega
  have hlen32 : (UInt8.ofNat v.length).toUInt32 = UInt32.ofNat v.length := by
    apply UInt32.toNat_inj.mp
    rw [UInt8.toNat_toUInt32, hlen]
    simp
    omega
  have hlong : ¬(UInt8.ofNat v.length :: (v ++ rest)).length < MESSAGE_TRAILER_SIZE := by
    rw [List.length_cons, List.length_append]
    omega
  have hfits : ¬(v ++ rest).length < v.length + MESSAGE_TRAILER_SIZE := by
    rw [List.length_append]
    omega
  rw [List.cons_append, parsef, if_neg hlong]
  simp only [hlen, hlen32, hfits, if_false, List.drop_left]
  cases parsef paramTypes rest <;> rfl

/-- **The firmware finds the arguments** that the host wrote. -/
theorem parsef_encodeParams {params : List (Text × Codec)} {values : List Value} {out : Bytes}
    (htaken : ∀ e ∈ params, Taken e.2.pt) (h : Msgproto.encodeParams params values = some out)
    {rest : Bytes} (hrest : MESSAGE_TRAILER_SIZE ≤ rest.length) :
    ∃ args, parsef (params.map (·.2.pt)) (out ++ rest) = some (args, rest) ∧
      PassedAll params values args := by
  induction params generalizing values out with
  | nil =>
    rw [Msgproto.encodeParams, Option.some.injEq] at h
    subst h
    exact ⟨[], rfl, rfl⟩
  | cons e params ih =>
    obtain ⟨name, pt, enums⟩ := e
    cases values with
    | nil => cases h
    | cons v values =>
      rw [Msgproto.encodeParams] at h
      obtain ⟨out₁, hout₁, h⟩ := Option.bind_eq_some_iff.mp h
      obtain ⟨out₂, hout₂, h⟩ := Option.bind_eq_some_iff.mp h
      rw [Option.some.injEq] at h
      subst h
      obtain ⟨args, hargs, hpassed⟩ := ih (fun e he => htaken e (List.mem_cons_of_mem _ he)) hout₂
      have hrest' : MESSAGE_TRAILER_SIZE ≤ (out₂ ++ rest).length := by
        rw [List.length_append]
        omega
      rw [List.append_assoc, List.map_cons]
      -- the value is an integer, or bytes
      have hint : ∀ w : Int, pt.encode (.int w) = some out₁ →
          parsef (pt :: params.map (·.2.pt)) (out₁ ++ (out₂ ++ rest)) =
            some (.int (UInt32.ofInt w) :: args, rest) := by
        intro w hw
        rw [ParamType.encode] at hw
        split at hw
        · next hpt =>
          rw [Option.some.injEq] at hw
          rw [← hw, parsef_isInt hpt _ _ hrest', hargs, Option.map_some]
        · cases hw
      cases enums with
      | none =>
        cases v with
        | int w => exact ⟨_, hint w hout₁, [.int (UInt32.ofInt w)], args, rfl, rfl, hpassed⟩
        | bytes w =>
          have hout : pt.encode (.bytes w) = some out₁ := hout₁
          rw [ParamType.encode] at hout
          split at hout
          · next hbytes =>
            obtain ⟨hpt, hlen⟩ := hbytes
            have hbuffer : pt = .buffer := by
              refine (htaken _ List.mem_cons_self).resolve_left fun hpt' => ?_
              have hpt'' : pt.isInt = true := hpt'
              rw [hpt] at hpt''
              cases hpt''
            subst hbuffer
            rw [Option.some.injEq] at hout
            rw [← hout, parsef_buffer _ hlen hrest', hargs, Option.map_some]
            exact ⟨_, rfl, [.int (UInt32.ofNat w.length), .ptr (w ++ (out₂ ++ rest))], args, rfl,
              ⟨_, rfl, List.take_left⟩, hpassed⟩
          · cases hout
        | name key => cases hout₁
      | some enums =>
        cases v with
        | name key =>
          obtain ⟨w, hw, hout₁⟩ := Option.bind_eq_some_iff.mp hout₁
          exact ⟨_, hint w hout₁, [.int (UInt32.ofInt w)], args, rfl, ⟨w, hw, rfl⟩, hpassed⟩
        | int w => cases hout₁
        | bytes w => cases hout₁

/-! ## Blocks -/

section Execution

variable {σ : Type} (fw : Firmware σ)

/-- A command that the host puts into a block. -/
structure Sent where
  format : MessageFormat
  values : List Value

/-- The command has this number in the firmware, and both know its parameters. -/
structure Known (cmdid : Nat) (f : MessageFormat) : Prop where
  lt : cmdid < 16352
  msgid : ∃ msgid, Msgproto.convertEncodedMsgid cmdid = some msgid ∧
    f.msgidBytes = Msgproto.encodeInt msgid
  parser : ∃ cp, cmdid ≠ 0 ∧ fw.commandIndex[cmdid]? = some (some cp) ∧
    f.params.map (·.2.pt) = cp.paramTypes
  taken : ∀ e ∈ f.params, Taken e.2.pt

/-- What the host writes for some commands. -/
def encodeAll : List Sent → Option Bytes
  | [] => some []
  | c :: sent => do
    let out ← c.format.encode c.values
    let rest ← encodeAll sent
    some (out ++ rest)

/-- A command is run, unless the machine is shut down and the command is none for that. -/
def mayRun (cmdid : Nat) (m : σ) : Bool :=
  !fw.isShutdown m || (lookupParser fw cmdid).any (·.inShutdown)

/-- Commands, run one after the other up to one that shuts the machine down. -/
def execute : σ → List (Nat × List Arg) → Dispatched σ
  | m, [] => ⟨some m, []⟩
  | m, (cmdid, args) :: cmds =>
    match if mayRun fw cmdid m then fw.func cmdid args m else some m with
    | none => ⟨none, [⟨cmdid, args, true⟩]⟩
    | some m' =>
      { execute m' cmds with calls := ⟨cmdid, args, mayRun fw cmdid m⟩ :: (execute m' cmds).calls }

/-- A command of the host, and what the firmware makes of it. -/
def Received (c : Sent) (cmd : Nat × List Arg) : Prop :=
  Known fw cmd.1 c.format ∧ PassedAll c.format.params c.values cmd.2

variable {fw}

/-- A round of the loop, with a command at the pointer. -/
theorem dispatchFrom_cons {cmdid : Nat} {cp : CommandParser} {p q rest : Bytes} {args : List Arg}
    (fuel : Nat) (m : σ) (hp : MESSAGE_TRAILER_SIZE < p.length)
    (hmsgid : parseMsgid p = some (cmdid, q)) (hcp : lookupParser fw cmdid = some cp)
    (hargs : parsef cp.paramTypes q = some (args, rest)) :
    dispatchFrom fw (fuel + 1) m p =
      match if mayRun fw cmdid m then fw.func cmdid args m else some m with
      | none => ⟨none, [⟨cmdid, args, true⟩]⟩
      | some m' => { dispatchFrom fw fuel m' rest with
          calls := ⟨cmdid, args, mayRun fw cmdid m⟩ :: (dispatchFrom fw fuel m' rest).calls } := by
  have hlong : ¬p.length ≤ MESSAGE_TRAILER_SIZE := by omega
  rw [dispatchFrom, if_neg hlong]
  cases hshutdown : fw.isShutdown m <;> cases hallowed : cp.inShutdown <;>
    cases hfunc : fw.func cmdid args m <;>
    simp [hmsgid, hcp, hargs, mayRun, hshutdown, hallowed, hfunc]

/-- The loop runs the commands it comes upon. -/
theorem dispatchFrom_encodeAll {sent : List Sent} {out : Bytes}
    (hknown : ∀ c ∈ sent, ∃ cmdid, Known fw cmdid c.format) (h : encodeAll sent = some out)
    {trailer : Bytes} (htrailer : trailer.length = MESSAGE_TRAILER_SIZE) :
    ∃ cmds, List.Forall₂ (Received fw) sent cmds ∧ ∀ (fuel : Nat) (m : σ), out.length ≤ fuel →
      dispatchFrom fw fuel m (out ++ trailer) = execute fw m cmds := by
  induction sent generalizing out with
  | nil =>
    rw [encodeAll, Option.some.injEq] at h
    subst h
    refine ⟨[], .nil, fun fuel m _ => ?_⟩
    cases fuel with
    | zero => rfl
    | succ fuel =>
      rw [List.nil_append, dispatchFrom, if_pos (by omega)]
      rfl
  | cons c sent ih =>
    obtain ⟨cmdid, hc⟩ := hknown c List.mem_cons_self
    rw [encodeAll] at h
    obtain ⟨out₁, hout₁, h⟩ := Option.bind_eq_some_iff.mp h
    obtain ⟨out₂, hout₂, h⟩ := Option.bind_eq_some_iff.mp h
    rw [Option.some.injEq] at h
    subst h
    obtain ⟨cmds, hcmds, hloop⟩ := ih (fun d hd => hknown d (List.mem_cons_of_mem c hd)) hout₂
    rw [MessageFormat.encode] at hout₁
    obtain ⟨params, hparams, rfl⟩ := Option.map_eq_some_iff.mp hout₁
    have hrest : MESSAGE_TRAILER_SIZE ≤ (out₂ ++ trailer).length := by
      rw [List.length_append]
      omega
    obtain ⟨msgid, hmsgid, hbytes⟩ := hc.msgid
    obtain ⟨cp, hpos, hindex, htypes⟩ := hc.parser
    have hcp : lookupParser fw cmdid = some cp := by
      rw [lookupParser, if_neg hpos, hindex]
      rfl
    obtain ⟨args, hargs, hpassed⟩ := parsef_encodeParams hc.taken hparams hrest
    rw [htypes] at hargs
    have hlt : cmdid < 2 ^ 14 := hc.lt.trans (by norm_num)
    have hparse := (msgid_parsed hlt hmsgid (params ++ (out₂ ++ trailer))).mpr hc.lt
    have hshape : c.format.msgidBytes ++ params ++ out₂ ++ trailer =
        Msgproto.encodeInt msgid ++ (params ++ (out₂ ++ trailer)) := by
      rw [hbytes, List.append_assoc, List.append_assoc]
    have hlen : 0 < (Msgproto.encodeInt msgid).length := by
      simp [Msgproto.encodeInt]
    refine ⟨(cmdid, args) :: cmds, .cons ⟨hc, hpassed⟩ hcmds, fun fuel m hfuel => ?_⟩
    cases fuel with
    | zero =>
      rw [hbytes, List.length_append, List.length_append] at hfuel
      omega
    | succ fuel =>
      have hfuel' : out₂.length ≤ fuel := by
        rw [hbytes, List.length_append, List.length_append] at hfuel
        omega
      have hlong : MESSAGE_TRAILER_SIZE <
          (Msgproto.encodeInt msgid ++ (params ++ (out₂ ++ trailer))).length := by
        rw [List.length_append, List.length_append]
        omega
      rw [hshape, dispatchFrom_cons fuel m hlong hparse hcp hargs, execute]
      simp only [hloop fuel _ hfuel']

/-- What is behind the header of a block. -/
theorem drop_frame (seq : UInt8) (payload : Bytes) :
    ∃ trailer, trailer.length = MESSAGE_TRAILER_SIZE ∧
      (frame seq payload).drop MESSAGE_HEADER_SIZE = payload ++ trailer := by
  refine ⟨_, ?_, rfl⟩
  simp [MESSAGE_TRAILER_SIZE]

/-- **A block is run as the commands the host put into it**, one after the other, with the
arguments the host gave them, up to one that shuts the machine down. -/
theorem block_executed (sent : List Sent) (payload : Bytes)
    (hknown : ∀ c ∈ sent, ∃ cmdid, Known fw cmdid c.format)
    (hpayload : encodeAll sent = some payload) (seq : UInt8) (m : σ) :
    ∃ cmds, List.Forall₂ (Received fw) sent cmds ∧
      dispatch fw m (frame seq payload) = execute fw m cmds := by
  obtain ⟨trailer, htrailer, hblock⟩ := drop_frame seq payload
  obtain ⟨cmds, hcmds, hloop⟩ := dispatchFrom_encodeAll hknown hpayload htrailer
  have hfuel : payload.length ≤ (frame seq payload).length := by
    simp [frame]
    omega
  refine ⟨cmds, hcmds, ?_⟩
  rw [dispatch, hblock, hloop _ _ hfuel]

/-- The first command shuts the machine down by itself; the second is none for that, and is passed
over. -/
theorem block_executed_two :
    let fw : Firmware Nat :=
      ⟨[none, some ⟨true, [.uint32, .buffer]⟩, some ⟨false, [.byte]⟩],
        fun _ args m => some (m + args.length), fun m => decide (0 < m)⟩
    ∃ cmds, List.Forall₂ (Received fw)
        [⟨⟨[1], [], [(['n'], ⟨.uint32, none⟩), (['d'], ⟨.buffer, none⟩)]⟩,
            [.int 300, .bytes [7, 8]]⟩,
          ⟨⟨[2], [], [(['b'], ⟨.byte, none⟩)]⟩, [.int 5]⟩]
        cmds ∧
      dispatch fw 0 (frame 0x10 [1, 0x82, 0x2c, 2, 7, 8, 2, 5]) = execute fw 0 cmds := by
  refine block_executed _ _ ?_ (by decide) 0x10 0
  intro c hc
  simp only [List.mem_cons, List.not_mem_nil, or_false] at hc
  rcases hc with rfl | rfl
  · refine ⟨1, by norm_num, ⟨1, by decide, by decide⟩, ⟨_, by decide, rfl, rfl⟩, ?_⟩
    intro e he
    simp only [List.mem_cons, List.not_mem_nil, or_false] at he
    rcases he with rfl | rfl
    · exact .inl rfl
    · exact .inr rfl
  · refine ⟨2, by norm_num, ⟨2, by decide, by decide⟩, ⟨_, by decide, rfl, rfl⟩, ?_⟩
    intro e he
    rw [List.mem_singleton.mp he]
    exact .inl rfl

end Execution

end Cream.Analysis.MessageCommands
