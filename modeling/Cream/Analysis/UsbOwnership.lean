import Cream.Library.Transition
import Cream.Model.UsbSerialManager

/-!
# Who owns the USB ports

The three maps always agree (`Filed`): a successful `connect` writes all three, `close`
removes from all three. But they only know the last connection of a uid. A port is lost
when a uid that is in use is connected again, or when a call after `port.open` throws; a thread is
lost when its connection is closed before its posted start has run, for the interrupt does
not reach it; and a thread whose connection is gone closes whatever has its uid by then.
`Owning` is the steps that do none of this, on the state before the step: in every run of
such steps what is open is referenced, and an I/O error closes its own connection only
(`connections_owned`).
-/

set_option autoImplicit false

namespace Cream.Model

open Cream.Library.Transition

namespace UsbSerialManager

variable {s t : UsbSerialManager}

/-! ## Steps that lose nothing -/

/-- A call of `connect` opens the port and files it. -/
def Connects (drv : UsbSerialDriver) (flags : Nat) : Prop :=
  drv.permission = true ∧ drv.ports ≠ 0 ∧ drv.failure flags = none

/-- A call of `connect` opens the port, and throws before it is filed. -/
def FailsOpen (drv : UsbSerialDriver) (flags : Nat) : Prop :=
  drv.permission = true ∧ drv.ports ≠ 0 ∧ ∃ step ∈ drv.failure flags, step ≠ .openPort

instance (drv : UsbSerialDriver) (flags : Nat) : Decidable (Connects drv flags) :=
  inferInstanceAs (Decidable (_ ∧ _))

instance (drv : UsbSerialDriver) (flags : Nat) : Decidable (FailsOpen drv flags) :=
  decidable_of_iff (drv.permission = true ∧ drv.ports ≠ 0 ∧ drv.failure flags ≠ none ∧
      drv.failure flags ≠ some .openPort) (by
    unfold FailsOpen
    cases h : drv.failure flags <;> simp)

/-- Connecting these drivers throws in no call after `port.open`, and connects no uid that
is in use, nor one uid twice. -/
def OwningAll (s : UsbSerialManager) (drvs : List UsbSerialDriver) (flags : Nat) : Prop :=
  (∀ drv ∈ drvs, ¬FailsOpen drv flags) ∧
    (∀ drv ∈ drvs, Connects drv flags → s.portMap.lookup (s.uidOf drv.device) = none) ∧
    ((drvs.filter fun drv => Connects drv flags).map fun drv => s.uidOf drv.device).Nodup

instance (s : UsbSerialManager) (drvs : List UsbSerialDriver) (flags : Nat) :
    Decidable (s.OwningAll drvs flags) :=
  inferInstanceAs (Decidable (_ ∧ _ ∧ _))

/-- The thread filed under a uid, if there is one, has been started. -/
def ThreadStarted (s : UsbSerialManager) (uid : String) : Prop :=
  ∀ n ∈ s.readThreadMap.lookup uid, n ∈ s.started

instance (s : UsbSerialManager) (uid : String) : Decidable (s.ThreadStarted uid) :=
  inferInstanceAs (Decidable (∀ n ∈ s.readThreadMap.lookup uid, n ∈ s.started))

/-- The steps that lose nothing. -/
def Owning (s : UsbSerialManager) : Action → Prop
  | .connect drv flags => s.OwningAll [drv] flags
  | .close uid => s.ThreadStarted uid
  | .connectAll drvs => s.OwningAll drvs 0
  | .disconnectAll hash => ∀ uid ∈ (s.hashKeys hash).head?, s.ThreadStarted uid
  | .setUsbDeviceNaming naming drvs hash =>
    (∀ uid ∈ (s.hashKeys hash).head?, s.ThreadStarted uid) ∧
      (s.portMap.keys.length ≤ 1 → (empty naming).OwningAll drvs 0)
  | .attached permission probed => permission = true → s.OwningAll probed.toList 0
  | .detached device => s.ThreadStarted (s.uidOf device)
  | .startThread => True
  | .readError n => ∀ m ∈ s.portMap.lookup (s.threadUid n), m = n

instance (s : UsbSerialManager) (a : Action) : Decidable (s.Owning a) :=
  match a with
  | .connect drv flags => inferInstanceAs (Decidable (s.OwningAll [drv] flags))
  | .close uid => inferInstanceAs (Decidable (s.ThreadStarted uid))
  | .connectAll drvs => inferInstanceAs (Decidable (s.OwningAll drvs 0))
  | .disconnectAll hash =>
    inferInstanceAs (Decidable (∀ uid ∈ (s.hashKeys hash).head?, s.ThreadStarted uid))
  | .setUsbDeviceNaming _ _ hash =>
    inferInstanceAs (Decidable ((∀ uid ∈ (s.hashKeys hash).head?, s.ThreadStarted uid) ∧ (_ → _)))
  | .attached _ _ => inferInstanceAs (Decidable (_ → _))
  | .detached device => inferInstanceAs (Decidable (s.ThreadStarted (s.uidOf device)))
  | .startThread => inferInstanceAs (Decidable True)
  | .readError n => inferInstanceAs (Decidable (∀ m ∈ s.portMap.lookup (s.threadUid n), m = n))

/-! ## The invariants -/

/-- The maps agree, and file a connection under the uid its thread was made with, the thread
not interrupted. -/
structure Filed (s : UsbSerialManager) : Prop where
  nativePort : ∀ uid, s.nativePortMap.lookup uid = s.portMap.lookup uid
  readThread : ∀ uid, s.readThreadMap.lookup uid = s.portMap.lookup uid
  made : ∀ uid n, s.portMap.lookup uid = some n → n < s.connects ∧ s.threadUid n = uid
  running : ∀ uid n, s.portMap.lookup uid = some n → n ∈ s.readThreads

/-- What is open is filed under its uid. -/
structure Referenced (s : UsbSerialManager) : Prop where
  ports : ∀ n ∈ s.openPorts, s.portMap.lookup (s.threadUid n) = some n
  nativePorts : ∀ n ∈ s.nativePorts, s.portMap.lookup (s.threadUid n) = some n
  readThreads : ∀ n ∈ s.readThreads, s.portMap.lookup (s.threadUid n) = some n

/-- The maps agree when the process starts. -/
theorem filed_empty (naming : UsbDeviceNaming) : Filed (empty naming) where
  nativePort _ := rfl
  readThread _ := rfl
  made uid n h := by cases h
  running uid n h := by cases h

/-- The manager refers to all it has open when it starts: nothing. -/
theorem referenced_empty (naming : UsbDeviceNaming) : Referenced (empty naming) where
  ports _ h := (List.not_mem_nil h).elim
  nativePorts _ h := (List.not_mem_nil h).elim
  readThreads _ h := (List.not_mem_nil h).elim

/-! ## `close` -/

/-- What a map holds once a key is erased. -/
theorem lookup_erase_eq (m : AList fun _ : String => Call) (uid x : String) :
    (m.erase uid).lookup x = if x = uid then none else m.lookup x := by
  by_cases hx : x = uid
  · subst hx
    rw [if_pos rfl, AList.lookup_erase]
  · rw [if_neg hx, AList.lookup_erase_ne hx]

/-- What is filed once a uid is closed. -/
theorem lookup_close (uid x : String) :
    (s.close uid).portMap.lookup x = if x = uid then none else s.portMap.lookup x :=
  lookup_erase_eq s.portMap uid x

/-- Closing a uid keeps the maps in agreement.
SOURCE: UsbSerialManager.kt:181-192 -/
theorem Filed.close (h : Filed s) (uid : String) : Filed (s.close uid) where
  nativePort x := by
    rw [lookup_close, ← h.nativePort]
    exact lookup_erase_eq s.nativePortMap uid x
  readThread x := by
    rw [lookup_close, ← h.readThread]
    exact lookup_erase_eq s.readThreadMap uid x
  made x n hx := by
    rw [lookup_close] at hx
    split at hx
    · cases hx
    · exact h.made x n hx
  running x n hx := by
    rw [lookup_close] at hx
    split at hx
    · cases hx
    · next hne =>
      have hother : s.readThreadMap.lookup uid ≠ some n := by
        intro huid
        rw [h.readThread] at huid
        apply hne
        rw [← (h.made x n hx).2, (h.made uid n huid).2]
      simp only [UsbSerialManager.close, List.mem_filter]
      exact ⟨h.running x n hx, by simp [hother]⟩

/-- Closing a uid closes just the connection filed under it, and interrupts its thread when
that has been started. -/
theorem Filed.mem_close (h : Filed s) (uid : String) (n : Call) :
    (n ∈ (s.close uid).openPorts ↔ n ∈ s.openPorts ∧ s.portMap.lookup uid ≠ some n) ∧
      (n ∈ (s.close uid).nativePorts ↔ n ∈ s.nativePorts ∧ s.portMap.lookup uid ≠ some n) ∧
      (n ∈ (s.close uid).readThreads ↔
        n ∈ s.readThreads ∧ ¬(s.portMap.lookup uid = some n ∧ n ∈ s.started)) := by
  have hnative := h.nativePort uid
  have hthread := h.readThread uid
  refine ⟨?_, ?_, ?_⟩
  · simp [UsbSerialManager.close]
  · simp [UsbSerialManager.close, hnative]
  · simp only [UsbSerialManager.close, List.mem_filter, hthread, decide_eq_true_eq]

/-- Closing a uid loses nothing when its thread has been started. -/
theorem Referenced.close (hr : Referenced s) (h : Filed s) {uid : String}
    (hstarted : s.ThreadStarted uid) : Referenced (s.close uid) := by
  have hkept : ∀ n, s.portMap.lookup (s.threadUid n) = some n →
      s.portMap.lookup uid ≠ some n → (s.close uid).portMap.lookup (s.threadUid n) = some n := by
    intro n hn hother
    rw [lookup_close, if_neg]
    · exact hn
    · rintro rfl
      exact hother hn
  refine ⟨fun n hn => ?_, fun n hn => ?_, fun n hn => ?_⟩
  · obtain ⟨hmem, hother⟩ := (h.mem_close uid n).1.mp hn
    exact hkept n (hr.ports n hmem) hother
  · obtain ⟨hmem, hother⟩ := (h.mem_close uid n).2.1.mp hn
    exact hkept n (hr.nativePorts n hmem) hother
  · obtain ⟨hmem, hother⟩ := (h.mem_close uid n).2.2.mp hn
    refine hkept n (hr.readThreads n hmem) fun huid => hother ⟨huid, ?_⟩
    exact hstarted n ((h.readThread uid).trans huid)

/-! ## `connect` -/

/-- The manager after a `connect` that came through. -/
def register (s : UsbSerialManager) (uid : String) : UsbSerialManager :=
  { s with
    connects := s.connects + 1
    openPorts := s.connects :: s.openPorts
    nativePorts := s.connects :: s.nativePorts
    readThreads := s.connects :: s.readThreads
    threadUid := Function.update s.threadUid s.connects uid
    posted := s.posted ++ [s.connects]
    nativePortMap := s.nativePortMap.insert uid s.connects
    portMap := s.portMap.insert uid s.connects
    readThreadMap := s.readThreadMap.insert uid s.connects }

/-- Everything `connect` can do: nothing, when it may not or cannot open a port or the port
does not open; open a port and lose it; or file a new connection.
SOURCE: UsbSerialManager.kt:120-173 -/
theorem connect_cases (s : UsbSerialManager) (drv : UsbSerialDriver) (flags : Nat) :
    (¬Connects drv flags ∧ ¬FailsOpen drv flags ∧
      ∃ n, s.connects ≤ n ∧ s.connect drv flags = { s with connects := n }) ∨
    (FailsOpen drv flags ∧ s.connect drv flags =
      { s with connects := s.connects + 1, openPorts := s.connects :: s.openPorts }) ∨
    (Connects drv flags ∧ ¬FailsOpen drv flags ∧
      s.connect drv flags = s.register (s.uidOf drv.device)) := by
  unfold connect
  by_cases hperm : drv.permission = true
  · by_cases hports : drv.ports = 0
    · left
      refine ⟨fun h => h.2.1 hports, fun h => h.2.1 hports, s.connects, le_rfl, ?_⟩
      simp [hperm, hports]
    · simp only [hperm, hports, Bool.not_true, Bool.false_eq_true, if_false]
      cases hf : drv.failure flags with
      | none =>
        right; right
        refine ⟨⟨hperm, hports, hf⟩, fun ⟨_, _, st, hst, _⟩ => ?_, rfl⟩
        rw [hf] at hst
        cases hst
      | some st =>
        by_cases hst : st = .openPort
        · subst hst
          left
          refine ⟨fun h => ?_, fun ⟨_, _, st, hst, hne⟩ => ?_, s.connects + 1,
            Nat.le_succ _, rfl⟩
          · have hnone := h.2.2
            rw [hf] at hnone
            cases hnone
          · rw [hf, Option.mem_some] at hst
            exact hne hst.symm
        · right; left
          refine ⟨⟨hperm, hports, st, hf, hst⟩, ?_⟩
          cases st with
          | openPort => exact absurd rfl hst
          | rts => rfl
          | dtr => rfl
          | setParameters => rfl
  · left
    refine ⟨fun h => hperm h.1, fun h => hperm h.1, s.connects, le_rfl, ?_⟩
    simp [hperm]

/-- What is filed once a new connection is. -/
theorem lookup_register (uid x : String) : (s.register uid).portMap.lookup x =
    if x = uid then some s.connects else s.portMap.lookup x := by
  unfold register
  by_cases hx : x = uid
  · subst hx
    rw [if_pos rfl]
    exact AList.lookup_insert _
  · rw [if_neg hx]
    exact AList.lookup_insert_ne hx

/-- A new connection is filed in all three maps. -/
theorem Filed.register (h : Filed s) (uid : String) : Filed (s.register uid) where
  nativePort x := by
    rw [lookup_register, ← h.nativePort]
    unfold UsbSerialManager.register
    by_cases hx : x = uid
    · subst hx
      rw [if_pos rfl]
      exact AList.lookup_insert _
    · rw [if_neg hx]
      exact AList.lookup_insert_ne hx
  readThread x := by
    rw [lookup_register, ← h.readThread]
    unfold UsbSerialManager.register
    by_cases hx : x = uid
    · subst hx
      rw [if_pos rfl]
      exact AList.lookup_insert _
    · rw [if_neg hx]
      exact AList.lookup_insert_ne hx
  made x n hx := by
    rw [lookup_register] at hx
    unfold UsbSerialManager.register
    split at hx
    · next hxu =>
      cases hx
      exact ⟨Nat.lt_succ_self _, by rw [hxu]; exact Function.update_self _ _ _⟩
    · obtain ⟨hlt, huid⟩ := h.made x n hx
      refine ⟨hlt.trans (Nat.lt_succ_self _), ?_⟩
      have hne : n ≠ s.connects := Nat.ne_of_lt hlt
      simp only [Function.update_of_ne hne, huid]
  running x n hx := by
    rw [lookup_register] at hx
    unfold UsbSerialManager.register
    split at hx
    · cases hx
      exact List.mem_cons_self
    · exact List.mem_cons_of_mem _ (h.running x n hx)

/-- Filing a connection under a uid that is not in use loses nothing. -/
theorem Referenced.register (hr : Referenced s) (h : Filed s) {uid : String}
    (hfree : s.portMap.lookup uid = none) : Referenced (s.register uid) := by
  have hnew : (s.register uid).portMap.lookup ((s.register uid).threadUid s.connects) =
      some s.connects := by
    have huid : (s.register uid).threadUid s.connects = uid := Function.update_self _ _ _
    rw [huid, lookup_register, if_pos rfl]
  have hold : ∀ n, s.portMap.lookup (s.threadUid n) = some n →
      (s.register uid).portMap.lookup ((s.register uid).threadUid n) = some n := by
    intro n hn
    have hne : n ≠ s.connects := Nat.ne_of_lt (h.made _ n hn).1
    have huid : (s.register uid).threadUid n = s.threadUid n := Function.update_of_ne hne _ _
    rw [huid, lookup_register, if_neg, hn]
    rintro rfl
    rw [hfree] at hn
    cases hn
  have hmem : ∀ l : List Call, (∀ n ∈ l, s.portMap.lookup (s.threadUid n) = some n) →
      ∀ n ∈ s.connects :: l,
        (s.register uid).portMap.lookup ((s.register uid).threadUid n) = some n := by
    intro l hl n hn
    rcases List.mem_cons.mp hn with rfl | hn
    · exact hnew
    · exact hold n (hl n hn)
  exact ⟨hmem _ hr.ports, hmem _ hr.nativePorts, hmem _ hr.readThreads⟩

/-- `connect` keeps the maps in agreement.
SOURCE: UsbSerialManager.kt:120-174 -/
theorem Filed.connect (h : Filed s) (drv : UsbSerialDriver) (flags : Nat) :
    Filed (s.connect drv flags) := by
  rcases connect_cases s drv flags with ⟨-, -, n, hle, heq⟩ | ⟨-, heq⟩ | ⟨-, -, heq⟩
  · rw [heq]
    exact ⟨h.nativePort, h.readThread, fun uid m hm =>
      ⟨(h.made uid m hm).1.trans_le hle, (h.made uid m hm).2⟩, h.running⟩
  · rw [heq]
    exact ⟨h.nativePort, h.readThread, fun uid m hm =>
      ⟨(h.made uid m hm).1.trans (Nat.lt_succ_self _), (h.made uid m hm).2⟩, h.running⟩
  · rw [heq]
    exact h.register _

/-- The uids in use after a `connect`. -/
theorem lookup_connect (drv : UsbSerialDriver) (flags : Nat) (x : String) :
    (s.connect drv flags).portMap.lookup x = s.portMap.lookup x ∨
      (Connects drv flags ∧ x = s.uidOf drv.device) := by
  rcases connect_cases s drv flags with ⟨-, -, n, -, heq⟩ | ⟨-, heq⟩ | ⟨hc, -, heq⟩
  · rw [heq]
    exact .inl rfl
  · rw [heq]
    exact .inl rfl
  · rw [heq, lookup_register]
    by_cases hx : x = s.uidOf drv.device
    · exact .inr ⟨hc, hx⟩
    · exact .inl (if_neg hx)

/-- `connect` leaves the naming. -/
theorem connect_naming (drv : UsbSerialDriver) (flags : Nat) :
    (s.connect drv flags).usbDeviceNaming = s.usbDeviceNaming := by
  rcases connect_cases s drv flags with ⟨-, -, n, -, heq⟩ | ⟨-, heq⟩ | ⟨-, -, heq⟩
  · rw [heq]
  · rw [heq]
  · rw [heq]
    rfl

/-- An owning call of `connect` loses nothing. -/
theorem Referenced.connect (hr : Referenced s) (h : Filed s) {drv : UsbSerialDriver}
    {flags : Nat} (hg : s.OwningAll [drv] flags) : Referenced (s.connect drv flags) := by
  have hmem : drv ∈ [drv] := List.mem_cons_self
  rcases connect_cases s drv flags with ⟨-, -, n, -, heq⟩ | ⟨hlost, -⟩ | ⟨hc, -, heq⟩
  · rw [heq]
    exact ⟨hr.ports, hr.nativePorts, hr.readThreads⟩
  · exact absurd hlost (hg.1 drv hmem)
  · rw [heq]
    exact hr.register h (hg.2.1 drv hmem hc)

/-- The first driver of a list may be connected, and the others after it. -/
theorem OwningAll.cons {drv : UsbSerialDriver} {drvs : List UsbSerialDriver} {flags : Nat}
    (hg : s.OwningAll (drv :: drvs) flags) :
    s.OwningAll [drv] flags ∧ (s.connect drv flags).OwningAll drvs flags := by
  obtain ⟨hopen, hfree, hnodup⟩ := hg
  have huid : ∀ d : UsbSerialDriver, (s.connect drv flags).uidOf d.device = s.uidOf d.device :=
    fun d => by rw [uidOf, connect_naming, uidOf]
  refine ⟨⟨?_, ?_, ?_⟩, fun d hd => hopen d (List.mem_cons_of_mem _ hd), fun d hd hc => ?_, ?_⟩
  · simpa using hopen drv List.mem_cons_self
  · simpa using hfree drv List.mem_cons_self
  · refine List.Sublist.nodup (List.Sublist.map _ (List.Sublist.filter _ ?_)) hnodup
    simp
  · rw [huid]
    rcases lookup_connect drv flags (s.uidOf d.device) with heq | ⟨hcd, heq⟩
    · rw [heq]
      exact hfree d (List.mem_cons_of_mem _ hd) hc
    · -- two drivers with one uid do not both connect
      exfalso
      rw [List.filter_cons_of_pos (by simpa using hcd), List.map_cons, List.nodup_cons] at hnodup
      refine hnodup.1 (List.mem_map.mpr ⟨d, List.mem_filter.mpr ⟨hd, ?_⟩, heq⟩)
      simpa using hc
  · have hmap : (drvs.filter fun d => Connects d flags).map
        (fun d => (s.connect drv flags).uidOf d.device) =
        (drvs.filter fun d => Connects d flags).map fun d => s.uidOf d.device :=
      List.map_congr_left fun d _ => huid d
    rw [hmap]
    refine List.Sublist.nodup (List.Sublist.map _ (List.Sublist.filter _ ?_)) hnodup
    exact List.sublist_cons_self drv drvs

/-! ## The other operations -/

/-- `connectAll` keeps the maps in agreement. -/
theorem Filed.connectAll (h : Filed s) (drvs : List UsbSerialDriver) :
    Filed (s.connectAll drvs) := by
  induction drvs generalizing s with
  | nil => exact h
  | cons drv drvs ih =>
    unfold UsbSerialManager.connectAll
    split
    · exact ih (h.connect drv 0)
    · exact ih h

/-- An owning call of `connectAll` loses nothing.
SOURCE: UsbSerialManager.kt:93-101 -/
theorem Referenced.connectAll (hr : Referenced s) (h : Filed s) {drvs : List UsbSerialDriver}
    (hg : s.OwningAll drvs 0) : Referenced (s.connectAll drvs) := by
  induction drvs generalizing s with
  | nil => exact hr
  | cons drv drvs ih =>
    obtain ⟨hone, hrest⟩ := hg.cons
    unfold UsbSerialManager.connectAll
    split
    · exact ih (hr.connect h hone) (h.connect drv 0) hrest
    · next hports =>
      have hskip : s.connect drv 0 = s := by
        simp only [ne_eq, not_not] at hports
        unfold UsbSerialManager.connect
        simp [hports]
      rw [hskip] at hrest
      exact ih hr h hrest

/-- `disconnectAll` closes nothing, the only uid in use, or one of several.
SOURCE: UsbSerialManager.kt:103-107 -/
theorem disconnectAll_cases (s : UsbSerialManager) (hash : String → Nat) :
    (s.portMap.keys.length ≤ 1 ∧ (∃ t, s.disconnectAll hash = .ok t ∧ t.portMap.keys = [] ∧
      (t = s ∧ s.portMap.keys = [] ∨
        ∃ uid ∈ (s.hashKeys hash).head?, s.portMap.keys = [uid] ∧ t = s.close uid))) ∨
    1 < s.portMap.keys.length ∧
      ∃ uid ∈ (s.hashKeys hash).head?, s.disconnectAll hash = .error (s.close uid) := by
  unfold disconnectAll
  have hperm : (s.hashKeys hash).Perm s.portMap.keys := List.perm_insertionSort _ _
  rcases hkeys : s.hashKeys hash with _ | ⟨uid, _ | ⟨uid', rest⟩⟩
  · left
    rw [hkeys] at hperm
    have hnil := hperm.symm.eq_nil
    exact ⟨by rw [hnil]; exact Nat.zero_le _, s, rfl, hnil, .inl ⟨rfl, hnil⟩⟩
  · left
    rw [hkeys] at hperm
    have hone := List.perm_singleton.mp hperm.symm
    refine ⟨by rw [hone]; exact le_rfl, s.close uid, rfl, ?_, .inr ⟨uid, rfl, hone, rfl⟩⟩
    have herase : (s.close uid).portMap.keys = s.portMap.keys.erase uid := AList.keys_erase _ _
    rw [herase, hone]
    simp
  · right
    rw [hkeys] at hperm
    exact ⟨by rw [← hperm.length_eq]; simp, uid, rfl, rfl⟩

/-- A set of drivers may be connected on any map that holds nothing. -/
theorem OwningAll.of_empty {naming : UsbDeviceNaming} {drvs : List UsbSerialDriver} {flags : Nat}
    (hg : (empty naming).OwningAll drvs flags) (hnaming : s.usbDeviceNaming = naming)
    (hkeys : s.portMap.keys = []) : s.OwningAll drvs flags := by
  subst hnaming
  refine ⟨hg.1, fun d _ _ => ?_, hg.2.2⟩
  rw [AList.lookup_eq_none, AList.mem_keys, hkeys]
  exact List.not_mem_nil

/-- **One step** keeps the maps in agreement, and loses nothing when it is owning. -/
theorem owned_step {a : Action} (h : Filed s) (hs : step s a = some t) :
    Filed t ∧ (Referenced s → s.Owning a → Referenced t) := by
  cases a with
  | connect drv flags =>
    cases hs
    exact ⟨h.connect drv flags, fun hr hg => hr.connect h hg⟩
  | close uid =>
    cases hs
    exact ⟨h.close uid, fun hr hg => hr.close h hg⟩
  | connectAll drvs =>
    cases hs
    exact ⟨h.connectAll drvs, fun hr hg => hr.connectAll h hg⟩
  | disconnectAll hash =>
    rcases disconnectAll_cases s hash with ⟨-, u, heq, -, hu⟩ | ⟨-, uid, hfirst, heq⟩
    · simp only [step, heq, Option.some.injEq] at hs
      subst hs
      rcases hu with ⟨rfl, -⟩ | ⟨uid, hfirst, -, rfl⟩
      · exact ⟨h, fun hr _ => hr⟩
      · exact ⟨h.close uid, fun hr hg => hr.close h (hg uid hfirst)⟩
    · simp only [step, heq, Option.some.injEq] at hs
      subst hs
      exact ⟨h.close uid, fun hr hg => hr.close h (hg uid hfirst)⟩
  | setUsbDeviceNaming naming drvs hash =>
    rcases disconnectAll_cases s hash with ⟨hone, u, heq, hkeys, hu⟩ | ⟨-, uid, hfirst, heq⟩
    · simp only [step, setUsbDeviceNaming, heq, Option.some.injEq] at hs
      subst hs
      have hclosed : Filed u ∧ ((∀ uid ∈ (s.hashKeys hash).head?, s.ThreadStarted uid) →
          Referenced s → Referenced u) := by
        rcases hu with ⟨rfl, -⟩ | ⟨uid, hfirst, -, rfl⟩
        · exact ⟨h, fun _ hr => hr⟩
        · exact ⟨h.close uid, fun hg hr => hr.close h (hg uid hfirst)⟩
      have hfiled : Filed { u with usbDeviceNaming := naming } :=
        ⟨hclosed.1.nativePort, hclosed.1.readThread, hclosed.1.made, hclosed.1.running⟩
      refine ⟨hfiled.connectAll drvs, fun hr hg => ?_⟩
      have hru := hclosed.2 hg.1 hr
      have hreferenced : Referenced { u with usbDeviceNaming := naming } :=
        ⟨hru.ports, hru.nativePorts, hru.readThreads⟩
      exact hreferenced.connectAll hfiled ((hg.2 hone).of_empty rfl hkeys)
    · simp only [step, setUsbDeviceNaming, heq, Option.some.injEq] at hs
      subst hs
      exact ⟨h.close uid, fun hr hg => hr.close h (hg.1 uid hfirst)⟩
  | attached permission probed =>
    cases hs
    unfold onAttached
    split
    · next hperm =>
      cases probed with
      | none => exact ⟨h, fun hr _ => hr⟩
      | some drv =>
        simp only
        split
        · exact ⟨h.connect drv 0, fun hr hg => hr.connect h (hg hperm)⟩
        · exact ⟨h, fun hr _ => hr⟩
    · exact ⟨h, fun hr _ => hr⟩
  | detached device =>
    cases hs
    exact ⟨h.close _, fun hr hg => hr.close h hg⟩
  | startThread =>
    cases hposted : s.posted with
    | nil => simp [step, hposted] at hs
    | cons n posted =>
      simp only [step, hposted, Option.some.injEq] at hs
      subst hs
      exact ⟨⟨h.nativePort, h.readThread, h.made, h.running⟩, fun hr _ =>
        ⟨hr.ports, hr.nativePorts, hr.readThreads⟩⟩
  | readError n =>
    simp only [step, Option.ite_none_right_eq_some, Option.some.injEq] at hs
    obtain ⟨hstarted, rfl⟩ := hs
    refine ⟨h.close _, fun hr hg => hr.close h fun m hm => ?_⟩
    rw [h.readThread] at hm
    rw [hg m hm]
    exact hstarted

/-! ## Runs -/

/-- What a call of `connect` opened is open in both states or in neither. -/
def SameOpen (n : Call) (s t : UsbSerialManager) : Prop :=
  (n ∈ t.openPorts ↔ n ∈ s.openPorts) ∧ (n ∈ t.nativePorts ↔ n ∈ s.nativePorts) ∧
    (n ∈ t.readThreads ↔ n ∈ s.readThreads)

instance (n : Call) (s t : UsbSerialManager) : Decidable (SameOpen n s t) :=
  inferInstanceAs (Decidable (_ ∧ _ ∧ _))

/-- A thread whose uid is not in use by another connection closes only its own.
SOURCE: UsbSerialManager.kt:212-217 -/
theorem Filed.readError (h : Filed s) {n : Call} (hg : s.Owning (.readError n))
    (hs : step s (.readError n) = some t) {m : Call} (hm : m ≠ n) : SameOpen m s t := by
  simp only [step, Option.ite_none_right_eq_some, Option.some.injEq] at hs
  obtain ⟨-, rfl⟩ := hs
  have hother : s.portMap.lookup (s.threadUid n) ≠ some m := fun hmem => hm (hg m hmem)
  obtain ⟨hport, hnative, hthread⟩ := h.mem_close (s.threadUid n) m
  refine ⟨?_, ?_, ?_⟩
  · rw [hport]
    exact and_iff_left hother
  · rw [hnative]
    exact and_iff_left hother
  · rw [hthread]
    exact and_iff_left fun hmem => hother hmem.1

/-- **Ownership of the connections.** In every run the three maps have the same keys, and
file entries of one call of `connect` under each. In a run of owning steps, what is open is
referenced from the maps, and an I/O error leaves all other connections as they are.
SOURCE: UsbSerialManager.kt:31-223 -/
theorem connections_owned {naming : UsbDeviceNaming} {acts : List Action}
    (hrun : run step (empty naming) acts = some s) :
    (∀ uid, s.nativePortMap.lookup uid = s.portMap.lookup uid ∧
      s.readThreadMap.lookup uid = s.portMap.lookup uid) ∧
    (run (restrict step Owning) (empty naming) acts = some s →
      (∀ n ∈ s.openPorts, ∃ uid, s.portMap.lookup uid = some n) ∧
      (∀ n ∈ s.nativePorts, ∃ uid, s.nativePortMap.lookup uid = some n) ∧
      (∀ n ∈ s.readThreads, ∃ uid, s.readThreadMap.lookup uid = some n) ∧
      ∀ n t, restrict step Owning s (.readError n) = some t → ∀ m, m ≠ n → SameOpen m s t) := by
  have hfiled : Filed s :=
    run_invariant (fun _ _ _ h hs => (owned_step h hs).1) (filed_empty naming) hrun
  refine ⟨fun uid => ⟨hfiled.nativePort uid, hfiled.readThread uid⟩, fun howning => ?_⟩
  have hboth : Filed s ∧ Referenced s := by
    have hempty : Filed (empty naming) ∧ Referenced (empty naming) :=
      ⟨filed_empty naming, referenced_empty naming⟩
    have hstep : ∀ u a v, Filed u ∧ Referenced u → Owning u a → step u a = some v →
        Filed v ∧ Referenced v := by
      intro u a v h hg hs
      obtain ⟨hf, hr⟩ := owned_step h.1 hs
      exact ⟨hf, hr h.2 hg⟩
    exact run_restrict_invariant hstep hempty howning
  obtain ⟨-, hr⟩ := hboth
  refine ⟨fun n hn => ⟨_, hr.ports n hn⟩, fun n hn => ⟨s.threadUid n, ?_⟩,
    fun n hn => ⟨s.threadUid n, ?_⟩, fun n t ht m hm => ?_⟩
  · rw [hfiled.nativePort]
    exact hr.nativePorts n hn
  · rw [hfiled.readThread]
    exact hr.readThreads n hn
  · obtain ⟨hg, hs⟩ := restrict_eq_some.mp ht
    exact hfiled.readError hg hs hm

/-- Two boards of one make. -/
def board (name : String) : UsbSerialDriver :=
  { device := ⟨0x1d50, 0x614e, name⟩, ports := 1, permission := true, fails := fun _ => false }

/-- Two boards are found, the thread of the first starts and loses its port, and the board
is found again. -/
def reconnectActions : List Action :=
  [.connectAll [board "/dev/bus/usb/001/002", board "/dev/bus/usb/001/003"], .startThread,
    .readError 0, .attached true (some (board "/dev/bus/usb/001/002"))]

/-- In this run two connections are open at the end, and both are referenced. -/
theorem connections_owned_reconnect :
    ∃ s, run step (empty .byPath) reconnectActions = some s ∧ s.openPorts = [2, 1] ∧
      ∀ n ∈ s.openPorts, ∃ uid, s.portMap.lookup uid = some n := by
  have hrun : (run (restrict step Owning) (empty .byPath) reconnectActions).any
      (fun s => s.openPorts = [2, 1]) = true := by
    decide +kernel
  obtain ⟨s, hs, hopen⟩ := (Option.any_eq_true _ _).mp hrun
  have hplain := run_of_run_restrict hs
  exact ⟨s, hplain, of_decide_eq_true hopen, ((connections_owned hplain).2 hs).1⟩

/-- A board is announced twice. -/
def announcedTwice : List Action :=
  [.attached true (some (board "/dev/bus/usb/001/002")),
    .attached true (some (board "/dev/bus/usb/001/002"))]

/-- In this run the first port stays open, and no map refers to it.
SOURCE: UsbSerialManager.kt:166-168 -/
theorem connections_not_owned :
    ¬∀ naming acts s, run step (empty naming) acts = some s →
      (∀ uid, s.nativePortMap.lookup uid = s.portMap.lookup uid ∧
        s.readThreadMap.lookup uid = s.portMap.lookup uid) ∧
      (∀ n ∈ s.openPorts, ∃ uid, s.portMap.lookup uid = some n) ∧
      (∀ n ∈ s.nativePorts, ∃ uid, s.nativePortMap.lookup uid = some n) ∧
      (∀ n ∈ s.readThreads, ∃ uid, s.readThreadMap.lookup uid = some n) ∧
      ∀ n t, step s (.readError n) = some t → ∀ m, m ≠ n → SameOpen m s t := by
  intro h
  have hrun : (run step (empty .byPath) announcedTwice).any (fun s =>
      0 ∈ s.openPorts ∧ ∀ e ∈ s.portMap.entries, e.2 ≠ 0) = true := by
    decide +kernel
  obtain ⟨s, hs, hlost⟩ := (Option.any_eq_true _ _).mp hrun
  obtain ⟨hopen, hnone⟩ := of_decide_eq_true hlost
  obtain ⟨uid, huid⟩ := (h _ _ s hs).2.1 0 hopen
  exact hnone _ (AList.mem_lookup_iff.mp huid) rfl

end UsbSerialManager

end Cream.Model
