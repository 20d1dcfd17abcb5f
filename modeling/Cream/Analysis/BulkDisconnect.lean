import Cream.Analysis.UsbOwnership

/-!
# Disconnecting all devices

`disconnectAll` iterates over the keys of the map that `close` removes from. With no device or
one the loop ends before the iterator notices; with several it throws after the first, and
what the setter of `usbDeviceNaming` was to do afterwards is not done
(`disconnects_all_iff`). The interrupt of a thread whose start is still posted does not reach
it. What the setter reconnects is filed under the new uids as long as these differ.
-/

set_option autoImplicit false

namespace Cream.Model

open Cream.Library.Transition

namespace UsbSerialManager

variable {s t : UsbSerialManager}

/-! ## What is to hold -/

/-- `t` has nothing filed, and what `s` had filed is closed, released and interrupted. -/
structure Disconnected (s t : UsbSerialManager) : Prop where
  portMap : t.portMap.keys = []
  nativePortMap : t.nativePortMap.keys = []
  readThreadMap : t.readThreadMap.keys = []
  closed : ∀ uid n, s.portMap.lookup uid = some n → n ∉ t.openPorts
  released : ∀ uid n, s.nativePortMap.lookup uid = some n → n ∉ t.nativePorts
  interrupted : ∀ uid n, s.readThreadMap.lookup uid = some n → n ∉ t.readThreads

/-- Nothing is open. -/
structure AllClosed (t : UsbSerialManager) : Prop where
  openPorts : t.openPorts = []
  nativePorts : t.nativePorts = []
  readThreads : t.readThreads = []

/-- `disconnectAll` comes back and has disconnected every device. -/
def DisconnectsAll (s : UsbSerialManager) (hash : String → Nat) : Prop :=
  ∃ t, s.disconnectAll hash = .ok t ∧ Disconnected s t

/-- `connect` comes to open a port. -/
def Opens (drv : UsbSerialDriver) : Prop := drv.permission = true ∧ drv.ports ≠ 0

instance (drv : UsbSerialDriver) : Decidable (Opens drv) := inferInstanceAs (Decidable (_ ∧ _))

/-- The number of the call of `connect` for a driver of a list. -/
def callOf (s : UsbSerialManager) (drvs : List UsbSerialDriver) (i : Nat) : Call :=
  s.connects + (drvs.take i).countP fun drv => Opens drv

/-- A connection is filed and open. -/
structure ConnectedAs (s : UsbSerialManager) (uid : String) (n : Call) : Prop where
  filed : s.portMap.lookup uid = some n
  openPort : n ∈ s.openPorts
  nativePort : n ∈ s.nativePorts
  readThread : n ∈ s.readThreads

/-- The setter has disconnected all devices, stored the value and connected every device that
may and can be opened under its new uid. -/
structure Renames (s : UsbSerialManager) (naming : UsbDeviceNaming) (drvs : List UsbSerialDriver)
    (hash : String → Nat) : Prop where
  disconnects : s.DisconnectsAll hash
  stored : (s.setUsbDeviceNaming naming drvs hash).usbDeviceNaming = naming
  reconnects : ∀ i drv, drvs[i]? = some drv → Connects drv 0 →
    ConnectedAs (s.setUsbDeviceNaming naming drvs hash) (getUID naming drv.device)
      (s.callOf drvs i)

/-- The devices that can be opened have uids of their own. -/
def UidsDistinct (naming : UsbDeviceNaming) (drvs : List UsbSerialDriver) : Prop :=
  ((drvs.filter fun drv => Connects drv 0).map fun drv => getUID naming drv.device).Nodup

/-- Every thread that is filed has been started. -/
def ThreadsStarted (s : UsbSerialManager) : Prop := ∀ uid, s.ThreadStarted uid

/-! ## `disconnectAll` -/

/-- A map in which nothing is found has no keys. -/
theorem keys_eq_nil {m : AList fun _ : String => Call} (h : ∀ uid, m.lookup uid = none) :
    m.keys = [] := by
  rw [List.eq_nil_iff_forall_not_mem]
  intro uid huid
  exact AList.lookup_eq_none.mp (h uid) (AList.mem_keys.mpr huid)

/-- `disconnectAll` comes back just when at most one device is connected.
SOURCE: UsbSerialManager.kt:103-107 -/
theorem disconnectAll_ok_iff (hash : String → Nat) :
    (∃ t, s.disconnectAll hash = .ok t) ↔ s.portMap.keys.length ≤ 1 := by
  constructor
  · rintro ⟨t, ht⟩
    rcases disconnectAll_cases s hash with ⟨hlen, -⟩ | ⟨-, uid, -, herror⟩
    · exact hlen
    · rw [ht] at herror
      cases herror
  · intro hlen
    rcases disconnectAll_cases s hash with ⟨-, t, ht, -⟩ | ⟨hmore, -⟩
    · exact ⟨t, ht⟩
    · omega

/-- A manager that has one device connected finds nothing but it. -/
theorem lookup_of_keys_singleton {uid : String} (hkeys : s.portMap.keys = [uid]) {x : String}
    {n : Call} (hx : s.portMap.lookup x = some n) : x = uid := by
  have hmem := AList.mem_keys.mp (AList.lookup_isSome.mp (Option.isSome_of_eq_some hx))
  rw [hkeys] at hmem
  exact List.mem_singleton.mp hmem

/-- What `disconnectAll` leaves when it comes back: nothing filed, and of what was filed only
a thread that has not been started. -/
theorem Filed.disconnectAll_ok (h : Filed s) {hash : String → Nat}
    (ht : s.disconnectAll hash = .ok t) :
    Filed t ∧ t.portMap.keys = [] ∧ ∀ uid n, s.portMap.lookup uid = some n →
      n ∉ t.openPorts ∧ n ∉ t.nativePorts ∧ (n ∉ t.readThreads ↔ n ∈ s.started) := by
  rcases disconnectAll_cases s hash with ⟨-, u, hu, hkeys, hcase⟩ | ⟨-, uid, -, herror⟩
  · rw [ht] at hu
    cases hu
    rcases hcase with ⟨rfl, -⟩ | ⟨uid', -, hone, rfl⟩
    · refine ⟨h, hkeys, fun uid n hn => ?_⟩
      have hmem := AList.mem_keys.mp (AList.lookup_isSome.mp (Option.isSome_of_eq_some hn))
      rw [hkeys] at hmem
      exact (List.not_mem_nil hmem).elim
    · refine ⟨h.close uid', hkeys, fun uid n hn => ?_⟩
      obtain rfl := lookup_of_keys_singleton hone hn
      obtain ⟨hport, hnative, hthread⟩ := h.mem_close uid n
      refine ⟨fun hm => (hport.mp hm).2 hn, fun hm => (hnative.mp hm).2 hn, ?_⟩
      have hrunning := h.running uid n hn
      rw [hthread]
      simp [hn, hrunning]
  · rw [ht] at herror
    cases herror

/-- **With at most one device** everything is disconnected, when its thread has been started.
SOURCE: UsbSerialManager.kt:103-107, UsbSerialManager.kt:181-192 -/
theorem Filed.disconnectsAll_iff (h : Filed s) (hash : String → Nat) :
    s.DisconnectsAll hash ↔ s.portMap.keys.length ≤ 1 ∧ s.ThreadsStarted := by
  constructor
  · rintro ⟨t, ht, hd⟩
    refine ⟨(disconnectAll_ok_iff hash).mp ⟨t, ht⟩, fun uid n hn => ?_⟩
    obtain ⟨-, -, hclosed⟩ := h.disconnectAll_ok ht
    have hport : s.portMap.lookup uid = some n := (h.readThread uid).symm.trans hn
    exact (hclosed uid n hport).2.2.mp (hd.interrupted uid n hn)
  · rintro ⟨hlen, hstarted⟩
    obtain ⟨t, ht⟩ := (disconnectAll_ok_iff hash).mpr hlen
    obtain ⟨hfiled, hkeys, hclosed⟩ := h.disconnectAll_ok ht
    have hnone : ∀ uid, t.portMap.lookup uid = none := fun uid => by
      rw [AList.lookup_eq_none, AList.mem_keys, hkeys]
      exact List.not_mem_nil
    refine ⟨t, ht, hkeys, keys_eq_nil fun uid => ?_, keys_eq_nil fun uid => ?_,
      fun uid n hn => (hclosed uid n hn).1, fun uid n hn => ?_, fun uid n hn => ?_⟩
    · rw [hfiled.nativePort]
      exact hnone uid
    · rw [hfiled.readThread]
      exact hnone uid
    · rw [h.nativePort] at hn
      exact (hclosed uid n hn).2.1
    · have hport : s.portMap.lookup uid = some n := (h.readThread uid).symm.trans hn
      exact (hclosed uid n hport).2.2.mpr (hstarted uid n hn)

/-! ## `connectAll` -/

/-- A driver without ports is passed to `connect` as well, which does nothing with it. -/
theorem connectAll_cons (drv : UsbSerialDriver) (drvs : List UsbSerialDriver) :
    s.connectAll (drv :: drvs) = (s.connect drv 0).connectAll drvs := by
  rw [connectAll]
  split
  · rfl
  · next hports =>
    have hskip : s.connect drv 0 = s := by
      simp only [ne_eq, not_not] at hports
      unfold connect
      simp [hports]
    rw [hskip]

/-- `connect` takes the next number when it comes to open a port. -/
theorem connects_connect (drv : UsbSerialDriver) :
    (s.connect drv 0).connects = s.connects + if Opens drv then 1 else 0 := by
  unfold connect Opens
  by_cases hperm : drv.permission = true
  · by_cases hports : drv.ports = 0
    · simp [hperm, hports]
    · simp only [hperm, hports, Bool.not_true, Bool.false_eq_true, if_false, ne_eq, not_false_eq_true,
        and_self, if_true]
      cases drv.failure 0 with
      | none => rfl
      | some st => cases st <;> rfl
  · simp [hperm]

/-- `connect` closes nothing. -/
theorem connect_mono (drv : UsbSerialDriver) {n : Call} :
    (n ∈ s.openPorts → n ∈ (s.connect drv 0).openPorts) ∧
      (n ∈ s.nativePorts → n ∈ (s.connect drv 0).nativePorts) ∧
      (n ∈ s.readThreads → n ∈ (s.connect drv 0).readThreads) := by
  rcases connect_cases s drv 0 with ⟨-, -, m, -, heq⟩ | ⟨-, heq⟩ | ⟨-, -, heq⟩
  · rw [heq]
    exact ⟨id, id, id⟩
  · rw [heq]
    exact ⟨List.mem_cons_of_mem _, id, id⟩
  · rw [heq]
    exact ⟨List.mem_cons_of_mem _, List.mem_cons_of_mem _, List.mem_cons_of_mem _⟩

/-- A connection stays while its uid is not connected again. -/
theorem ConnectedAs.connectAll {uid : String} {n : Call} (h : ConnectedAs s uid n)
    {drvs : List UsbSerialDriver}
    (hother : ∀ drv ∈ drvs, Connects drv 0 → s.uidOf drv.device ≠ uid) :
    ConnectedAs (s.connectAll drvs) uid n := by
  induction drvs generalizing s with
  | nil => exact h
  | cons drv drvs ih =>
    rw [connectAll_cons]
    obtain ⟨hport, hnative, hthread⟩ := connect_mono (s := s) drv (n := n)
    refine ih ⟨?_, hport h.openPort, hnative h.nativePort, hthread h.readThread⟩ fun d hd hc => ?_
    · rcases lookup_connect (s := s) drv 0 uid with heq | ⟨hc, heq⟩
      · rw [heq]
        exact h.filed
      · exact absurd heq.symm (hother drv List.mem_cons_self hc)
    · rw [uidOf, connect_naming, ← uidOf]
      exact hother d (List.mem_cons_of_mem _ hd) hc

/-- **Devices with uids of their own** are all connected under them. -/
theorem connectAll_connected {drvs : List UsbSerialDriver} (h : UidsDistinct s.usbDeviceNaming drvs)
    {i : Nat} {drv : UsbSerialDriver} (hi : drvs[i]? = some drv) (hc : Connects drv 0) :
    ConnectedAs (s.connectAll drvs) (s.uidOf drv.device) (s.callOf drvs i) := by
  induction drvs generalizing s i with
  | nil => cases hi
  | cons d drvs ih =>
    rw [connectAll_cons]
    have hnaming : (s.connect d 0).usbDeviceNaming = s.usbDeviceNaming := connect_naming d 0
    cases i with
    | zero =>
      obtain rfl : d = drv := Option.some.inj hi
      have hnew : ConnectedAs (s.connect d 0) (s.uidOf d.device) s.connects := by
        rcases connect_cases s d 0 with ⟨hnot, -⟩ | ⟨hfail, -⟩ | ⟨-, -, heq⟩
        · exact absurd hc hnot
        · obtain ⟨-, -, st, hst, -⟩ := hfail
          rw [hc.2.2] at hst
          cases hst
        · rw [heq]
          exact ⟨by rw [lookup_register, if_pos rfl], List.mem_cons_self, List.mem_cons_self,
            List.mem_cons_self⟩
      refine hnew.connectAll fun e he hce heq => ?_
      -- no other device has its uid
      unfold UidsDistinct at h
      rw [List.filter_cons_of_pos (by simpa using hc), List.map_cons, List.nodup_cons] at h
      refine h.1 (List.mem_map.mpr ⟨e, List.mem_filter.mpr ⟨he, by simpa using hce⟩, ?_⟩)
      rw [uidOf, hnaming] at heq
      exact heq
    | succ i =>
      have hrest : UidsDistinct (s.connect d 0).usbDeviceNaming drvs := by
        rw [hnaming]
        exact ((List.sublist_cons_self d drvs).filter _ |>.map _).nodup h
      have hconnected := ih hrest hi
      have hcall : (s.connect d 0).callOf drvs i = s.callOf (d :: drvs) (i + 1) := by
        unfold callOf
        rw [connects_connect, List.take_succ_cons, List.countP_cons]
        by_cases hd : Opens d
        · simp only [hd, decide_true, if_true]
          lia
        · simp only [hd, decide_false, Bool.false_eq_true, if_false]
          lia
      rw [hcall, uidOf, hnaming] at hconnected
      exact hconnected

/-- `connectAll` leaves the naming. -/
theorem connectAll_naming (drvs : List UsbSerialDriver) :
    (s.connectAll drvs).usbDeviceNaming = s.usbDeviceNaming := by
  induction drvs generalizing s with
  | nil => rfl
  | cons drv drvs ih => rw [connectAll_cons, ih, connect_naming]

/-- Calls for different drivers have different numbers. -/
theorem callOf_lt {drvs : List UsbSerialDriver} {i j : Nat} {drv : UsbSerialDriver} (hij : i < j)
    (hi : drvs[i]? = some drv) (hopen : Opens drv) : s.callOf drvs i < s.callOf drvs j := by
  have hlt : i < drvs.length := (List.getElem?_eq_some_iff.mp hi).1
  have hsub : drvs.take (i + 1) <+: drvs.take j := List.take_prefix_take_left hij
  have hcount := hsub.sublist.countP_le (p := fun drv => decide (Opens drv))
  rw [List.take_add_one, hi, List.countP_append] at hcount
  unfold callOf
  simp [hopen] at hcount ⊢
  lia

/-! ## Every reachable state -/

/-- `disconnectAll` that comes back loses nothing when the thread filed has been started. -/
theorem Referenced.disconnectAll (hr : Referenced s) (h : Filed s) (hstarted : s.ThreadsStarted)
    {hash : String → Nat} (ht : s.disconnectAll hash = .ok t) : Referenced t := by
  rcases disconnectAll_cases s hash with ⟨-, u, hu, -, hcase⟩ | ⟨-, uid, -, herror⟩
  · rw [ht] at hu
    cases hu
    rcases hcase with ⟨rfl, -⟩ | ⟨uid, -, -, rfl⟩
    · exact hr
    · exact hr.close h (hstarted uid)
  · rw [ht] at herror
    cases herror

/-- What `disconnectAll` leaves nothing open of was referenced before. -/
theorem Filed.referenced_of_allClosed (h : Filed s) {hash : String → Nat}
    (ht : s.disconnectAll hash = .ok t) (hc : AllClosed t) : Referenced s := by
  rcases disconnectAll_cases s hash with ⟨-, u, hu, -, hcase⟩ | ⟨-, uid, -, herror⟩
  · rw [ht] at hu
    cases hu
    rcases hcase with ⟨rfl, -⟩ | ⟨uid, -, -, rfl⟩
    · refine ⟨?_, ?_, ?_⟩
      · rw [hc.openPorts]
        exact fun _ hn => (List.not_mem_nil hn).elim
      · rw [hc.nativePorts]
        exact fun _ hn => (List.not_mem_nil hn).elim
      · rw [hc.readThreads]
        exact fun _ hn => (List.not_mem_nil hn).elim
    · -- what was open is what `close` closed
      have hmade : ∀ n, s.portMap.lookup uid = some n →
          s.portMap.lookup (s.threadUid n) = some n := fun n hn => by
        rw [(h.made uid n hn).2]
        exact hn
      refine ⟨fun n hn => hmade n ?_, fun n hn => hmade n ?_, fun n hn => hmade n ?_⟩
      · by_contra hother
        have hleft := (h.mem_close uid n).1.mpr ⟨hn, hother⟩
        rw [hc.openPorts] at hleft
        exact List.not_mem_nil hleft
      · by_contra hother
        have hleft := (h.mem_close uid n).2.1.mpr ⟨hn, hother⟩
        rw [hc.nativePorts] at hleft
        exact List.not_mem_nil hleft
      · by_contra hother
        have hleft := (h.mem_close uid n).2.2.mpr ⟨hn, fun hboth => hother hboth.1⟩
        rw [hc.readThreads] at hleft
        exact List.not_mem_nil hleft
  · rw [ht] at herror
    cases herror

/-- Nothing is open after `disconnectAll` when, besides, nothing was lost before. -/
theorem Filed.allClosed_iff (h : Filed s) (hash : String → Nat) :
    (∃ t, s.disconnectAll hash = .ok t ∧ Disconnected s t ∧ AllClosed t) ↔
      s.portMap.keys.length ≤ 1 ∧ s.ThreadsStarted ∧ Referenced s := by
  constructor
  · rintro ⟨t, ht, hd, hc⟩
    obtain ⟨hlen, hstarted⟩ := (h.disconnectsAll_iff hash).mp ⟨t, ht, hd⟩
    exact ⟨hlen, hstarted, h.referenced_of_allClosed ht hc⟩
  · rintro ⟨hlen, hstarted, hr⟩
    obtain ⟨t, ht, hd⟩ := (h.disconnectsAll_iff hash).mpr ⟨hlen, hstarted⟩
    have htr : Referenced t := hr.disconnectAll h hstarted ht
    have hnone : ∀ n, t.portMap.lookup (t.threadUid n) ≠ some n := fun n hn => by
      have hmem := AList.mem_keys.mp (AList.lookup_isSome.mp (Option.isSome_of_eq_some hn))
      rw [hd.portMap] at hmem
      exact List.not_mem_nil hmem
    refine ⟨t, ht, hd, ?_, ?_, ?_⟩
    · exact List.eq_nil_iff_forall_not_mem.mpr fun n hn => hnone n (htr.ports n hn)
    · exact List.eq_nil_iff_forall_not_mem.mpr fun n hn => hnone n (htr.nativePorts n hn)
    · exact List.eq_nil_iff_forall_not_mem.mpr fun n hn => hnone n (htr.readThreads n hn)

/-- What the setter does when `disconnectAll` comes back. -/
theorem setUsbDeviceNaming_ok {hash : String → Nat} (ht : s.disconnectAll hash = .ok t)
    (naming : UsbDeviceNaming) (drvs : List UsbSerialDriver) :
    s.setUsbDeviceNaming naming drvs hash =
      ({ t with usbDeviceNaming := naming } : UsbSerialManager).connectAll drvs := by
  unfold setUsbDeviceNaming
  rw [ht]

/-- `disconnectAll` connects nothing. -/
theorem disconnectAll_connects {hash : String → Nat} (ht : s.disconnectAll hash = .ok t) :
    t.connects = s.connects := by
  rcases disconnectAll_cases s hash with ⟨-, u, hu, -, hcase⟩ | ⟨-, uid, -, herror⟩
  · rw [ht] at hu
    cases hu
    rcases hcase with ⟨rfl, -⟩ | ⟨uid, -, -, rfl⟩
    · rfl
    · rfl
  · rw [ht] at herror
    cases herror

/-- Devices that are all connected have uids of their own. -/
theorem uidsDistinct_of_connected {naming : UsbDeviceNaming} {drvs : List UsbSerialDriver}
    (h : ∀ i drv, drvs[i]? = some drv → Connects drv 0 →
      ConnectedAs t (getUID naming drv.device) (s.callOf drvs i)) :
    UidsDistinct naming drvs := by
  have hpair : drvs.Pairwise fun a b => Connects a 0 → Connects b 0 →
      getUID naming a.device ≠ getUID naming b.device := by
    rw [List.pairwise_iff_getElem]
    intro i j hi hj hij ha hb heq
    have hfirst := (h i _ (List.getElem?_eq_getElem hi) ha).filed
    have hsecond := (h j _ (List.getElem?_eq_getElem hj) hb).filed
    rw [heq, hsecond] at hfirst
    have hlt := callOf_lt (s := s) hij (List.getElem?_eq_getElem hi) ⟨ha.1, ha.2.1⟩
    exact Nat.ne_of_lt hlt (Option.some.inj hfirst).symm
  unfold UidsDistinct
  rw [List.Nodup, List.pairwise_map, List.pairwise_filter]
  refine hpair.imp fun hab ha hb => ?_
  exact hab (of_decide_eq_true ha) (of_decide_eq_true hb)

/-- **The setter** does all its steps just when the first does not throw and its interrupt
arrives, and no two devices it connects get one uid.
SOURCE: Prefs.kt:177-184 -/
theorem Filed.renames_iff (h : Filed s) (naming : UsbDeviceNaming) (drvs : List UsbSerialDriver)
    (hash : String → Nat) :
    Renames s naming drvs hash ↔
      s.portMap.keys.length ≤ 1 ∧ s.ThreadsStarted ∧ UidsDistinct naming drvs := by
  constructor
  · intro hr
    obtain ⟨hlen, hstarted⟩ := (h.disconnectsAll_iff hash).mp hr.disconnects
    exact ⟨hlen, hstarted, uidsDistinct_of_connected hr.reconnects⟩
  · rintro ⟨hlen, hstarted, huids⟩
    obtain ⟨t, ht, hd⟩ := (h.disconnectsAll_iff hash).mpr ⟨hlen, hstarted⟩
    refine ⟨⟨t, ht, hd⟩, ?_, fun i drv hi hc => ?_⟩
    · rw [setUsbDeviceNaming_ok ht, connectAll_naming]
    · rw [setUsbDeviceNaming_ok ht]
      have hconnected := connectAll_connected
        (s := ({ t with usbDeviceNaming := naming } : UsbSerialManager)) huids hi hc
      have hcall : callOf { t with usbDeviceNaming := naming } drvs i = s.callOf drvs i := by
        unfold callOf
        rw [disconnectAll_connects ht]
      rw [hcall] at hconnected
      exact hconnected

/-- **Disconnecting and renaming** in every reachable state: `disconnectAll` comes back, with
every device disconnected, just when at most one is connected and its thread has been started;
it leaves nothing open when, besides, nothing was lost before; and the setter does all it is
to do just when at most one device is connected, its thread has been started and the devices
to connect have uids of their own.
SOURCE: UsbSerialManager.kt:93-116, Prefs.kt:177-184 -/
theorem disconnects_all_iff {naming₀ : UsbDeviceNaming} {acts : List Action}
    (hrun : run step (empty naming₀) acts = some s) (hash : String → Nat)
    (naming : UsbDeviceNaming) (drvs : List UsbSerialDriver) :
    (s.DisconnectsAll hash ↔ s.portMap.keys.length ≤ 1 ∧ s.ThreadsStarted) ∧
      ((∃ t, s.disconnectAll hash = .ok t ∧ Disconnected s t ∧ AllClosed t) ↔
        s.portMap.keys.length ≤ 1 ∧ s.ThreadsStarted ∧ Referenced s) ∧
      (Renames s naming drvs hash ↔
        s.portMap.keys.length ≤ 1 ∧ s.ThreadsStarted ∧ UidsDistinct naming drvs) := by
  have h : Filed s :=
    run_invariant (fun _ _ _ h hs => (owned_step h hs).1) (filed_empty naming₀) hrun
  exact ⟨h.disconnectsAll_iff hash, h.allClosed_iff hash, h.renames_iff naming drvs hash⟩

/-- One board is connected, its thread is started, and the naming changed. -/
theorem disconnects_all_iff_one :
    ∃ s, run step (empty .byPath) [.connectAll [board "/dev/bus/usb/001/002"], .startThread] =
        some s ∧
      Renames s .byVidPid [board "/dev/bus/usb/001/002"] fun _ => 0 := by
  have hrun : (run step (empty .byPath)
      [.connectAll [board "/dev/bus/usb/001/002"], .startThread]).any
      (fun s => s.portMap.keys.length ≤ 1 ∧ ∀ e ∈ s.readThreadMap.entries, e.2 ∈ s.started) =
        true := by
    decide +kernel
  obtain ⟨s, hs, hstate⟩ := (Option.any_eq_true _ _).mp hrun
  obtain ⟨hlen, hstarted⟩ := of_decide_eq_true hstate
  refine ⟨s, hs, ((disconnects_all_iff hs (fun _ => 0) .byVidPid
    [board "/dev/bus/usb/001/002"]).2.2).mpr ⟨hlen, fun uid n hn => ?_, ?_⟩⟩
  · exact hstarted _ (AList.mem_lookup_iff.mp hn)
  · unfold UidsDistinct
    decide +kernel

/-- With two boards connected `disconnectAll` throws, and the new naming is not stored.
SOURCE: UsbSerialManager.kt:103-107 -/
theorem two_devices_not_disconnected :
    ¬∀ naming₀ acts s, run step (empty naming₀) acts = some s → ∀ hash naming drvs,
      s.DisconnectsAll hash ∧ (s.setUsbDeviceNaming naming drvs hash).usbDeviceNaming = naming := by
  intro h
  have hrun : (run step (empty .byPath) [.connectAll [board "/dev/bus/usb/001/002",
      board "/dev/bus/usb/001/003"]]).any (fun s =>
        (s.setUsbDeviceNaming .byVidPid [] fun _ => 0).usbDeviceNaming = .byPath) = true := by
    decide +kernel
  obtain ⟨s, hs, hold⟩ := (Option.any_eq_true _ _).mp hrun
  have hnew := (h _ _ s hs (fun _ => 0) .byVidPid []).2
  rw [of_decide_eq_true hold] at hnew
  cases hnew

end UsbSerialManager

end Cream.Model
