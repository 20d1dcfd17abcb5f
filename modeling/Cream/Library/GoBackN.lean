import Mathlib.Data.List.Sort
import Mathlib.Data.Nat.ModEq
import Cream.Library.Transition

/-!
# Sliding windows

A sender numbers its messages and sends those again that are not acknowledged. A receiver takes
the message with the number it expects, drops all others, and answers with the number it expects.
The lines between them keep the order and may lose anything, and a number is known there modulo
`modulus` only. The receiver may expect any number from the sender's first one on, as far as a
remainder can tell; the messages before that one are never delivered. From it on what was
delivered is what was sent, in order and without gaps (`Inv.delivered`), what was acknowledged was
delivered (`Inv.base_le_expected`), and no answer is ever taken for one the receiver could not have
given (`Inv.decode`).
-/

set_option autoImplicit false

namespace Cream.Library.GoBackN

variable {α : Type*}

structure Config where
  modulus : Nat
  /-- how many messages may be without acknowledgment -/
  window : Nat
  /-- the first number of the sender -/
  first : Nat
  /-- the first number the receiver expects -/
  start : Nat
  first_le : first ≤ start
  near : start < first + modulus
  small : window < modulus

structure State (α : Type*) where
  /-- the oldest number that is not acknowledged -/
  base : Nat
  /-- the number of the next message -/
  next : Nat
  /-- the number the receiver expects -/
  expected : Nat
  /-- all messages, with their numbers -/
  sent : List (Nat × α)
  /-- messages under way, the oldest first -/
  data : List (Nat × α)
  /-- answers under way -/
  acks : List Nat
  /-- what the receiver has taken -/
  delivered : List (Nat × α)

/-- The messages that are not acknowledged. -/
def State.outstanding (s : State α) : List (Nat × α) := s.sent.filter (s.base ≤ ·.1)

/-- The number that is meant by a remainder: the first from `base` on. -/
def decode (modulus base k : Nat) : Nat := base + (k + (modulus - base % modulus)) % modulus

inductive Event (α : Type*) where
  | send (a : α)
  | resend
  | loseData (i : Nat)
  | loseAck (i : Nat)
  | deliver
  | answer
  | ack

/-- What the sender makes of an answer. Before the first one it takes the number it is told;
after that it does not believe in answers to what it has not sent. -/
def State.acknowledge (c : Config) (s : State α) (k : Nat) : State α :=
  let r := decode c.modulus s.base k
  if s.next < r ∧ s.base ≠ c.first then s
  else { s with base := r, next := max s.next r }

def step (c : Config) (s : State α) : Event α → Option (State α)
  | .send a =>
    if s.next < s.base + c.window then
      some { s with next := s.next + 1, sent := s.sent ++ [(s.next, a)],
                    data := s.data ++ [(s.next, a)] }
    else none
  | .resend => some { s with data := s.data ++ s.outstanding }
  | .loseData i => some { s with data := s.data.eraseIdx i }
  | .loseAck i => some { s with acks := s.acks.eraseIdx i }
  | .deliver =>
    match s.data with
    | [] => none
    | x :: data =>
      if x.1 % c.modulus = s.expected % c.modulus then
        some { s with data, expected := s.expected + 1, delivered := s.delivered ++ [x] }
      else some { s with data }
  | .answer => some { s with acks := s.acks ++ [s.expected] }
  | .ack =>
    match s.acks with
    | [] => none
    | k :: acks => some ({ s with acks }.acknowledge c k)

def initial (c : Config) : State α := ⟨c.first, c.first, c.start, [], [], [], []⟩

/-! ## Numbers -/

/-- Numbers with the same remainder that are near to each other are the same. -/
theorem eq_of_mod_eq {m a b : Nat} (h : a % m = b % m) (hab : a < b + m) (hba : b < a + m) :
    a = b := by
  have hmod : a ≡ b [MOD m] := h
  rcases Nat.le_total a b with hle | hle
  · obtain ⟨k, hk⟩ := (Nat.modEq_iff_dvd' hle).mp hmod
    have hzero : k = 0 := by
      by_contra hne
      have := Nat.le_mul_of_pos_right m (Nat.pos_of_ne_zero hne)
      omega
    rw [hzero, Nat.mul_zero] at hk
    omega
  · obtain ⟨k, hk⟩ := (Nat.modEq_iff_dvd' hle).mp hmod.symm
    have hzero : k = 0 := by
      by_contra hne
      have := Nat.le_mul_of_pos_right m (Nat.pos_of_ne_zero hne)
      omega
    rw [hzero, Nat.mul_zero] at hk
    omega

/-- A number within reach is recovered from its remainder. -/
theorem decode_eq {modulus base k : Nat} (hle : base ≤ k) (hlt : k < base + modulus) :
    decode modulus base k = k := by
  have hbase := Nat.mod_add_div base modulus
  have hrem : base % modulus < modulus := Nat.mod_lt base (by omega)
  have hshift : k + (modulus - base % modulus) = (k - base) + modulus * (base / modulus + 1) := by
    rw [Nat.mul_add]
    omega
  rw [decode, hshift, Nat.add_mul_mod_self_left, Nat.mod_eq_of_lt (by omega)]
  omega

/-! ## What holds in every run -/

/-- The messages with the numbers from `a` to `b`. -/
def between (a b : Nat) (l : List (Nat × α)) : List (Nat × α) :=
  l.filter fun x => decide (a ≤ x.1) && decide (x.1 < b)

/-- Which messages these are. -/
theorem mem_between {a b : Nat} {l : List (Nat × α)} {x : Nat × α} :
    x ∈ between a b l ↔ x ∈ l ∧ a ≤ x.1 ∧ x.1 < b := by
  simp [between]

/-- Messages behind each other. -/
theorem between_append (a b : Nat) (l l' : List (Nat × α)) :
    between a b (l ++ l') = between a b l ++ between a b l' := List.filter_append ..

/-- There are none. -/
theorem between_eq_nil {a b : Nat} {l : List (Nat × α)} (h : ∀ x ∈ l, a ≤ x.1 → b ≤ x.1) :
    between a b l = [] := by
  refine List.filter_eq_nil_iff.mpr fun x hx => ?_
  have := h x hx
  simpa using this

/-- The next number is that of one message. -/
theorem between_succ {l : List (Nat × α)} (hl : l.Pairwise fun x y => x.1 < y.1) {x : Nat × α}
    (hx : x ∈ l) {a : Nat} (ha : a ≤ x.1) :
    between a (x.1 + 1) l = between a x.1 l ++ [x] := by
  induction l with
  | nil => cases hx
  | cons y l ih =>
    obtain ⟨hy, hl⟩ := List.pairwise_cons.mp hl
    rcases List.mem_cons.mp hx with rfl | hx
    · have hsucc : between a (x.1 + 1) l = [] := between_eq_nil fun z hz _ => hy z hz
      have hlt : between a x.1 l = [] := between_eq_nil fun z hz _ => (hy z hz).le
      have hfst : x.1 < x.1 + 1 := Nat.lt_succ_self _
      unfold between at hsucc hlt ⊢
      simp only [List.filter_cons, hsucc, hlt, ha, hfst, lt_irrefl, decide_true, decide_false,
        Bool.and_self, Bool.and_false, if_true, if_false, Bool.false_eq_true, List.nil_append]
    · have hlt := hy x hx
      have hsame : decide (y.1 < x.1 + 1) = decide (y.1 < x.1) := by
        simp only [decide_eq_decide]
        omega
      have hrest := ih hl hx
      unfold between at hrest ⊢
      rw [List.filter_cons, List.filter_cons, hrest, hsame]
      split <;> rfl

/-- In order, the messages before some number, those up to another, and the others follow each
other. -/
theorem eq_append_between {l : List (Nat × α)} (hl : l.Pairwise fun x y => x.1 < y.1) {a b : Nat}
    (hab : a ≤ b) :
    l = l.filter (fun x => decide (x.1 < a)) ++ between a b l ++
      l.filter (fun x => decide (b ≤ x.1)) := by
  induction l with
  | nil => rfl
  | cons x l ih =>
    obtain ⟨hx, hl⟩ := List.pairwise_cons.mp hl
    have hrest := ih hl
    rcases Nat.lt_or_ge x.1 a with ha | ha
    · have hb : ¬b ≤ x.1 := by omega
      have hna : ¬a ≤ x.1 := by omega
      unfold between at hrest ⊢
      simp only [List.filter_cons, ha, hb, hna, decide_true, decide_false, if_true, if_false,
        Bool.false_and, Bool.false_eq_true, List.cons_append, List.cons.injEq, true_and]
      exact hrest
    · have hna : ¬x.1 < a := by omega
      have hnone : l.filter (fun y => decide (y.1 < a)) = [] :=
        List.filter_eq_nil_iff.mpr fun y hy => by
          have := hx y hy
          simp only [decide_eq_true_eq]
          omega
      rw [hnone, List.nil_append] at hrest
      rcases Nat.lt_or_ge x.1 b with hb | hb
      · have hnb : ¬b ≤ x.1 := by omega
        unfold between at hrest ⊢
        simp only [List.filter_cons, ha, hb, hna, hnb, hnone, decide_true, decide_false, if_true,
          if_false, Bool.and_self, Bool.false_eq_true, List.nil_append, List.cons_append,
          List.cons.injEq, true_and]
        exact hrest
      · have hnb : ¬x.1 < b := by omega
        have hnone' : between a b l = [] := between_eq_nil fun y hy _ => by
          have := hx y hy
          omega
        rw [hnone', List.nil_append] at hrest
        have hcons : between a b (x :: l) = [] := by
          unfold between at hnone' ⊢
          simp only [List.filter_cons, hnb, hnone', decide_false, Bool.and_false,
            Bool.false_eq_true, if_false]
        rw [hcons]
        simp only [List.filter_cons, hna, hb, hnone, decide_true, decide_false, if_true, if_false,
          Bool.false_eq_true, List.nil_append, List.cons.injEq, true_and]
        exact hrest

/-- What holds in every run. -/
structure Inv (c : Config) (s : State α) : Prop where
  sorted : s.sent.Pairwise fun x y => x.1 < y.1
  sent_lt : ∀ x ∈ s.sent, c.first ≤ x.1 ∧ x.1 < s.next
  whole : ∀ n, c.start ≤ n → n < s.next → ∃ a, (n, a) ∈ s.sent
  outstanding : s.outstanding.map (·.1) = List.range' s.base (s.next - s.base)
  data_sent : ∀ x ∈ s.data, x ∈ s.sent
  /-- no message is so old that its number is expected again -/
  data_near : ∀ x ∈ s.data, s.expected < x.1 + c.modulus
  /-- nor will it be when the ones before it have arrived -/
  data_order : s.data.Pairwise fun x y => x.1 + 1 < y.1 + c.modulus
  acks_le : ∀ k ∈ s.acks, s.base ≤ k ∧ k ≤ s.expected
  acks_start : ∀ k ∈ s.acks, c.start ≤ k
  acks_sorted : s.acks.Pairwise (· ≤ ·)
  base_le : s.base ≤ s.next
  window : s.next ≤ s.base + c.window
  delivered : s.delivered = between c.start s.expected s.sent
  start_le : c.start ≤ s.expected
  base_le_expected : s.base ≤ s.expected
  expected_le : s.expected ≤ max c.start s.next
  /-- the sender has not heard of the receiver's numbers yet, or it has -/
  heard : s.base = c.first ∨ c.start ≤ s.base

/-- The invariant holds at the start. -/
theorem inv_initial (c : Config) : Inv c (initial c : State α) where
  sorted := .nil
  sent_lt := by simp [initial]
  whole n hn hlt := by
    have := c.first_le
    simp only [initial] at hlt
    omega
  outstanding := by simp [initial, State.outstanding]
  data_sent := by simp [initial]
  data_near := by simp [initial]
  data_order := .nil
  acks_le := by simp [initial]
  acks_start := by simp [initial]
  acks_sorted := .nil
  base_le := le_rfl
  window := Nat.le_add_right _ _
  delivered := rfl
  start_le := le_rfl
  base_le_expected := c.first_le
  expected_le := le_max_left _ _
  heard := .inl rfl

section Steps

variable {c : Config} {s : State α}

/-- The sender's first number is behind it, or there. -/
theorem Inv.first_le (h : Inv c s) : c.first ≤ s.base := by
  have hfirst := c.first_le
  rcases h.heard with hbase | hbase <;> omega

/-- The receiver's number is within reach of the sender's. -/
theorem Inv.expected_lt (h : Inv c s) : s.expected < s.base + c.modulus := by
  have hnear := c.near
  have hsmall := c.small
  have hwindow := h.window
  have hbase := h.base_le
  have hexpected := h.expected_le
  rcases h.heard with hb | hb <;> omega

/-- **The sender knows which number is meant** by an answer. -/
theorem Inv.decode (h : Inv c s) {k : Nat} (hk : k ∈ s.acks) : decode c.modulus s.base k = k := by
  have hle := h.acks_le k hk
  have hlt := h.expected_lt
  exact decode_eq hle.1 (by omega)

/-- **The receiver knows which message it has**: only the one it expects has its number. -/
theorem Inv.taken (h : Inv c s) {x : Nat × α} (hx : x ∈ s.data)
    (hmod : x.1 % c.modulus = s.expected % c.modulus) :
    x.1 = s.expected ∧ s.expected < s.next := by
  have hsmall := c.small
  have hwindow := h.window
  have hle := h.base_le_expected
  have hsent := h.sent_lt x (h.data_sent x hx)
  have hdata := h.data_near x hx
  have heq := eq_of_mod_eq hmod (by omega) hdata
  omega

/-- Messages may be lost. -/
theorem Inv.mono_data (h : Inv c s) {data : List (Nat × α)} (hdata : data.Sublist s.data) :
    Inv c { s with data } :=
  { h with
    data_sent := fun x hx => h.data_sent x (hdata.subset hx)
    data_near := fun x hx => h.data_near x (hdata.subset hx)
    data_order := h.data_order.sublist hdata }

/-- Answers may be lost. -/
theorem Inv.mono_acks (h : Inv c s) {acks : List Nat} (hacks : acks.Sublist s.acks) :
    Inv c { s with acks } :=
  { h with
    acks_le := fun k hk => h.acks_le k (hacks.subset hk)
    acks_start := fun k hk => h.acks_start k (hacks.subset hk)
    acks_sorted := h.acks_sorted.sublist hacks }

/-- A message is sent. -/
theorem Inv.send (h : Inv c s) (hnext : s.next < s.base + c.window) (a : α) :
    Inv c { s with next := s.next + 1, sent := s.sent ++ [(s.next, a)],
                   data := s.data ++ [(s.next, a)] } := by
  have hsmall := c.small
  have hbase := h.base_le
  have hexpected := h.expected_lt
  have hfirst := h.first_le
  have hle := h.expected_le
  have hdata : ∀ x ∈ s.data, x.1 < s.next := fun x hx => (h.sent_lt x (h.data_sent x hx)).2
  refine { h with sorted := ?_, sent_lt := ?_, whole := ?_, outstanding := ?_, data_sent := ?_,
                  data_near := ?_, data_order := ?_, base_le := ?_, window := ?_, delivered := ?_,
                  expected_le := ?_ }
  · refine List.pairwise_append.mpr ⟨h.sorted, List.pairwise_singleton _ _, fun x hx y hy => ?_⟩
    rw [List.mem_singleton.mp hy]
    exact (h.sent_lt x hx).2
  · intro x hx
    dsimp only
    rcases List.mem_append.mp hx with hx | hx
    · have := h.sent_lt x hx
      omega
    · rw [List.mem_singleton.mp hx]
      dsimp only
      omega
  · intro n hn hlt
    dsimp only at hlt ⊢
    by_cases hlast : n = s.next
    · exact ⟨a, by simp [hlast]⟩
    · obtain ⟨b, hb⟩ := h.whole n hn (by omega)
      exact ⟨b, List.mem_append_left _ hb⟩
  · have hrange : s.next + 1 - s.base = (s.next - s.base) + 1 := by omega
    have hout : (State.outstanding { s with
        next := s.next + 1, sent := s.sent ++ [(s.next, a)], data := s.data ++ [(s.next, a)] }) =
        s.outstanding ++ [(s.next, a)] := by
      simp [State.outstanding, List.filter_append, hbase]
    dsimp only
    rw [hout, List.map_append, h.outstanding, hrange, List.range'_concat, Nat.one_mul,
      Nat.add_sub_cancel' hbase]
    rfl
  · intro x hx
    rcases List.mem_append.mp hx with hx | hx
    · exact List.mem_append_left _ (h.data_sent x hx)
    · exact List.mem_append_right _ hx
  · intro x hx
    rcases List.mem_append.mp hx with hx | hx
    · exact h.data_near x hx
    · rw [List.mem_singleton.mp hx]
      dsimp only
      omega
  · refine List.pairwise_append.mpr ⟨h.data_order, List.pairwise_singleton _ _, fun x hx y hy => ?_⟩
    rw [List.mem_singleton.mp hy]
    have := hdata x hx
    dsimp only
    omega
  · dsimp only
    omega
  · dsimp only
    omega
  · dsimp only
    have hnew : between c.start s.expected [(s.next, a)] = [] := between_eq_nil fun x hx hstart => by
      rw [List.mem_singleton.mp hx] at hstart ⊢
      dsimp only at hstart ⊢
      omega
    rw [between_append, hnew, List.append_nil, h.delivered]
  · dsimp only
    omega

/-- The outstanding messages are sent again. -/
theorem Inv.resend (h : Inv c s) : Inv c { s with data := s.data ++ s.outstanding } := by
  have hsmall := c.small
  have hwindow := h.window
  have hexpected := h.expected_lt
  have hout : ∀ x ∈ s.outstanding, x ∈ s.sent ∧ s.base ≤ x.1 := fun x hx => by
    simpa [State.outstanding] using hx
  refine { h with data_sent := ?_, data_near := ?_, data_order := ?_ }
  · intro x hx
    exact (List.mem_append.mp hx).elim (h.data_sent x) fun hx => (hout x hx).1
  · intro x hx
    rcases List.mem_append.mp hx with hx | hx
    · exact h.data_near x hx
    · have := (hout x hx).2
      dsimp only
      omega
  · refine List.pairwise_append.mpr ⟨h.data_order, ?_, fun x hx y hy => ?_⟩
    · refine (h.sorted.sublist List.filter_sublist).imp fun {x y} hxy => ?_
      omega
    · have hlt := (h.sent_lt x (h.data_sent x hx)).2
      have hge := (hout y hy).2
      omega

/-- A message arrives that the receiver expects. -/
theorem Inv.deliver (h : Inv c s) {x : Nat × α} {data : List (Nat × α)} (hdata : s.data = x :: data)
    (hmod : x.1 % c.modulus = s.expected % c.modulus) :
    Inv c { s with data, expected := s.expected + 1, delivered := s.delivered ++ [x] } := by
  have hx : x ∈ s.data := by simp [hdata]
  have horder := h.data_order
  rw [hdata] at horder
  obtain ⟨heq, hnext⟩ := h.taken hx hmod
  have hstart := h.start_le
  have hbase := h.base_le_expected
  have htail : Inv c { s with data } := h.mono_data (by rw [hdata]; exact List.sublist_cons_self _ _)
  refine { htail with data_near := ?_, acks_le := ?_, delivered := ?_, start_le := ?_,
                      base_le_expected := ?_, expected_le := ?_ }
  · intro y hy
    have := (List.pairwise_cons.mp horder).1 y hy
    dsimp only
    omega
  · intro k hk
    have := h.acks_le k hk
    dsimp only
    omega
  · dsimp only
    rw [h.delivered, ← heq, between_succ h.sorted (h.data_sent x hx) (by omega)]
  · dsimp only
    omega
  · dsimp only
    omega
  · dsimp only
    omega

/-- The receiver answers. -/
theorem Inv.answer (h : Inv c s) : Inv c { s with acks := s.acks ++ [s.expected] } := by
  have hbase := h.base_le_expected
  refine { h with acks_le := ?_, acks_start := ?_, acks_sorted := ?_ }
  · intro k hk
    rcases List.mem_append.mp hk with hk | hk
    · exact h.acks_le k hk
    · rw [List.mem_singleton.mp hk]
      exact ⟨hbase, le_rfl⟩
  · intro k hk
    rcases List.mem_append.mp hk with hk | hk
    · exact h.acks_start k hk
    · rw [List.mem_singleton.mp hk]
      exact h.start_le
  · refine List.pairwise_append.mpr ⟨h.acks_sorted, List.pairwise_singleton _ _, fun k hk l hl => ?_⟩
    rw [List.mem_singleton.mp hl]
    exact (h.acks_le k hk).2

/-- What is left of the outstanding messages when those before a number are acknowledged. -/
theorem Inv.outstanding_drop (h : Inv c s) {k : Nat} (hk : s.base ≤ k) :
    s.sent.filter (k ≤ ·.1) = s.outstanding.drop (k - s.base) := by
  have hdrop : ∀ (l : List (Nat × α)) (b m : Nat), l.map (·.1) = List.range' b m →
      ∀ k, b ≤ k → l.filter (k ≤ ·.1) = l.drop (k - b) := by
    intro l
    induction l with
    | nil => simp
    | cons x l ih =>
      intro b m hl k hk
      cases m with
      | zero => cases hl
      | succ m =>
        rw [List.map_cons, List.range'_succ, List.cons.injEq] at hl
        rw [List.filter_cons]
        split
        · next hle =>
          have hkb : k = b := by
            have := of_decide_eq_true hle
            omega
          have hall : ∀ y ∈ l, b ≤ y.1 := fun y hy => by
            have hmem : y.1 ∈ List.range' (b + 1) m := hl.2 ▸ List.mem_map_of_mem hy
            have := (List.mem_range'_1.mp hmem).1
            omega
          rw [hkb, Nat.sub_self, List.drop_zero, List.filter_eq_self.mpr fun y hy =>
            decide_eq_true (hall y hy)]
        · next hlt =>
          have hkb : b + 1 ≤ k := by
            have := of_decide_eq_false (Bool.eq_false_iff.mpr hlt)
            omega
          obtain ⟨j, hj⟩ : ∃ j, k - b = j + 1 := ⟨k - b - 1, by omega⟩
          rw [ih (b + 1) m hl.2 k hkb, hj, List.drop_succ_cons]
          congr 1
          omega
  rw [← hdrop s.outstanding _ _ h.outstanding k hk, State.outstanding, List.filter_filter]
  refine List.filter_congr fun x _ => ?_
  by_cases hx : k ≤ x.1
  · have hbase : s.base ≤ x.1 := hk.trans hx
    simp [hx, hbase]
  · simp [hx]

/-- **No answer is refused.** -/
theorem Inv.believed (h : Inv c s) {k : Nat} (hk : k ∈ s.acks) :
    ¬(s.next < k ∧ s.base ≠ c.first) := by
  have hle := h.acks_le k hk
  have hbase := h.base_le
  have hexpected := h.expected_le
  rintro ⟨hnext, hfirst⟩
  have hheard := h.heard.resolve_left hfirst
  omega

/-- An answer arrives. -/
theorem Inv.ack (h : Inv c s) {k : Nat} {acks : List Nat} (hacks : s.acks = k :: acks) :
    Inv c ({ s with acks }.acknowledge c k) := by
  have hwindow := h.window
  have hbase := h.base_le
  have hexpected := h.expected_le
  have hk : k ∈ s.acks := by simp [hacks]
  have hle := h.acks_le k hk
  have hstart := h.acks_start k hk
  have hsorted := h.acks_sorted
  rw [hacks] at hsorted
  have hrest : ∀ l ∈ acks, k ≤ l ∧ l ≤ s.expected := fun l hl =>
    ⟨(List.pairwise_cons.mp hsorted).1 l hl, (h.acks_le l (by simp [hacks, hl])).2⟩
  have heq : { s with acks }.acknowledge c k = { s with acks, base := k, next := max s.next k } := by
    unfold State.acknowledge
    dsimp only
    rw [h.decode hk, if_neg (h.believed hk)]
  have htail : Inv c { s with acks } := h.mono_acks (by rw [hacks]; exact List.sublist_cons_self _ _)
  rw [heq]
  refine { htail with sent_lt := ?_, whole := ?_, outstanding := ?_, acks_le := hrest,
                      base_le := le_max_right _ _, window := ?_, base_le_expected := hle.2,
                      expected_le := ?_, heard := .inr hstart }
  · intro x hx
    have := h.sent_lt x hx
    dsimp only
    omega
  · intro n hn hlt
    dsimp only at hlt ⊢
    refine h.whole n hn ?_
    omega
  · have hdrop := congrArg (List.map Prod.fst) (h.outstanding_drop hle.1)
    rw [List.map_drop, h.outstanding, List.drop_range'] at hdrop
    refine hdrop.trans ?_
    dsimp only
    congr 1 <;> omega
  · dsimp only
    omega
  · dsimp only
    omega

/-- **Every step keeps the invariant.** -/
theorem Inv.step (h : Inv c s) {e : Event α} {t : State α} (ht : step c s e = some t) : Inv c t := by
  cases e with
  | send a =>
    rw [GoBackN.step] at ht
    split at ht
    · next hnext =>
      rw [Option.some.injEq] at ht
      exact ht ▸ h.send hnext a
    · cases ht
  | resend =>
    rw [GoBackN.step, Option.some.injEq] at ht
    exact ht ▸ h.resend
  | loseData i =>
    rw [GoBackN.step, Option.some.injEq] at ht
    exact ht ▸ h.mono_data (List.eraseIdx_sublist _ _)
  | loseAck i =>
    rw [GoBackN.step, Option.some.injEq] at ht
    exact ht ▸ h.mono_acks (List.eraseIdx_sublist _ _)
  | deliver =>
    rw [GoBackN.step] at ht
    split at ht
    · cases ht
    next x data hdata =>
    split at ht
    · next hmod =>
      rw [Option.some.injEq] at ht
      exact ht ▸ h.deliver hdata hmod
    · rw [Option.some.injEq] at ht
      exact ht ▸ h.mono_data (by rw [hdata]; exact List.sublist_cons_self _ _)
  | answer =>
    rw [GoBackN.step, Option.some.injEq] at ht
    exact ht ▸ h.answer
  | ack =>
    rw [GoBackN.step] at ht
    split at ht
    · cases ht
    next k acks hacks =>
    rw [Option.some.injEq] at ht
    exact ht ▸ h.ack hacks

/-- Some messages are sent, while the window is open. -/
theorem run_sends {l : List (Nat × α)} (hl : l.map (·.1) = List.range' s.next l.length)
    (hwindow : s.next + l.length ≤ s.base + c.window) :
    Transition.run (GoBackN.step c) s (l.map fun x => .send x.2) =
      some { s with next := s.next + l.length, sent := s.sent ++ l, data := s.data ++ l } := by
  induction l generalizing s with
  | nil => simp
  | cons x l ih =>
    rw [List.map_cons, List.length_cons, List.range'_succ, List.cons.injEq] at hl
    obtain ⟨hx, hl⟩ := hl
    have hopen : s.next < s.base + c.window := by
      rw [List.length_cons] at hwindow
      omega
    have hpair : (s.next, x.2) = x := by rw [← hx]
    rw [List.map_cons, Transition.run, GoBackN.step, if_pos hopen, Option.bind_some, hpair,
      ih hl (by simp at hwindow ⊢; omega)]
    simp only [List.append_assoc, List.singleton_append, List.length_cons, Option.some.injEq,
      State.mk.injEq, and_self, and_true, true_and]
    omega

end Steps

end Cream.Library.GoBackN
