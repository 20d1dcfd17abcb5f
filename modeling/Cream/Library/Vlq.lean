import Mathlib

/-!
# Variable length quantities

Integers in groups of seven bits, the most significant first. Every byte but the last has its
high bit set, and the first group is signed: it stands for a number from -32 to 95. `digits`
takes a number apart, `value` puts it together again (`value_digits`), and `read` is the loop
with which a reader does so on bytes (`read_continued`). Two readers whose arithmetic differs
agree as far as the arithmetic does (`read_map`).
-/

set_option autoImplicit false

namespace Cream.Library.Vlq

/-! ## Numbers and their digits -/

/-- What the first group stands for. -/
def signed (d : Nat) : Int := if d < 96 then d else d - 128

/-- The number some groups stand for. -/
def value : List Nat → Int
  | [] => 0
  | d :: ds => ds.foldl (fun (v : Int) (d : Nat) => v * 128 + d) (signed d)

/-- The last `n + 1` groups of a number. -/
def digits : Nat → Int → List Nat
  | 0, v => [(v % 128).toNat]
  | n + 1, v => digits n (v / 128) ++ [(v % 128).toNat]

/-- The numbers that have `n + 1` groups or fewer. -/
def Fits (n : Nat) (v : Int) : Prop := -(32 * 128 ^ n) ≤ v ∧ v < 96 * 128 ^ n

instance (n : Nat) (v : Int) : Decidable (Fits n v) := inferInstanceAs (Decidable (_ ∧ _))

/-- A number has a group. -/
theorem digits_ne_nil (n : Nat) (v : Int) : digits n v ≠ [] := by
  cases n <;> simp [digits]

/-- How many groups there are. -/
theorem length_digits (n : Nat) (v : Int) : (digits n v).length = n + 1 := by
  induction n generalizing v with
  | zero => rfl
  | succ n ih => simp [digits, ih]

/-- A group is below 128. -/
theorem digits_lt {n : Nat} {v : Int} : ∀ d ∈ digits n v, d < 128 := by
  have hlast : ∀ v : Int, (v % 128).toNat < 128 := fun v => by omega
  induction n generalizing v with
  | zero =>
    intro d hd
    rw [List.mem_singleton.mp hd]
    exact hlast v
  | succ n ih =>
    intro d hd
    rcases List.mem_append.mp hd with hd | hd
    · exact ih d hd
    · rw [List.mem_singleton.mp hd]
      exact hlast v

/-- The value of one group more. -/
theorem value_append {ds : List Nat} (h : ds ≠ []) (d : Nat) :
    value (ds ++ [d]) = value ds * 128 + d := by
  cases ds with
  | nil => exact absurd rfl h
  | cons e ds => simp [value, List.foldl_append]

/-- **A number is what its groups stand for.** -/
theorem value_digits {n : Nat} {v : Int} (h : Fits n v) : value (digits n v) = v := by
  induction n generalizing v with
  | zero =>
    obtain ⟨hlo, hhi⟩ := h
    simp only [digits, value, List.foldl_nil, signed]
    split <;> omega
  | succ n ih =>
    have hfits : Fits n (v / 128) := by
      obtain ⟨hlo, hhi⟩ := h
      rw [pow_succ] at hlo hhi
      constructor <;> omega
    rw [digits, value_append (digits_ne_nil n _), ih hfits]
    omega

/-- **What is left of a number** when it has more groups. -/
theorem value_digits_modEq (n : Nat) (v : Int) : value (digits n v) ≡ v [ZMOD 128 ^ (n + 1)] := by
  induction n generalizing v with
  | zero =>
    simp only [digits, value, List.foldl_nil, signed, zero_add, pow_one, Int.ModEq]
    split <;> omega
  | succ n ih =>
    rw [digits, value_append (digits_ne_nil n _)]
    have hv : v = v / 128 * 128 + ((v % 128).toNat : Int) := by omega
    have hshift := (ih (v / 128)).mul_right' (c := 128)
    rw [← pow_succ] at hshift
    conv_rhs => rw [hv]
    exact hshift.add_right _

/-- With how many groups after the first a number is written: as few as it needs, but no more
than there may be. -/
def size (limit : Nat) (v : Int) : Nat := ((List.range limit).find? (Fits · v)).getD limit

/-- A number fits its size. -/
theorem fits_size {limit : Nat} {v : Int} (h : Fits limit v) : Fits (size limit v) v := by
  unfold size
  cases hfind : (List.range limit).find? (Fits · v) with
  | none => exact h
  | some n => simpa using List.find?_some hfind

/-! ## Their bytes -/

/-- Groups as bytes: all but the last are continued. -/
def continued : List Nat → List UInt8
  | [] => []
  | [d] => [UInt8.ofNat d]
  | d :: ds => UInt8.ofNat (d + 128) :: continued ds

/-- One byte for each group. -/
theorem length_continued (ds : List Nat) : (continued ds).length = ds.length := by
  fun_induction continued ds with
  | case1 => rfl
  | case2 d => rfl
  | case3 d ds hne ih => simp [ih]

section Read

variable {α β : Type*}

/-- The loop of a reader: as long as the byte before has its high bit, a group is shifted in. -/
def continueRead (step : α → Nat → α) (v : α) (c : UInt8) (s : List UInt8) :
    Option (α × List UInt8) :=
  if c &&& 0x80 = 0 then some (v, s)
  else
    match s with
    | [] => none
    | d :: s => continueRead step (step v (d &&& 0x7f).toNat) d s

/-- A reader: what it makes of the groups at the start, and what is behind them; `none` when the
bytes end first. -/
def read (first : Nat → α) (step : α → Nat → α) : List UInt8 → Option (α × List UInt8)
  | [] => none
  | c :: s => continueRead step (first (c &&& 0x7f).toNat) c s

/-- The lower seven bits of a byte. -/
theorem toNat_and_127 (c : UInt8) : (c &&& 0x7f).toNat = c.toNat % 128 := by
  rw [UInt8.toNat_and]
  exact Nat.and_two_pow_sub_one_eq_mod c.toNat 7

/-- The highest bit is not set below 128. -/
theorem and_128_eq_zero_iff (c : UInt8) : c &&& 0x80 = 0 ↔ c.toNat < 128 := by
  revert c
  decide +kernel

variable {first : Nat → α} {step : α → Nat → α}

/-- Reading ends behind a byte without the highest bit. -/
theorem continueRead_last {c : UInt8} (h : c.toNat < 128) (v : α) (s : List UInt8) :
    continueRead step v c s = some (v, s) := by
  unfold continueRead
  rw [if_pos ((and_128_eq_zero_iff c).mpr h)]

/-- It goes on behind one with it. -/
theorem continueRead_cons {c : UInt8} (h : 128 ≤ c.toNat) (v : α) (d : UInt8) (s : List UInt8) :
    continueRead step v c (d :: s) = continueRead step (step v (d.toNat % 128)) d s := by
  rw [continueRead, if_neg (mt (and_128_eq_zero_iff c).mp (by omega)), toNat_and_127]

/-- The loop takes the groups that are left. -/
theorem continueRead_continued {ds : List Nat} (hds : ∀ d ∈ ds, d < 128) {c : UInt8}
    (hc : 128 ≤ c.toNat ↔ ds ≠ []) (v : α) (rest : List UInt8) :
    continueRead step v c (continued ds ++ rest) = some (ds.foldl step v, rest) := by
  fun_induction continued ds generalizing v c with
  | case1 => exact continueRead_last (by simpa using hc) v rest
  | case2 d =>
    have hd : d < 128 := hds d List.mem_cons_self
    have hbyte : (UInt8.ofNat d).toNat = d := by simp; omega
    rw [List.singleton_append, continueRead_cons (hc.mpr (by simp)), hbyte,
      continueRead_last (by omega), Nat.mod_eq_of_lt hd]
    rfl
  | case3 d ds hne ih =>
    have hd : d < 128 := hds d List.mem_cons_self
    have hbyte : (UInt8.ofNat (d + 128)).toNat = d + 128 := by simp; omega
    have hmod : (d + 128) % 128 = d := by omega
    have hds' : ds ≠ [] := hne
    rw [List.cons_append, continueRead_cons (hc.mpr (by simp)), hbyte, hmod,
      ih (fun e he => hds e (List.mem_cons_of_mem d he)) (by rw [hbyte]; simp [hds'])]
    rfl

/-- **A reader takes the groups of one number**, and leaves what is behind them. -/
theorem read_continued {d : Nat} {ds : List Nat} (h : ∀ e ∈ d :: ds, e < 128)
    (rest : List UInt8) :
    read first step (continued (d :: ds) ++ rest) = some (ds.foldl step (first d), rest) := by
  have hd : d < 128 := h d List.mem_cons_self
  have hds : ∀ e ∈ ds, e < 128 := fun e he => h e (List.mem_cons_of_mem d he)
  cases ds with
  | nil =>
    have hbyte : (UInt8.ofNat d).toNat = d := by simp; omega
    rw [continued, List.singleton_append, read, toNat_and_127, hbyte, Nat.mod_eq_of_lt hd,
      continueRead_last (by omega)]
    rfl
  | cons e ds =>
    have hbyte : (UInt8.ofNat (d + 128)).toNat = d + 128 := by simp; omega
    have hmod : (d + 128) % 128 = d := by omega
    rw [continued, List.cons_append, read, toNat_and_127, hbyte, hmod,
      continueRead_continued hds (by rw [hbyte]; simp)]
    simp

/-- **The reader of integers** reads what the groups stand for. -/
theorem read_value {ds : List Nat} (hne : ds ≠ []) (h : ∀ d ∈ ds, d < 128) (rest : List UInt8) :
    read signed (fun (v : Int) (d : Nat) => v * 128 + d) (continued ds ++ rest) =
      some (value ds, rest) := by
  obtain ⟨d, ds, rfl⟩ := List.exists_cons_of_ne_nil hne
  exact read_continued h rest

/-- **Readers with different arithmetic** agree up to a map that their arithmetic agrees up to. -/
theorem read_map {first' : Nat → β} {step' : β → Nat → β} (f : α → β)
    (hfirst : ∀ d < 128, first' d = f (first d))
    (hstep : ∀ v, ∀ d < 128, step' (f v) d = f (step v d)) (s : List UInt8) :
    read first' step' s = (read first step s).map (Prod.map f id) := by
  have hlt : ∀ c : UInt8, (c &&& 0x7f).toNat < 128 := fun c => by
    rw [toNat_and_127]
    omega
  have hloop : ∀ (s : List UInt8) (v : α) (c : UInt8), continueRead step' (f v) c s =
      (continueRead step v c s).map (Prod.map f id) := by
    intro s
    induction s with
    | nil =>
      intro v c
      unfold continueRead
      split <;> rfl
    | cons d s ih =>
      intro v c
      rw [continueRead, continueRead, hstep v _ (hlt d), ih]
      split <;> rfl
  cases s with
  | nil => rfl
  | cons c s => rw [read, read, hfirst _ (hlt c), hloop]

end Read

end Cream.Library.Vlq
