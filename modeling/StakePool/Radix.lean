/-!
# Digits of a number

`digits base count n` lists the lowest `count` digits of `n`, least significant first, and `value` adds
them up again. `value_digits` and `digits_value` show that each undoes the other.
-/

namespace StakePool.Radix

/-- The lowest `count` digits of a number, least significant first. -/
def digits (base : Nat) : Nat → Nat → List Nat
  | 0, _ => []
  | count + 1, n => n % base :: digits base count (n / base)

/-- The least number that takes more than `count` digits. -/
def bound (base : Nat) : Nat → Nat
  | 0 => 1
  | count + 1 => base * bound base count

/-- The number that a list of digits stands for, least significant digit first. -/
def value (base : Nat) (ds : List Nat) : Nat :=
  ds.foldr (fun d high => d + base * high) 0

@[simp] theorem length_digits (base count n : Nat) : (digits base count n).length = count := by
  induction count generalizing n with
  | zero => rfl
  | succ count ih => simp [digits, ih]

@[simp] theorem value_nil (base : Nat) : value base [] = 0 := rfl

@[simp] theorem value_cons (base d : Nat) (ds : List Nat) :
    value base (d :: ds) = d + base * value base ds := rfl

theorem value_digits (base count n : Nat) : value base (digits base count n) = n % bound base count := by
  induction count generalizing n with
  | zero => simp [digits, bound, Nat.mod_one]
  | succ count ih => rw [digits, value_cons, ih, bound, Nat.mod_mul]

theorem value_digits_of_lt {base count n : Nat} (h : n < bound base count) :
    value base (digits base count n) = n := by
  rw [value_digits, Nat.mod_eq_of_lt h]

theorem digits_lt {base : Nat} (hb : 0 < base) (count n : Nat) : ∀ d ∈ digits base count n, d < base := by
  induction count generalizing n with
  | zero => simp [digits]
  | succ count ih =>
    intro d hd
    rcases List.mem_cons.1 hd with rfl | hd
    · exact Nat.mod_lt _ hb
    · exact ih _ d hd

theorem value_lt {base : Nat} {ds : List Nat} (h : ∀ d ∈ ds, d < base) : value base ds < bound base ds.length := by
  induction ds with
  | nil => exact Nat.one_pos
  | cons d ds ih =>
    have hd := h d (by simp)
    have hv := ih fun x hx => h x (by simp [hx])
    rw [value_cons, List.length_cons, bound]
    calc d + base * value base ds < base + base * value base ds := by omega
      _ = base * (value base ds + 1) := by rw [Nat.mul_succ, Nat.add_comm]
      _ ≤ base * bound base ds.length := Nat.mul_le_mul_left _ hv

theorem digits_value {base : Nat} {ds : List Nat} (h : ∀ d ∈ ds, d < base) :
    digits base ds.length (value base ds) = ds := by
  induction ds with
  | nil => rfl
  | cons d ds ih =>
    have hd := h d (by simp)
    have hb : 0 < base := by omega
    rw [List.length_cons, digits, value_cons, Nat.add_mul_mod_self_left, Nat.mod_eq_of_lt hd,
      Nat.add_mul_div_left _ _ hb, Nat.div_eq_of_lt hd, Nat.zero_add, ih fun x hx => h x (by simp [hx])]

end StakePool.Radix
