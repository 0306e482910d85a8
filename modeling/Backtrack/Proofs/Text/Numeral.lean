import Backtrack.Text.Numeral
import Mathlib.Data.Nat.Digits.Defs

/-!
# The digits of a numeral

The numeral of a number is a run of digits that is not empty, and the shortest one with this
value: `length_digits_value_le`. The value of any run of digits is the number with these decimal
digits: `value_eq_ofDigits`.
-/

namespace Backtrack.Text.Numeral

private theorem isDigit_digitChar {n : Nat} (h : n < 10) : (digitChar n).isDigit = true := by
  have hall : ∀ m < 10, (digitChar m).isDigit = true := by decide
  exact hall n h

/-- A numeral is not empty. -/
theorem digits_ne_nil (n : Nat) : digits n ≠ [] := by
  by_cases h : n < 10
  · rw [digits_of_lt h]
    exact List.cons_ne_nil _ _
  · rw [digits_of_ge (Nat.le_of_not_lt h)]
    exact List.append_ne_nil_of_right_ne_nil _ (List.cons_ne_nil _ _)

/-- All characters of a numeral are digits. -/
theorem isDigit_of_mem_digits {n : Nat} {c : Char} (hc : c ∈ digits n) : c.isDigit = true := by
  induction n using Nat.strongRecOn with
  | ind n ih =>
    by_cases h : n < 10
    · rw [digits_of_lt h] at hc
      rw [List.mem_singleton.mp hc]
      exact isDigit_digitChar h
    · rw [digits_of_ge (Nat.le_of_not_lt h)] at hc
      rcases List.mem_append.mp hc with hc | hc
      · exact ih (n / 10) (Nat.div_lt_self (by omega) (by decide)) hc
      · rw [List.mem_singleton.mp hc]
        exact isDigit_digitChar (Nat.mod_lt _ (by decide))

private theorem digitValue_lt {c : Char} (h : c.isDigit = true) : digitValue c < 10 := by
  simp only [Char.isDigit, Bool.and_eq_true, decide_eq_true_eq] at h
  have hle : c.toNat ≤ 57 := h.2
  rw [digitValue]
  omega

/-- Appending a digit to a number lengthens its numeral by at most one. -/
theorem length_digits_step {n d : Nat} (hd : d < 10) :
    (digits (10 * n + d)).length ≤ (digits n).length + 1 := by
  by_cases h : 10 * n + d < 10
  · rw [digits_of_lt h]
    exact Nat.le_add_left 1 _
  · have hdiv : (10 * n + d) / 10 = n := by omega
    apply Nat.le_of_eq
    rw [digits_of_ge (Nat.le_of_not_lt h), hdiv, List.length_append, List.length_singleton]

/-- The numeral of the value of a run of digits is no longer than the run. -/
theorem length_digits_value_le {cs : List Char} (hne : cs ≠ [])
    (h : ∀ c ∈ cs, c.isDigit = true) : (digits (value cs)).length ≤ cs.length := by
  -- Each digit adds one to the numeral of the digits in front of it at most.
  have hfold (n : Nat) (ds : List Char) (hds : ∀ c ∈ ds, c.isDigit = true) :
      (digits (ds.foldl (fun n c ↦ 10 * n + digitValue c) n)).length ≤
        (digits n).length + ds.length := by
    induction ds generalizing n with
    | nil => exact Nat.le_refl _
    | cons d ds ih =>
      have hd : (digits (10 * n + digitValue d)).length ≤ (digits n).length + 1 :=
        length_digits_step (digitValue_lt (hds d List.mem_cons_self))
      have hstep := ih (10 * n + digitValue d) fun c hc ↦ hds c (List.mem_cons_of_mem d hc)
      rw [List.foldl_cons, List.length_cons]
      omega
  cases cs with
  | nil => exact absurd rfl hne
  | cons c cs =>
    have hc := digitValue_lt (h c List.mem_cons_self)
    have hcs := hfold (10 * 0 + digitValue c) cs fun d hd ↦ h d (List.mem_cons_of_mem c hd)
    rw [Nat.mul_zero, Nat.zero_add, digits_of_lt hc, List.length_singleton] at hcs
    rw [value, List.foldl_cons, Nat.mul_zero, Nat.zero_add, List.length_cons]
    omega

/-- The numeral of a number of at least ten to the power `k` has more than `k` digits. -/
theorem lt_length_digits {n k : Nat} (h : 10 ^ k ≤ n) : k < (digits n).length := by
  induction k generalizing n with
  | zero => exact List.length_pos_iff.mpr (digits_ne_nil n)
  | succ k ih =>
    have hdiv : 10 ^ k ≤ n / 10 := by
      rw [Nat.le_div_iff_mul_le (by decide), ← Nat.pow_succ]
      exact h
    have hten : 10 ≤ n := by
      have hpos : 0 < 10 ^ k := Nat.pow_pos (by decide)
      omega
    rw [digits_of_ge hten, List.length_append, List.length_singleton]
    exact Nat.succ_lt_succ (ih hdiv)

/-- Ten to the power of the limit cannot be written. -/
theorem isWritable_ten_pow_limit : isWritable (10 ^ limit : Nat) = false := by
  rw [isWritable, Int.natAbs_natCast, decide_eq_false_iff_not, Nat.not_le]
  exact lt_length_digits (Nat.le_refl _)

/-- The value of a run of digits is the number with these decimal digits, the last one first. -/
theorem value_eq_ofDigits (cs : List Char) :
    value cs = Nat.ofDigits 10 (cs.reverse.map digitValue) := by
  have hstep : (fun (c : Char) (n : Nat) ↦ 10 * n + digitValue c) =
      fun c n ↦ Nat.cast (digitValue c) + 10 * n :=
    funext fun c ↦ funext fun n ↦ Nat.add_comm _ _
  rw [value, List.foldl_eq_foldr_reverse, Nat.ofDigits_eq_foldr, List.foldr_map, hstep]

end Backtrack.Text.Numeral
