import Mathlib.Data.List.Basic
import Gateway.Text.Numeral
/-!
# Numerals written and read

A number is written with digits alone, and not with a zero in front unless it is zero
(`head?_decimal`). What is written is read back, wherever the number is within the bound
(`number?_decimal`).
-/
namespace Gateway.Text

theorem isDigit_of_mem_decimal {n : Nat} {c : Char} (h : c ∈ decimal n) : c.isDigit = true :=
  Nat.isDigit_of_mem_toDigits (by decide) (by decide) h

theorem decimal_ne_nil (n : Nat) : decimal n ≠ [] := Nat.toDigits_ne_nil

/-- The number of digits follows from the size of the number. -/
theorem length_decimal_le {n k : Nat} (hk : 0 < k) (h : n < Nat.pow 10 k) : (decimal n).length ≤ k :=
  (Nat.length_toDigits_le_iff (by decide) hk).2 h

theorem head?_decimal {n : Nat} (h : 0 < n) : (decimal n).head? ≠ some '0' := by
  induction n using Nat.strongRecOn with
  | ind n ih =>
    by_cases hn : n < 10
    · rw [decimal, Nat.toDigits_of_lt_base hn, List.head?_cons, Ne, Option.some.injEq, Nat.digitChar_eq_zero]
      omega
    · -- the first digit is that of a tenth of the number
      have htenth : (decimal n).head? = (decimal (n / 10)).head? := by
        rw [decimal, Nat.toDigits_of_base_le (by decide) (by omega),
          List.head?_append_of_ne_nil _ Nat.toDigits_ne_nil]
        rfl
      rw [htenth]
      exact ih (n / 10) (by omega) (by omega)

theorem digits?_decimal (n : Nat) : digits? (decimal n) = some n := by
  have hall : (decimal n).all Char.isDigit = true := List.all_eq_true.2 fun _ => isDigit_of_mem_decimal
  have hvalue : Nat.ofDigitChars 10 (decimal n) 0 = n := Nat.ofDigitChars_ten_toDigits
  simp only [digits?, hall, hvalue, decimal_ne_nil, ne_eq, not_false_eq_true, decide_true, Bool.and_self, if_true]

theorem decimal_injective {n m : Nat} (h : decimal n = decimal m) : n = m :=
  Option.some.inj (by rw [← digits?_decimal n, h, digits?_decimal])

theorem notMem_decimal {c : Char} (hc : c.isDigit = false) (n : Nat) : c ∉ decimal n := fun h => by
  rw [isDigit_of_mem_decimal h] at hc
  cases hc

theorem number?_decimal {bound n : Nat} (h : n < bound) : number? bound (decimal n) = some n := by
  -- no digit can be taken for a plus sign
  have hplus : ∀ s, decimal n ≠ '+' :: s := fun s hs =>
    absurd (isDigit_of_mem_decimal (hs ▸ List.mem_cons_self : '+' ∈ decimal n)) (by decide)
  unfold number?
  split
  · next s hs => exact absurd hs (hplus s)
  · simp [digits?_decimal, h]

/-! ## Digits -/

theorem exists_digitChar_of_mem_toDigits {b n : Nat} (hb : 1 < b) {c : Char} (h : c ∈ Nat.toDigits b n) :
    ∃ d < b, c = d.digitChar := by
  induction n using Nat.strongRecOn with
  | ind n ih =>
    by_cases hn : n < b
    · rw [Nat.toDigits_of_lt_base hn, List.mem_singleton] at h
      exact ⟨n, hn, h⟩
    · rw [Nat.toDigits_of_base_le hb (by omega), List.mem_append, List.mem_singleton] at h
      rcases h with h | rfl
      · exact ih (n / b) (Nat.div_lt_self (by omega) hb) h
      · exact ⟨n % b, Nat.mod_lt _ (by omega), rfl⟩

end Gateway.Text
