/-
Decimal numerals as ASCII bytes, most significant digit first: `text` writes a natural number, `value` reads one.

- `value_text`: reading undoes writing.
- `text_step`: the last digit and the numeral in front of it; so a numeral that has lost its last digit is the one of
  `n / 10` (`text_dropLast`), and is empty if it had only one.
-/
import Mathlib.Tactic
import Mathlib.Data.Nat.Digits.Lemmas

namespace Decimal

def digit (d : ℕ) : UInt8 := UInt8.ofNat (48 + d)

def isDigit (b : UInt8) : Bool := 48 ≤ b && b ≤ 57

def text (n : ℕ) : List UInt8 := if n = 0 then [digit 0] else (Nat.digits 10 n).reverse.map digit

def value (s : List UInt8) : ℕ := s.foldl (fun a b => 10 * a + (b.toNat - 48)) 0

theorem digit_toNat {d : ℕ} (h : d < 10) : (digit d).toNat = 48 + d := by
  rw [digit, UInt8.toNat_ofNat']; omega

theorem isDigit_digit {d : ℕ} (h : d < 10) : isDigit (digit d) = true := by
  simp only [isDigit, Bool.and_eq_true, decide_eq_true_eq, UInt8.le_iff_toNat_le, digit_toNat h]
  exact ⟨by simp, by simp; omega⟩

theorem text_small {n : ℕ} (h : n < 10) : text n = [digit n] := by
  by_cases h0 : n = 0
  · simp [text, h0]
  · simp [text, h0, Nat.digits_of_lt 10 n h0 h]

theorem text_step {n : ℕ} (h : 10 ≤ n) : text n = text (n / 10) ++ [digit (n % 10)] := by
  have h0 : n ≠ 0 := by omega
  have h1 : n / 10 ≠ 0 := by omega
  simp [text, h0, h1, Nat.digits_def' (by norm_num : 1 < 10) (by omega : 0 < n)]

/-- every number is built from smaller ones digit by digit -/
theorem text_induction {P : ℕ → Prop} (small : ∀ n < 10, P n) (step : ∀ n, 10 ≤ n → P (n / 10) → P n) (n : ℕ) :
    P n := by
  induction n using Nat.strong_induction_on with
  | _ n ih =>
    by_cases h : n < 10
    · exact small n h
    · exact step n (not_lt.1 h) (ih (n / 10) (by omega))

theorem text_ne_nil (n : ℕ) : text n ≠ [] := by
  by_cases h : n < 10
  · simp [text_small h]
  · simp [text_step (not_lt.1 h)]

theorem text_isDigit (n : ℕ) : ∀ b ∈ text n, isDigit b = true := by
  induction n using text_induction with
  | small n h => simpa [text_small h] using isDigit_digit h
  | step n h ih =>
    intro b hb
    rw [text_step h] at hb
    rcases List.mem_append.1 hb with hb | hb
    · exact ih b hb
    · rw [List.mem_singleton.1 hb]; exact isDigit_digit (by omega)

@[simp] theorem value_concat (s : List UInt8) (b : UInt8) : value (s ++ [b]) = 10 * value s + (b.toNat - 48) := by
  simp [value]

theorem value_text (n : ℕ) : value (text n) = n := by
  induction n using text_induction with
  | small n h => simp [text_small h, value, digit_toNat h]
  | step n h ih =>
    calc value (text n) = 10 * value (text (n / 10)) + ((digit (n % 10)).toNat - 48) := by
          rw [text_step h, value_concat]
      _ = 10 * (n / 10) + n % 10 := by rw [ih, digit_toNat (by omega), Nat.add_sub_cancel_left]
      _ = n := Nat.div_add_mod n 10

theorem text_dropLast_small {n : ℕ} (h : n < 10) : (text n).dropLast = [] := by simp [text_small h]

theorem text_dropLast {n : ℕ} (h : 10 ≤ n) : (text n).dropLast = text (n / 10) := by
  rw [text_step h, List.dropLast_concat]

end Decimal
