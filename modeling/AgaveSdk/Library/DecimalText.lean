import Mathlib.Algebra.Ring.Nat
import Mathlib.Data.List.Basic

/-! Decimal texts of bounded numbers, and parsing them with an overflow check at every digit. -/
namespace DecimalText

variable {bound value n : ℕ} {s : List Char}

def checked (bound value : ℕ) : Option ℕ := if value < bound then some value else none

def parseDigits (bound : ℕ) : ℕ → List Char → Option ℕ
  | value, [] => some value
  | value, c :: cs =>
    if c.isDigit then do
      let value ← checked bound (10 * value)
      let value ← checked bound (value + (c.toNat - '0'.toNat))
      parseDigits bound value cs
    else none

/-- A plus sign may come before the digits. -/
def parse (bound : ℕ) : List Char → Option ℕ
  | [] => none
  | ['+'] => none
  | '+' :: digits => parseDigits bound 0 digits
  | digits => parseDigits bound 0 digits

theorem checked_eq_some : checked bound value = some n ↔ value = n ∧ n < bound := by
  unfold checked
  split
  · next h =>
    rw [Option.some.injEq]
    constructor
    · rintro rfl
      exact ⟨rfl, h⟩
    · exact fun hn => hn.1
  · next h =>
    constructor
    · nofun
    · rintro ⟨rfl, hn⟩
      exact absurd hn h

theorem le_ofDigitChars (s : List Char) (value : ℕ) : value ≤ Nat.ofDigitChars 10 s value := by
  induction s generalizing value with
  | nil => rw [Nat.ofDigitChars_nil]
  | cons c cs ih =>
    rw [Nat.ofDigitChars_cons]
    have hrest := ih (10 * value + (c.toNat - '0'.toNat))
    omega

/-- The checks on the way refuse exactly the numbers that are too large in the end. -/
theorem parseDigits_eq_some (h : value < bound) : parseDigits bound value s = some n ↔
    (∀ c ∈ s, c.isDigit = true) ∧ Nat.ofDigitChars 10 s value = n ∧ n < bound := by
  induction s generalizing value with
  | nil =>
    rw [parseDigits, Option.some.injEq, Nat.ofDigitChars_nil]
    constructor
    · rintro rfl
      exact ⟨by simp, rfl, h⟩
    · exact fun hn => hn.2.1
  | cons c cs ih =>
    rw [parseDigits, Nat.ofDigitChars_cons, List.forall_mem_cons]
    by_cases hdigit : c.isDigit = true
    · rw [if_pos hdigit]
      simp only [Option.bind_eq_bind, Option.bind_eq_some_iff, checked_eq_some]
      constructor
      · rintro ⟨_, ⟨rfl, -⟩, _, ⟨rfl, hsum⟩, hrest⟩
        obtain ⟨hall, hvalue, hn⟩ := (ih hsum).mp hrest
        exact ⟨⟨hdigit, hall⟩, hvalue, hn⟩
      · rintro ⟨⟨-, hall⟩, hvalue, hn⟩
        have hle := le_ofDigitChars cs (10 * value + (c.toNat - '0'.toNat))
        have hsum : 10 * value + (c.toNat - '0'.toNat) < bound := by omega
        have hproduct : 10 * value < bound := by omega
        exact ⟨_, ⟨rfl, hproduct⟩, _, ⟨rfl, hsum⟩, (ih hsum).mpr ⟨hall, hvalue, hn⟩⟩
    · rw [if_neg hdigit]
      constructor
      · nofun
      · exact fun hn => absurd hn.1.1 hdigit

/-- A number is read back from its text. -/
theorem parse_toDigits (h : n < bound) : parse bound (Nat.toDigits 10 n) = some n := by
  have hdigits : ∀ c ∈ Nat.toDigits 10 n, c.isDigit = true :=
    fun c hc => Nat.isDigit_of_mem_toDigits (by decide) (by decide) hc
  have hparse : parseDigits bound 0 (Nat.toDigits 10 n) = some n :=
    (parseDigits_eq_some (by omega)).mpr ⟨hdigits, Nat.ofDigitChars_ten_toDigits, h⟩
  have hsign (cs : List Char) : Nat.toDigits 10 n ≠ '+' :: cs := by
    intro hcs
    have hplus := hdigits '+' (by simp [hcs])
    cases hplus
  unfold parse
  split
  · next hnil => exact absurd hnil Nat.toDigits_ne_nil
  · next hnil => exact absurd hnil (hsign [])
  · next digits hcons => exact absurd hcons (hsign _)
  · exact hparse

theorem toDigits_inj {m : ℕ} (h : Nat.toDigits 10 m = Nat.toDigits 10 n) : m = n := by
  rw [← Nat.ofDigitChars_ten_toDigits (n := m), h, Nat.ofDigitChars_ten_toDigits]

end DecimalText
