import Mathlib.Algebra.Ring.Nat
import Mathlib.Data.List.Basic

/-! Texts in the order of their characters are in the order of their UTF-8 bytes. -/
namespace Utf8Order

/-- The UTF-8 encoding of a text. -/
def encode (s : List Char) : List UInt8 := s.flatMap String.utf8EncodeChar

/-- Two byte sequences first differ in bytes that are so ordered. -/
inductive Below : List UInt8 → List UInt8 → Prop where
  | head {a b : UInt8} {x y : List UInt8} (h : a < b) : Below (a :: x) (b :: y)
  | tail {a : UInt8} {x y : List UInt8} (h : Below x y) : Below (a :: x) (a :: y)

theorem Below.append_lt {x y : List UInt8} (h : Below x y) (u v : List UInt8) :
    x ++ u < y ++ v := by
  induction h with
  | head h => exact List.cons_lt_cons_iff.mpr (.inl h)
  | tail _ ih => exact List.cons_lt_cons_iff.mpr (.inr ⟨rfl, ih⟩)

theorem ofNat_lt_ofNat {m n : ℕ} (h : m < n) (hn : n < 256) : UInt8.ofNat m < UInt8.ofNat n := by
  rw [UInt8.lt_iff_toNat_lt, UInt8.toNat_ofNat', UInt8.toNat_ofNat']
  omega

theorem below_head {m n : ℕ} {x y : List UInt8} (h : m < n) (hn : n < 256) :
    Below (UInt8.ofNat m :: x) (UInt8.ofNat n :: y) :=
  .head (ofNat_lt_ofNat h hn)

/-- One more digit in front. -/
theorem below_cons {m n : ℕ} {x y : List UInt8} (hle : m ≤ n) (hn : n < 256)
    (h : m = n → Below x y) : Below (UInt8.ofNat m :: x) (UInt8.ofNat n :: y) := by
  rcases Nat.lt_or_eq_of_le hle with hlt | rfl
  · exact below_head hlt hn
  · exact .tail (h rfl)

theorem below_utf8EncodeChar {c d : Char} (h : c < d) :
    Below (String.utf8EncodeChar c) (String.utf8EncodeChar d) := by
  have hlt : c.val.toNat < d.val.toNat := h
  have hd : d.val.toNat < 0x110000 := by
    have := d.valid
    unfold UInt32.isValidChar Nat.isValidChar at this
    omega
  unfold String.utf8EncodeChar
  generalize c.val.toNat = m at hlt
  generalize d.val.toNat = n at hlt hd
  dsimp only
  by_cases hm₁ : m ≤ 0x7f
  · rw [if_pos hm₁]
    split
    · exact below_head hlt (by omega)
    · split
      · exact below_head (by omega) (by omega)
      · split <;> exact below_head (by omega) (by omega)
  rw [if_neg hm₁, if_neg (show ¬ n ≤ 0x7f by omega)]
  by_cases hm₂ : m ≤ 0x7ff
  · rw [if_pos hm₂]
    split
    · exact below_cons (by omega) (by omega) fun _ => below_head (by omega) (by omega)
    · split <;> exact below_head (by omega) (by omega)
  rw [if_neg hm₂, if_neg (show ¬ n ≤ 0x7ff by omega)]
  by_cases hm₃ : m ≤ 0xffff
  · rw [if_pos hm₃]
    split
    · exact below_cons (by omega) (by omega) fun _ =>
        below_cons (by omega) (by omega) fun _ => below_head (by omega) (by omega)
    · exact below_head (by omega) (by omega)
  rw [if_neg hm₃, if_neg (show ¬ n ≤ 0xffff by omega)]
  exact below_cons (by omega) (by omega) fun _ => below_cons (by omega) (by omega) fun _ =>
    below_cons (by omega) (by omega) fun _ => below_head (by omega) (by omega)

/-- The order of characters is the order of bytes. -/
theorem encode_lt {s t : List Char} (h : compare s t = .lt) : encode s < encode t := by
  induction s generalizing t with
  | nil =>
    cases t with
    | nil => cases h
    | cons d t =>
      obtain ⟨b, x, hx⟩ := List.exists_cons_of_ne_nil (String.utf8EncodeChar_ne_nil (c := d))
      rw [encode, encode, List.flatMap_cons, hx]
      exact List.nil_lt_cons _ _
  | cons c s ih =>
    cases t with
    | nil => cases h
    | cons d t =>
      rw [List.compare_cons_cons, Ordering.then_eq_lt] at h
      rw [encode, encode, List.flatMap_cons, List.flatMap_cons]
      rcases h with h | ⟨heq, h⟩
      · exact (below_utf8EncodeChar (compareOfLessAndEq_eq_lt.mp h)).append_lt _ _
      · rw [Std.LawfulEqOrd.eq_of_compare heq]
        exact List.append_left_lt (ih h)

theorem encode_length (s : List Char) : (encode s).length = (s.map Char.utf8Size).sum := by
  rw [encode, List.length_flatMap]
  simp only [String.length_utf8EncodeChar]

end Utf8Order
