import Mathlib.Algebra.Ring.Nat
import Mathlib.Data.List.Basic

/-! Decoding UTF-8 with a replacement character for every maximal part that is not valid. -/
namespace LossyUtf8

def replacement : Char := Char.ofNat 0xFFFD

def isContinuation (b : UInt8) : Bool := 0x80 ≤ b ∧ b ≤ 0xBF

/-- The length of a sequence that starts with the byte. Some bytes start none. -/
def width (b : UInt8) : ℕ :=
  if b < 0x80 then 1
  else if 0xC2 ≤ b ∧ b ≤ 0xDF then 2
  else if 0xE0 ≤ b ∧ b ≤ 0xEF then 3
  else if 0xF0 ≤ b ∧ b ≤ 0xF4 then 4
  else 0

/-- Which second bytes rule out overlong forms, surrogates and numbers that are too large. -/
def maySecond (first second : UInt8) : Bool :=
  if first = 0xE0 then 0xA0 ≤ second ∧ second ≤ 0xBF
  else if first = 0xED then 0x80 ≤ second ∧ second ≤ 0x9F
  else if first = 0xF0 then 0x90 ≤ second ∧ second ≤ 0xBF
  else if first = 0xF4 then 0x80 ≤ second ∧ second ≤ 0x8F
  else isContinuation second

/-- The payload of a continuation byte. -/
def low (b : UInt8) : ℕ := b.toNat % 64

/-- The character that a sequence starts with, and how many of the bytes after the first belong to
it or to the invalid part it stands for. -/
def next (b : UInt8) (rest : List UInt8) : Char × ℕ :=
  match width b, rest with
  | 1, _ => (Char.ofNat b.toNat, 0)
  | 2, c :: _ =>
      if isContinuation c then (Char.ofNat (b.toNat % 32 * 64 + low c), 1) else (replacement, 0)
  | 3, c :: rest =>
      if maySecond b c then
        match rest with
        | d :: _ =>
            if isContinuation d then (Char.ofNat ((b.toNat % 16 * 64 + low c) * 64 + low d), 2)
            else (replacement, 1)
        | [] => (replacement, 1)
      else (replacement, 0)
  | 4, c :: rest =>
      if maySecond b c then
        match rest with
        | d :: rest =>
            if isContinuation d then
              match rest with
              | e :: _ =>
                  if isContinuation e then
                    (Char.ofNat (((b.toNat % 8 * 64 + low c) * 64 + low d) * 64 + low e), 3)
                  else (replacement, 2)
              | [] => (replacement, 2)
            else (replacement, 1)
        | [] => (replacement, 1)
      else (replacement, 0)
  | _, _ => (replacement, 0)

/-- Decode with a bound on the number of characters. -/
def decodeUpTo : ℕ → List UInt8 → List Char
  | n + 1, b :: rest => (next b rest).1 :: decodeUpTo n (rest.drop (next b rest).2)
  | _, _ => []

def decode (bytes : List UInt8) : String := String.ofList (decodeUpTo bytes.length bytes)

section Sequences
variable {b c d e : UInt8} (rest : List UInt8)

theorem width_one (h : b.toNat < 0x80) : width b = 1 := by
  simp only [width, UInt8.lt_iff_toNat_lt, UInt8.reduceToNat]
  rw [if_pos h]

theorem width_two (h₁ : 0xC2 ≤ b.toNat) (h₂ : b.toNat ≤ 0xDF) : width b = 2 := by
  simp only [width, UInt8.lt_iff_toNat_lt, UInt8.le_iff_toNat_le, UInt8.reduceToNat]
  rw [if_neg (by omega), if_pos (by omega)]

theorem width_three (h₁ : 0xE0 ≤ b.toNat) (h₂ : b.toNat ≤ 0xEF) : width b = 3 := by
  simp only [width, UInt8.lt_iff_toNat_lt, UInt8.le_iff_toNat_le, UInt8.reduceToNat]
  rw [if_neg (by omega), if_neg (by omega), if_pos (by omega)]

theorem width_four (h₁ : 0xF0 ≤ b.toNat) (h₂ : b.toNat ≤ 0xF4) : width b = 4 := by
  simp only [width, UInt8.lt_iff_toNat_lt, UInt8.le_iff_toNat_le, UInt8.reduceToNat]
  rw [if_neg (by omega), if_neg (by omega), if_neg (by omega), if_pos (by omega)]

theorem isContinuation_of_range (h₁ : 0x80 ≤ b.toNat) (h₂ : b.toNat ≤ 0xBF) :
    isContinuation b = true := by
  simp only [isContinuation, UInt8.le_iff_toNat_le, UInt8.reduceToNat, decide_eq_true_eq]
  omega

theorem maySecond_of_range (h₁ : 0x80 ≤ c.toNat) (h₂ : c.toNat ≤ 0xBF)
    (h₃ : b.toNat = 0xE0 → 0xA0 ≤ c.toNat) (h₄ : b.toNat = 0xED → c.toNat ≤ 0x9F)
    (h₅ : b.toNat = 0xF0 → 0x90 ≤ c.toNat) (h₆ : b.toNat = 0xF4 → c.toNat ≤ 0x8F) :
    maySecond b c = true := by
  simp only [maySecond, isContinuation, ← UInt8.toNat_inj, UInt8.le_iff_toNat_le,
    UInt8.reduceToNat]
  split_ifs <;> simp only [decide_eq_true_eq] <;> omega

theorem next_one (hb : width b = 1) : next b rest = (Char.ofNat b.toNat, 0) := by
  simp only [next, hb]

theorem next_two (hb : width b = 2) (hc : isContinuation c = true) :
    next b (c :: rest) = (Char.ofNat (b.toNat % 32 * 64 + low c), 1) := by
  simp only [next, hb, hc, if_true]

theorem next_three (hb : width b = 3) (hc : maySecond b c = true) (hd : isContinuation d = true) :
    next b (c :: d :: rest) =
      (Char.ofNat ((b.toNat % 16 * 64 + low c) * 64 + low d), 2) := by
  simp only [next, hb, hc, hd, if_true]

theorem next_four (hb : width b = 4) (hc : maySecond b c = true) (hd : isContinuation d = true)
    (he : isContinuation e = true) :
    next b (c :: d :: e :: rest) =
      (Char.ofNat (((b.toNat % 8 * 64 + low c) * 64 + low d) * 64 + low e), 3) := by
  simp only [next, hb, hc, hd, he, if_true]

end Sequences

theorem char_eq {n : ℕ} {c : Char} (h : n = c.toNat) : Char.ofNat n = c := by
  rw [h, Char.ofNat_toNat]

/-- The first step on an encoded character gives the character back. -/
theorem next_utf8EncodeChar (c : Char) (rest : List UInt8) :
    ∃ b bs, String.utf8EncodeChar c = b :: bs ∧ next b (bs ++ rest) = (c, bs.length) := by
  have hvalid : c.toNat < 0xD800 ∨ 0xDFFF < c.toNat ∧ c.toNat < 0x110000 := c.valid
  have hv : c.val.toNat = c.toNat := rfl
  have htoNat (n : ℕ) (h : n < 256) : (UInt8.ofNat n).toNat = n := by
    rw [UInt8.toNat_ofNat', Nat.mod_eq_of_lt h]
  -- The last byte of a sequence of two or more.
  have hlast := htoNat (c.toNat % 64 + 0x80) (by omega)
  have hcont : isContinuation (UInt8.ofNat (c.toNat % 64 + 0x80)) = true :=
    isContinuation_of_range (by omega) (by omega)
  simp only [String.utf8EncodeChar, hv]
  split_ifs with h₁ h₂ h₃
  · have hb := htoNat c.toNat (by omega)
    refine ⟨_, _, rfl, ?_⟩
    rw [next_one _ (width_one (by omega)), char_eq hb]
    rfl
  · have hb := htoNat (c.toNat / 64 % 32 + 0xC0) (by omega)
    refine ⟨_, _, rfl, ?_⟩
    rw [List.cons_append, next_two _ (width_two (by omega) (by omega)) hcont]
    rw [char_eq (c := c) (by simp only [low]; omega)]
    rfl
  · have hb := htoNat (c.toNat / 4096 % 16 + 0xE0) (by omega)
    have hc := htoNat (c.toNat / 64 % 64 + 0x80) (by omega)
    refine ⟨_, _, rfl, ?_⟩
    rw [List.cons_append, List.cons_append, next_three _ (width_three (by omega) (by omega))
      (by apply maySecond_of_range <;> omega) hcont]
    rw [char_eq (c := c) (by simp only [low]; omega)]
    rfl
  · have hb := htoNat (c.toNat / 262144 % 8 + 0xF0) (by omega)
    have hc := htoNat (c.toNat / 4096 % 64 + 0x80) (by omega)
    have hd := htoNat (c.toNat / 64 % 64 + 0x80) (by omega)
    refine ⟨_, _, rfl, ?_⟩
    rw [List.cons_append, List.cons_append, List.cons_append,
      next_four _ (width_four (by omega) (by omega)) (by apply maySecond_of_range <;> omega)
      (isContinuation_of_range (by omega) (by omega)) hcont]
    rw [char_eq (c := c) (by simp only [low]; omega)]
    rfl

theorem decodeUpTo_flatMap {n : ℕ} {l : List Char} (h : l.length ≤ n) :
    decodeUpTo n (l.flatMap String.utf8EncodeChar) = l := by
  induction l generalizing n with
  | nil => cases n <;> rfl
  | cons c l ih =>
    obtain ⟨n, rfl⟩ : ∃ k, n = k + 1 := ⟨n - 1, by simp at h; omega⟩
    obtain ⟨b, bs, hb, hn⟩ := next_utf8EncodeChar c (l.flatMap String.utf8EncodeChar)
    rw [List.flatMap_cons, hb, List.cons_append, decodeUpTo, hn, List.drop_left,
      ih (by simpa using h)]

theorem length_le_flatMap (l : List Char) :
    l.length ≤ (l.flatMap String.utf8EncodeChar).length := by
  induction l with
  | nil => exact le_rfl
  | cons c l ih =>
    have hc := c.utf8Size_pos
    rw [List.flatMap_cons, List.length_append, List.length_cons, String.length_utf8EncodeChar]
    omega

/-- Decoding the bytes of a text gives the text. -/
theorem decode_toByteArray (s : String) : decode s.toByteArray.data.toList = s := by
  have hs : s.toByteArray.data.toList = s.toList.flatMap String.utf8EncodeChar := by
    rw [← String.utf8Encode_toList, List.utf8Encode]
    simp
  rw [decode, hs, decodeUpTo_flatMap (length_le_flatMap _), String.ofList_toList]

example : decodeUpTo 9 [0x41, 0xC3, 0xA9, 0xE2, 0x82, 0xAC, 0xE2, 0x82] = ['A', 'é', '€', '�'] := by
  decide

end LossyUtf8
