import Mathlib.Algebra.Ring.Nat
import Mathlib.Data.List.Basic
import Mathlib.Data.List.DropRight

/-! Segments of a list at given offsets, and lists cut into vectors of one width. -/
namespace Segments

variable {β : Type}

/-- The segment `x` stands in `l` at offset `o`. -/
def At (l : List β) (o : ℕ) (x : List β) : Prop := x <+: l.drop o

@[simp] theorem at_nil (l : List β) (o : ℕ) : At l o [] := List.nil_prefix

theorem at_zero {l x : List β} : At l 0 x ↔ x <+: l := by simp [At]

@[simp] theorem at_append {l x y : List β} {o : ℕ} :
    At l o (x ++ y) ↔ At l o x ∧ At l (o + x.length) y := by
  unfold At
  constructor
  · rintro ⟨t, ht⟩
    refine ⟨⟨y ++ t, by rw [← ht, List.append_assoc]⟩, t, ?_⟩
    rw [← List.drop_drop, ← ht, List.append_assoc, List.drop_left]
  · rintro ⟨⟨s, hs⟩, ⟨t, ht⟩⟩
    refine ⟨t, ?_⟩
    rw [← List.drop_drop, ← hs, List.drop_left] at ht
    rw [← hs, List.append_assoc, ht]

theorem at_singleton {l : List β} {o : ℕ} {v : β} : At l o [v] ↔ l[o]? = some v := by
  unfold At
  rw [← List.head?_drop]
  cases l.drop o with
  | nil => simp
  | cons a t => simp [eq_comm]

theorem at_cons {l x : List β} {o : ℕ} {v : β} :
    At l o (v :: x) ↔ l[o]? = some v ∧ At l (o + 1) x := by
  rw [← List.singleton_append, at_append, at_singleton, List.length_singleton]

theorem At.length_le {l x : List β} {o : ℕ} (h : At l o x) (ho : o ≤ l.length) :
    o + x.length ≤ l.length := by
  have hl := List.IsPrefix.length_le h
  rw [List.length_drop] at hl
  omega

theorem At.take_eq {l x : List β} {o : ℕ} (h : At l o x) : (l.drop o).take x.length = x :=
  (List.prefix_iff_eq_take.mp h).symm

/-- A segment of each length that still fits exists. -/
theorem exists_at_iff {l : List β} {o n : ℕ} (ho : o ≤ l.length) :
    (∃ x, x.length = n ∧ At l o x) ↔ o + n ≤ l.length := by
  constructor
  · rintro ⟨x, rfl, hx⟩
    exact hx.length_le ho
  · intro h
    exact ⟨(l.drop o).take n, by simp; omega, List.take_prefix _ _⟩

theorem at_append_left (pre l x : List β) (o : ℕ) :
    At (pre ++ l) (pre.length + o) x ↔ At l o x := by
  unfold At
  rw [← List.drop_drop, List.drop_left]

theorem at_length_append (pre x t : List β) : At (pre ++ x ++ t) pre.length x := by
  have h := at_append_left pre (x ++ t) x 0
  rw [List.append_assoc]
  exact h.mpr (by simp [At])

/-- Put `x` in the place of as many elements at offset `o`. -/
def overwrite (l : List β) (o : ℕ) (x : List β) : List β :=
  l.take o ++ (x ++ l.drop (o + x.length))

theorem overwrite_length {l x : List β} {o : ℕ} (h : o + x.length ≤ l.length) :
    (overwrite l o x).length = l.length := by
  rw [overwrite, List.length_append, List.length_append, List.length_take, List.length_drop]
  omega

theorem overwrite_append {x y : List β} (pre t : List β) (h : x.length = y.length) :
    overwrite (pre ++ (y ++ t)) pre.length x = pre ++ (x ++ t) := by
  rw [overwrite, List.take_left, ← List.drop_drop, List.drop_left, h, List.drop_left]

theorem getElem?_append_outside {x y : List β} (pre t : List β) (h : x.length = y.length) {i : ℕ}
    (hi : i < pre.length ∨ pre.length + y.length ≤ i) :
    (pre ++ (x ++ t))[i]? = (pre ++ (y ++ t))[i]? := by
  rcases hi with hi | hi
  · rw [List.getElem?_append_left hi, List.getElem?_append_left hi]
  · rw [List.getElem?_append_right (by omega), List.getElem?_append_right (by omega),
      List.getElem?_append_right (by omega), List.getElem?_append_right (by omega), h]

/-- Cut the front of a list into `n` vectors of one width. -/
def chunks [Inhabited β] (width : ℕ) : ℕ → List β → List (Vector β width)
  | 0, _ => []
  | n + 1, l => Vector.ofFn (fun i => l.getD i default) :: chunks width n (l.drop width)

@[simp] theorem chunks_length [Inhabited β] (width n : ℕ) (l : List β) :
    (chunks width n l).length = n := by
  induction n generalizing l with
  | zero => rfl
  | succ n ih => simp [chunks, ih]

theorem ofFn_getD_toList [Inhabited β] {width : ℕ} (v : Vector β width) (t : List β) :
    (Vector.ofFn fun i : Fin width => (v.toList ++ t).getD i default) = v := by
  ext i hi
  have hv : i < v.toList.length := by simpa using hi
  simp [List.getElem?_append_left hv, hi]

/-- Cutting a concatenation of vectors gives the vectors back. -/
theorem chunks_flatMap [Inhabited β] {width : ℕ} (vs : List (Vector β width)) (t : List β) :
    chunks width vs.length (vs.flatMap Vector.toList ++ t) = vs := by
  induction vs with
  | nil => rfl
  | cons v vs ih =>
    have hv : v.toList.length = width := by simp
    simp only [List.length_cons, chunks, List.flatMap_cons, List.append_assoc, ofFn_getD_toList]
    rw [List.drop_append_of_le_length hv.ge, List.drop_of_length_le hv.le, List.nil_append, ih]

/-- Every list whose length is a multiple of the width is a concatenation of vectors. -/
theorem flatMap_chunks [Inhabited β] {width n : ℕ} {l : List β} (hl : l.length = n * width) :
    (chunks width n l).flatMap Vector.toList = l := by
  induction n generalizing l with
  | zero => simpa [chunks, eq_comm] using hl
  | succ n ih =>
    have hw : width ≤ l.length := by rw [hl]; exact Nat.le_mul_of_pos_left _ n.succ_pos
    have hd : (l.drop width).length = n * width := by
      rw [List.length_drop, hl, Nat.succ_mul, Nat.add_sub_cancel]
    have hf : (Vector.ofFn fun i : Fin width => l.getD i default).toList = l.take width := by
      apply List.ext_getElem
      · simp [hw]
      · intro i h₁ h₂
        have hi : i < l.length := by simp at h₂; omega
        simp [hi]
    rw [chunks, List.flatMap_cons, ih hd, hf, List.take_append_drop]

@[simp] theorem flatMap_toList_length {width : ℕ} (vs : List (Vector β width)) :
    (vs.flatMap Vector.toList).length = vs.length * width := by
  induction vs with
  | nil => simp
  | cons v vs ih =>
    rw [List.flatMap_cons, List.length_append, ih, Vector.length_toList, List.length_cons,
      Nat.succ_mul, Nat.add_comm]

end Segments
