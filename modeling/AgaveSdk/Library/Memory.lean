import Mathlib.Algebra.Ring.Nat
import Mathlib.Data.List.Basic

/-! Memory as a list of cells with addresses: allocation at the end, writes in place. -/
namespace Memory

variable {α : Type} {l : List α} {i j : ℕ} {x y : α} {f : α → α}

theorem get_alloc (h : (l ++ [x])[i]? = some y) : l[i]? = some y ∨ i = l.length ∧ y = x := by
  rcases Nat.lt_or_ge i l.length with hi | hi
  · rw [List.getElem?_append_left hi] at h
    exact .inl h
  · have hlt := (List.getElem?_eq_some_iff.mp h).1
    rw [List.length_append, List.length_singleton] at hlt
    obtain rfl : i = l.length := by omega
    rw [List.getElem?_concat_length] at h
    cases h
    exact .inr ⟨rfl, rfl⟩

theorem alloc_get (h : l[i]? = some y) : (l ++ [x])[i]? = some y := by
  rw [List.getElem?_append_left (List.getElem?_eq_some_iff.mp h).1]
  exact h

theorem get_set (h : (l.set i x)[j]? = some y) :
    (j = i ∧ y = x) ∨ (j ≠ i ∧ l[j]? = some y) := by
  rcases eq_or_ne j i with rfl | hne
  · have hlt := (List.getElem?_eq_some_iff.mp h).1
    rw [List.length_set] at hlt
    rw [List.getElem?_set_self hlt] at h
    cases h
    exact .inl ⟨rfl, rfl⟩
  · rw [List.getElem?_set_ne hne.symm] at h
    exact .inr ⟨hne, h⟩

theorem set_get (h : l[i]? = some y) : (l.set i x)[i]? = some x :=
  List.getElem?_set_self (List.getElem?_eq_some_iff.mp h).1

theorem set_same (h : l[i]? = some x) : l.set i x = l := by
  obtain ⟨hlt, rfl⟩ := List.getElem?_eq_some_iff.mp h
  exact List.set_getElem_self hlt

/-- The cells before and after the one that is written. -/
theorem set_split (h : l[i]? = some y) :
    ∃ l₁ l₂, l = l₁ ++ y :: l₂ ∧ l₁.length = i ∧ ∀ x, l.set i x = l₁ ++ x :: l₂ := by
  obtain ⟨hlt, rfl⟩ := List.getElem?_eq_some_iff.mp h
  have hsplit : l = l.take i ++ l[i] :: l.drop (i + 1) := by
    rw [← List.drop_eq_getElem_cons hlt, List.take_append_drop]
  refine ⟨l.take i, l.drop (i + 1), hsplit, List.length_take_of_le (Nat.le_of_lt hlt), fun x => ?_⟩
  exact List.set_eq_take_append_cons_drop.trans (if_pos hlt)

theorem get_modify (h : (l.modify i f)[j]? = some y) :
    ∃ x, l[j]? = some x ∧ (j = i ∧ y = f x ∨ j ≠ i ∧ y = x) := by
  rw [List.getElem?_modify] at h
  obtain ⟨x, hx, rfl⟩ := Option.map_eq_some_iff.mp h
  refine ⟨x, hx, ?_⟩
  by_cases hij : i = j
  · exact .inl ⟨hij.symm, if_pos hij⟩
  · exact .inr ⟨Ne.symm hij, if_neg hij⟩

theorem modify_get (h : l[i]? = some x) : (l.modify i f)[i]? = some (f x) := by
  rw [List.getElem?_modify, h]
  simp

theorem modify_get_ne (hne : j ≠ i) : (l.modify i f)[j]? = l[j]? := by
  rw [List.getElem?_modify]
  cases l[j]? <;> simp [hne.symm]

theorem modify_self (h : ∀ x, l[i]? = some x → f x = x) : l.modify i f = l := by
  refine List.ext_getElem? fun j => ?_
  rw [List.getElem?_modify]
  by_cases hij : i = j
  · subst hij
    cases hx : l[i]? with
    | none => rfl
    | some x => simp [h x hx]
  · simp [hij]

end Memory
