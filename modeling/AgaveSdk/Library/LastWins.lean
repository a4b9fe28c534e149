import Mathlib.Algebra.Ring.Nat
import Mathlib.Data.List.Induction
import Mathlib.Data.List.Nodup

/-! Lists of keyed entries where a later entry takes the place of an earlier one with its key, and
the search of a sorted list from its greatest entry. -/
namespace LastWins

variable {α κ : Type} [DecidableEq κ] {key : α → κ} {l : List α} {a x : α}

/-- Replace the first entry with the same key in place, or append. -/
def upsert (key : α → κ) : List α → α → List α
  | [], x => [x]
  | a :: l, x => if key a = key x then x :: l else a :: upsert key l x

/-- The last entry with a key. -/
def lastWith (key : α → κ) (k : κ) (l : List α) : Option α :=
  (l.filter fun a => key a = k).getLast?

theorem map_key_upsert (l : List α) (x : α) : (upsert key l x).map key =
    if key x ∈ l.map key then l.map key else l.map key ++ [key x] := by
  induction l with
  | nil => simp [upsert]
  | cons b l ih =>
    unfold upsert
    split
    · next h => simp [h]
    · next h =>
      have hne : key x ≠ key b := Ne.symm h
      rw [List.map_cons, ih, List.map_cons]
      split <;> simp_all

/-- A new key is appended. -/
theorem upsert_of_new (h : key x ∉ l.map key) : upsert key l x = l ++ [x] := by
  induction l with
  | nil => rfl
  | cons b l ih =>
    rw [List.map_cons, List.mem_cons, not_or] at h
    rw [upsert, if_neg (Ne.symm h.1), ih h.2, List.cons_append]

theorem nodup_upsert (h : (l.map key).Nodup) (x : α) : ((upsert key l x).map key).Nodup := by
  rw [map_key_upsert]
  split
  · exact h
  · next hx =>
    rw [List.nodup_append]
    refine ⟨h, by simp, ?_⟩
    intro k hk k' hk' heq
    rw [List.mem_singleton] at hk'
    exact hx (hk' ▸ heq ▸ hk)

theorem mem_upsert (h : (l.map key).Nodup) :
    a ∈ upsert key l x ↔ a = x ∨ (a ∈ l ∧ key a ≠ key x) := by
  induction l with
  | nil => simp [upsert]
  | cons b l ih =>
    rw [List.map_cons, List.nodup_cons] at h
    unfold upsert
    split
    · next hb =>
      -- The keys are distinct, so no other entry has the key that is replaced.
      have hother : a ∈ l → key a ≠ key x := by
        intro ha heq
        exact h.1 (hb ▸ heq ▸ List.mem_map_of_mem ha)
      simp only [List.mem_cons]
      constructor
      · rintro (rfl | ha)
        · exact .inl rfl
        · exact .inr ⟨.inr ha, hother ha⟩
      · rintro (rfl | ⟨rfl | ha, hne⟩)
        · exact .inl rfl
        · exact absurd hb hne
        · exact .inr ha
    · next hb =>
      rw [List.mem_cons, ih h.2, List.mem_cons]
      constructor
      · rintro (rfl | rfl | ⟨ha, hne⟩)
        · exact .inr ⟨.inl rfl, hb⟩
        · exact .inl rfl
        · exact .inr ⟨.inr ha, hne⟩
      · rintro (rfl | ⟨rfl | ha, hne⟩)
        · exact .inr (.inl rfl)
        · exact .inl rfl
        · exact .inr (.inr ⟨ha, hne⟩)

theorem nodup_foldl_upsert (h : (l.map key).Nodup) (xs : List α) :
    ((xs.foldl (upsert key) l).map key).Nodup := by
  induction xs generalizing l with
  | nil => exact h
  | cons x xs ih => exact ih (nodup_upsert h x)

/-- What remains of each key is its last entry. -/
theorem mem_foldl_upsert (xs : List α) :
    a ∈ xs.foldl (upsert key) [] ↔ lastWith key (key a) xs = some a := by
  induction xs using List.reverseRecOn with
  | nil => simp [lastWith]
  | append_singleton xs x ih =>
    have hnodup : ((xs.foldl (upsert key) []).map key).Nodup :=
      nodup_foldl_upsert (l := []) List.nodup_nil xs
    rw [List.foldl_append, List.foldl_cons, List.foldl_nil, mem_upsert hnodup, ih]
    unfold lastWith
    rw [List.filter_append]
    by_cases hx : key x = key a
    · simp [hx, eq_comm]
    · have hne : a ≠ x := fun h => hx (h ▸ rfl)
      simp [hx, hne, Ne.symm hx]

theorem key_of_lastWith {k : κ} {xs : List α} (h : lastWith key k xs = some a) :
    a ∈ xs ∧ key a = k := by
  have hmem := List.mem_of_getLast? h
  rw [List.mem_filter, decide_eq_true_eq] at hmem
  exact hmem

theorem exists_lastWith (key : α → κ) {xs : List α} (h : a ∈ xs) :
    ∃ b, lastWith key (key a) xs = some b := by
  rw [← Option.isSome_iff_exists, lastWith, List.getLast?_isSome]
  exact List.ne_nil_of_mem (List.mem_filter.mpr ⟨h, by simp⟩)

/-- Where keys are distinct, every entry is the last with its key. -/
theorem lastWith_nodup (h : (l.map key).Nodup) : lastWith key (key a) l = some a ↔ a ∈ l := by
  constructor
  · intro hlast
    exact (key_of_lastWith hlast).1
  · intro ha
    obtain ⟨b, hb⟩ := exists_lastWith key ha
    obtain ⟨hmem, hkey⟩ := key_of_lastWith hb
    rw [hb, List.inj_on_of_nodup_map h hmem ha hkey]

/-- The search from the end of a sorted list finds a greatest match. -/
theorem find?_reverse_sorted {f : α → ℕ} {p : α → Bool}
    (hsorted : l.Pairwise fun a b => f a ≤ f b) (h : l.reverse.find? p = some a) :
    a ∈ l ∧ p a = true ∧ ∀ b ∈ l, p b = true → f b ≤ f a := by
  obtain ⟨hp, before, after, hl, hbefore⟩ := List.find?_eq_some_iff_append.mp h
  have hl : l = after.reverse ++ a :: before.reverse := by
    rw [← List.reverse_reverse l, hl]
    simp
  refine ⟨by simp [hl], hp, ?_⟩
  intro b hb hpb
  rw [hl, List.pairwise_append] at hsorted
  rw [hl, List.mem_append, List.mem_cons, List.mem_reverse] at hb
  rcases hb with hb | rfl | hb
  · exact hsorted.2.2 b (List.mem_reverse.mpr hb) a List.mem_cons_self
  · exact le_refl _
  · have hnot := hbefore b (List.mem_reverse.mp hb)
    simp [hpb] at hnot

end LastWins
