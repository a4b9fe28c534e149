import Mathlib.Algebra.Ring.Nat
import Mathlib.Logic.Function.Basic

/-! A ring of cells that running counters address. Counters less than one turn apart have cells of
their own, so a write leaves the rest of a window of one turn alone. -/
namespace CellRing

variable {β : Type} {K : ℕ} [NeZero K] {cells : Fin K → β} {b : β} {i j : ℕ}

def slot (K : ℕ) [NeZero K] (i : ℕ) : Fin K := Fin.ofNat K i

/-- The cell of a counter. -/
def cell (cells : Fin K → β) (i : ℕ) : β := cells (slot K i)

def setCell (cells : Fin K → β) (i : ℕ) (b : β) : Fin K → β :=
  Function.update cells (slot K i) b

theorem slot_ne (hlt : i < j) (hwindow : j < i + K) : slot K i ≠ slot K j := by
  intro heq
  have hmod : i % K = j % K := congrArg Fin.val heq
  have hdvd : K ∣ j - i := Nat.dvd_of_mod_eq_zero (Nat.sub_mod_eq_zero_of_mod_eq hmod.symm)
  exact absurd (Nat.le_of_dvd (by omega) hdvd) (by omega)

@[simp] theorem cell_setCell_self : cell (setCell cells i b) i = b := by
  simp [cell, setCell]

/-- A write leaves the earlier counters of its turn alone. -/
theorem cell_setCell_of_lt (hlt : i < j) (hwindow : j < i + K) :
    cell (setCell cells j b) i = cell cells i := by
  simp [cell, setCell, Function.update_of_ne (slot_ne hlt hwindow)]

end CellRing
