import Mathlib.Algebra.Ring.Nat
import Mathlib.Data.List.Basic

/-! Runs of a machine that may refuse an action, and the rule for invariants over all runs. -/
namespace Runs

variable {σ α : Type} {step : σ → α → Option σ} {s s' : σ}

/-- Carries out the actions one after another. A refused action ends the run without a state. -/
def run (step : σ → α → Option σ) (s : σ) : List α → Option σ
  | [] => some s
  | a :: as => (step s a).bind fun s' => run step s' as

/-- What every step preserves holds at the end of every run. -/
theorem run_invariant (Inv : σ → Prop)
    (hstep : ∀ {s a s'}, step s a = some s' → Inv s → Inv s') {as : List α}
    (h : run step s as = some s') (hinv : Inv s) : Inv s' := by
  induction as generalizing s with
  | nil =>
    rw [run, Option.some.injEq] at h
    rwa [← h]
  | cons a as ih =>
    obtain ⟨s₁, h₁, h₂⟩ := Option.bind_eq_some_iff.mp h
    exact ih h₂ (hstep h₁ hinv)

/-- What the steps of allowed actions preserve holds at the end of a run of such actions. -/
theorem run_invariant_of (Allowed : α → Prop) (Inv : σ → Prop)
    (hstep : ∀ {s a s'}, Allowed a → step s a = some s' → Inv s → Inv s') {as : List α}
    (has : ∀ a ∈ as, Allowed a) (h : run step s as = some s') (hinv : Inv s) : Inv s' := by
  induction as generalizing s with
  | nil =>
    rw [run, Option.some.injEq] at h
    rwa [← h]
  | cons a as ih =>
    obtain ⟨s₁, h₁, h₂⟩ := Option.bind_eq_some_iff.mp h
    obtain ⟨ha, has⟩ := List.forall_mem_cons.mp has
    exact ih has h₂ (hstep ha h₁ hinv)

theorem run_append {s₁ : σ} {as bs : List α} (h : run step s as = some s₁) :
    run step s (as ++ bs) = run step s₁ bs := by
  induction as generalizing s with
  | nil =>
    cases h
    rfl
  | cons a as ih =>
    obtain ⟨s₂, h₁, h₂⟩ := Option.bind_eq_some_iff.mp h
    rw [List.cons_append, run, h₁, Option.bind_some]
    exact ih h₂

/-- A step lowers the measure, except for what its action pays. So what the actions of a run pay
bounds its length. -/
theorem run_length_le (Inv : σ → Prop) (measure : σ → ℕ) (cost : α → ℕ)
    (hstep : ∀ {s a s'}, step s a = some s' → Inv s → Inv s')
    (hcost : ∀ {s a s'}, step s a = some s' → Inv s → measure s' + 1 ≤ measure s + cost a)
    {as : List α} (h : run step s as = some s') (hinv : Inv s) :
    as.length + measure s' ≤ measure s + (as.map cost).sum := by
  induction as generalizing s with
  | nil =>
    cases h
    simp
  | cons a as ih =>
    obtain ⟨s₁, h₁, h₂⟩ := Option.bind_eq_some_iff.mp h
    have hfirst := hcost h₁ hinv
    have hrest := ih h₂ (hstep h₁ hinv)
    rw [List.length_cons, List.map_cons, List.sum_cons]
    omega

/-- Where each step is a run of another machine that shows the same events, so is a whole run. -/
theorem run_simulates {τ β ε : Type} {step' : τ → β → Option τ} (Inv : σ → Prop) (abs : σ → τ)
    (event : α → Option ε) (event' : β → Option ε)
    (hinv : ∀ {s a s'}, step s a = some s' → Inv s → Inv s')
    (hstep : ∀ {s a s'}, step s a = some s' → Inv s →
      ∃ bs, run step' (abs s) bs = some (abs s') ∧ bs.filterMap event' = (event a).toList)
    {as : List α} (h : run step s as = some s') (hs : Inv s) :
    ∃ bs, run step' (abs s) bs = some (abs s') ∧ bs.filterMap event' = as.filterMap event := by
  induction as generalizing s with
  | nil =>
    cases h
    exact ⟨[], rfl, rfl⟩
  | cons a as ih =>
    obtain ⟨s₁, h₁, h₂⟩ := Option.bind_eq_some_iff.mp h
    obtain ⟨bs, hbs, hevent⟩ := hstep h₁ hs
    obtain ⟨bs', hbs', hevents⟩ := ih h₂ (hinv h₁ hs)
    refine ⟨bs ++ bs', (run_append hbs).trans hbs', ?_⟩
    rw [List.filterMap_append, hevent, hevents]
    cases hfirst : event a with
    | none => rw [List.filterMap_cons_none hfirst, Option.toList_none, List.nil_append]
    | some e => rw [List.filterMap_cons_some hfirst, Option.toList_some, List.singleton_append]

end Runs
