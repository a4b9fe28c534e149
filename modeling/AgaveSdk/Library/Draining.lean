import AgaveSdk.Library.FallibleState

/-! Iterators driven until they are exhausted. -/
namespace Draining
open FallibleState

variable {σ ε α β : Type} {next : σ → Outcome ε (Option α × σ)} {body : α → Outcome ε Unit}

/-- Collect every item. The bound only serves the recursion: reaching it is a fault. -/
def collect (next : σ → Outcome ε (Option α × σ)) : ℕ → σ → Outcome ε (List α)
  | 0, _ => .error (.fault .exhausted)
  | n + 1, s => do
      match ← next s with
      | (none, _) => return []
      | (some a, s') => return a :: (← collect next n s')

/-- Run the body on every item, stopping at its first error. -/
def forEach (next : σ → Outcome ε (Option α × σ)) (body : α → Outcome ε Unit) :
    ℕ → σ → Outcome ε Unit
  | 0, _ => .error (.fault .exhausted)
  | n + 1, s => do
      match ← next s with
      | (none, _) => return ()
      | (some a, s') => body a; forEach next body n s'

/-- Thread a value through the body, item by item. -/
def foldEach (next : σ → Outcome ε (Option α × σ)) (body : β → α → Outcome ε β) :
    ℕ → σ → β → Outcome ε β
  | 0, _, _ => .error (.fault .exhausted)
  | n + 1, s, acc => do
      match ← next s with
      | (none, _) => return acc
      | (some a, s') => foldEach next body n s' (← body acc a)

/-- Ask for an item that passes the test, stopping at the first one. -/
def anyEach (next : σ → Outcome ε (Option α × σ)) (test : α → Bool) : ℕ → σ → Outcome ε Bool
  | 0, _ => .error (.fault .exhausted)
  | n + 1, s => do
      match ← next s with
      | (none, _) => return false
      | (some a, s') => if test a then return true else anyEach next test n s'

/-- Repeated calls yield exactly the listed items and then nothing. -/
inductive Drains (next : σ → Outcome ε (Option α × σ)) : σ → List α → Prop where
  | done {s s' : σ} (h : next s = .ok (none, s')) : Drains next s []
  | more {s s' : σ} {a : α} {as : List α} (h : next s = .ok (some a, s'))
      (hs : Drains next s' as) : Drains next s (a :: as)

theorem Drains.collect_eq {s : σ} {as : List α} (h : Drains next s as) {n : ℕ}
    (hn : as.length < n) : collect next n s = .ok as := by
  induction h generalizing n with
  | done h =>
    obtain ⟨n, rfl⟩ : ∃ k, n = k + 1 := ⟨n - 1, by simp at hn; omega⟩
    simp [collect, h, bind, Except.bind, pure, Except.pure]
  | more h _ ih =>
    obtain ⟨n, rfl⟩ : ∃ k, n = k + 1 := ⟨n - 1, by simp at hn; omega⟩
    have ht := ih (n := n) (by simpa using hn)
    simp [collect, h, ht, bind, Except.bind, pure, Except.pure]

theorem Drains.forEach_eq {s : σ} {as : List α} (h : Drains next s as) {n : ℕ}
    (hn : as.length < n) : forEach next body n s = forM as body := by
  induction h generalizing n with
  | done h =>
    obtain ⟨n, rfl⟩ : ∃ k, n = k + 1 := ⟨n - 1, by simp at hn; omega⟩
    simp [forEach, h, bind, Except.bind]
  | more h _ ih =>
    obtain ⟨n, rfl⟩ : ∃ k, n = k + 1 := ⟨n - 1, by simp at hn; omega⟩
    have ht := ih (n := n) (by simpa using hn)
    simp [forEach, h, ht, bind, Except.bind]

theorem Drains.foldEach_eq {s : σ} {as : List α} (h : Drains next s as) {n : ℕ}
    (hn : as.length < n) (body : β → α → Outcome ε β) (acc : β) :
    foldEach next body n s acc = as.foldlM body acc := by
  induction h generalizing n acc with
  | done h =>
    obtain ⟨n, rfl⟩ : ∃ k, n = k + 1 := ⟨n - 1, by simp at hn; omega⟩
    simp [foldEach, h, bind, Except.bind]
  | more h _ ih =>
    obtain ⟨n, rfl⟩ : ∃ k, n = k + 1 := ⟨n - 1, by simp at hn; omega⟩
    have ht := ih (n := n) (by simpa using hn)
    simp [foldEach, h, ht, bind, Except.bind]

theorem Drains.anyEach_eq {s : σ} {as : List α} (h : Drains next s as) {n : ℕ}
    (hn : as.length < n) (test : α → Bool) : anyEach next test n s = .ok (as.any test) := by
  induction h generalizing n with
  | done h =>
    obtain ⟨n, rfl⟩ : ∃ k, n = k + 1 := ⟨n - 1, by simp at hn; omega⟩
    simp [anyEach, h, bind, Except.bind, pure, Except.pure]
  | @more _ _ a _ h _ ih =>
    obtain ⟨n, rfl⟩ : ∃ k, n = k + 1 := ⟨n - 1, by simp at hn; omega⟩
    have ht := ih (n := n) (by simpa using hn)
    cases ha : test a with
    | true => simp [anyEach, h, ha, bind, Except.bind, pure, Except.pure]
    | false => simp [anyEach, h, ha, ht, bind, Except.bind]

theorem forM_ok {as : List α} : forM as body = .ok () ↔ ∀ a ∈ as, body a = .ok () := by
  induction as with
  | nil => simp [pure, Except.pure]
  | cons a as ih =>
    rw [List.forM_cons, outcome_bind_ok]
    simp only [List.mem_cons, forall_eq_or_imp, ← ih]
    exact ⟨fun ⟨_, ha, hs⟩ => ⟨ha, hs⟩, fun ⟨ha, hs⟩ => ⟨(), ha, hs⟩⟩

theorem forM_noFault {as : List α} (h : ∀ a ∈ as, NoFault (body a)) : NoFault (forM as body) := by
  induction as with
  | nil => exact noFault_ok ()
  | cons a as ih =>
    rw [List.forM_cons]
    exact (h a (by simp)).bind fun _ _ => ih fun b hb => h b (by simp [hb])

end Draining
