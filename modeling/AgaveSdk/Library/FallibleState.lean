import Mathlib.Algebra.Ring.Nat
import Mathlib.Data.List.Basic
import Mathlib.Order.Defs.PartialOrder

/-! State-passing computations that may stop early. The state survives a stop, as a
mutable argument does when a function returns an error. -/
namespace FallibleState

/-- Ways to stop that no result type announces. -/
inductive Fault where
  | panic
  | undefined
  | exhausted
  deriving DecidableEq, Repr

/-- A computation stops with an error it reports or with a fault. -/
inductive Stop (ε : Type) where
  | err (e : ε)
  | fault (f : Fault)
  deriving DecidableEq, Repr

abbrev Outcome (ε α : Type) := Except (Stop ε) α

abbrev Comp (σ ε α : Type) := ExceptT (Stop ε) (StateM σ) α

variable {σ ε α β : Type}

def exec (x : Comp σ ε α) (s : σ) : Outcome ε α × σ := x.run s

/-- Started in `s`, the computation yields `a` and leaves the state `s'`. -/
def Returns (x : Comp σ ε α) (s : σ) (a : α) (s' : σ) : Prop := exec x s = (.ok a, s')

/-- An outcome other than a fault: a value or an error that is reported. -/
def NoFault (x : Outcome ε α) : Prop := ∀ f, x ≠ .error (.fault f)

/-- Started in `s`, the computation does not end in a fault. -/
def Safe (x : Comp σ ε α) (s : σ) : Prop := NoFault (exec x s).1

def failIf {m : Type → Type} [Monad m] [MonadExceptOf (Stop ε) m] (c : Prop) [Decidable c]
    (e : Stop ε) : m Unit :=
  if c then throw e else pure ()

def ofOutcome (x : Outcome ε α) : Comp σ ε α := ExceptT.mk (pure x)

def okOr (x : Option α) (e : ε) : Outcome ε α :=
  match x with
  | some a => .ok a
  | none => .error (.err e)

/-- Convert the errors that are reported, as `?` does on the way out of a function. -/
def mapErr {ε' : Type} (f : ε → ε') (x : Comp σ ε α) : Comp σ ε' α :=
  ExceptT.mk fun s => match exec x s with
    | (.ok a, s') => (.ok a, s')
    | (.error (.err e), s') => (.error (.err (f e)), s')
    | (.error (.fault g), s') => (.error (.fault g), s')

/-- Answer an error that is reported, in the state it left behind. -/
def recover (x : Comp σ ε α) (handler : ε → Comp σ ε α) : Comp σ ε α :=
  ExceptT.mk fun s => match exec x s with
    | (.error (.err e), s') => exec (handler e) s'
    | r => r

/-- Run `y` in the state an error of `x` left behind. -/
def orTry (x y : Comp σ ε α) : Comp σ ε α := recover x fun _ => y

/-- A computation on a part of the state. -/
def zoom {τ : Type} (read : τ → σ) (update : σ → τ → τ) (x : Comp σ ε α) : Comp τ ε α :=
  ExceptT.mk fun t => match exec x (read t) with
    | (r, s) => (r, update s t)

/-- Change the state that a stop leaves behind, as the drop of a local value does. -/
def onStop (cleanup : σ → σ) (x : Comp σ ε α) : Comp σ ε α :=
  ExceptT.mk fun s => match exec x s with
    | (.ok a, s') => (.ok a, s')
    | (.error e, s') => (.error e, cleanup s')

/-- From every state, the computation returns. -/
def Total (x : Comp σ ε α) : Prop := ∀ s, ∃ a s', Returns x s a s'

/-- From every state, the computation ends in one that is no lower, also where it stops. -/
def Ascends [Preorder σ] (x : Comp σ ε α) : Prop := ∀ s, s ≤ (exec x s).2

/-- Wherever the computation returns, it has added the amount to the measure of the state. -/
def Adds (measure : σ → ℕ) (x : Comp σ ε α) (amount : ℕ) : Prop :=
  ∀ s a s', Returns x s a s' → measure s' = measure s + amount

/-- Wherever the computation stops, the measure of the state is as it was. -/
def StopsBefore (measure : σ → ℕ) (x : Comp σ ε α) : Prop :=
  ∀ s e s', exec x s = (.error e, s') → measure s' = measure s

/-- Started in `s`, the computation stops for no other reason than those allowed. -/
def StopsOnly (allowed : Stop ε → Prop) (x : Comp σ ε α) (s : σ) : Prop :=
  ∀ e, (exec x s).1 = .error e → allowed e

theorem exec_pure (a : α) (s : σ) : exec (pure a : Comp σ ε α) s = (.ok a, s) := rfl

theorem exec_throw (e : Stop ε) (s : σ) : exec (throw e : Comp σ ε α) s = (.error e, s) := rfl

theorem exec_get (s : σ) : exec (get : Comp σ ε σ) s = (.ok s, s) := rfl

theorem exec_modify (f : σ → σ) (s : σ) : exec (modify f : Comp σ ε Unit) s = (.ok (), f s) := rfl

theorem exec_ofOutcome (x : Outcome ε α) (s : σ) :
    exec (ofOutcome x : Comp σ ε α) s = (x, s) := rfl

theorem exec_failIf (c : Prop) [Decidable c] (e : Stop ε) (s : σ) :
    exec (failIf c e : Comp σ ε Unit) s = (if c then .error e else .ok (), s) := by
  unfold failIf
  split
  · rfl
  · rfl

theorem exec_zoom {τ : Type} (read : τ → σ) (update : σ → τ → τ) (x : Comp σ ε α) (t : τ) :
    exec (zoom read update x) t = ((exec x (read t)).1, update (exec x (read t)).2 t) := rfl

theorem exec_onStop (cleanup : σ → σ) (x : Comp σ ε α) (s : σ) :
    exec (onStop cleanup x) s = match exec x s with
      | (.ok a, s') => (.ok a, s')
      | (.error e, s') => (.error e, cleanup s') := rfl

theorem exec_bind (x : Comp σ ε α) (f : α → Comp σ ε β) (s : σ) :
    exec (x >>= f) s = match exec x s with
      | (.ok a, s') => exec (f a) s'
      | (.error e, s') => (.error e, s') := by
  simp only [exec, bind, ExceptT.bind, ExceptT.mk, ExceptT.run, StateT.bind]
  rcases x s with ⟨_ | a, s'⟩
  · rfl
  · rfl

theorem Returns.value {x : Comp σ ε α} {s s' : σ} {a : α} (h : Returns x s a s') :
    (exec x s).1 = .ok a := congrArg Prod.fst h

theorem Returns.state {x : Comp σ ε α} {s s' : σ} {a : α} (h : Returns x s a s') :
    (exec x s).2 = s' := congrArg Prod.snd h

theorem returns_of_value {x : Comp σ ε α} {s : σ} {a : α} (h : (exec x s).1 = .ok a) :
    Returns x s a (exec x s).2 := Prod.ext h rfl

@[simp] theorem returns_pure {a b : α} {s s' : σ} :
    Returns (pure a : Comp σ ε α) s b s' ↔ a = b ∧ s = s' := by
  simp [Returns, exec_pure]

@[simp] theorem returns_throw {e : Stop ε} {a : α} {s s' : σ} :
    ¬ Returns (throw e : Comp σ ε α) s a s' := by
  simp [Returns, exec_throw]

@[simp] theorem returns_get {s a s' : σ} :
    Returns (get : Comp σ ε σ) s a s' ↔ s = a ∧ s = s' := by
  simp [Returns, exec_get]

@[simp] theorem returns_modify {f : σ → σ} {s s' : σ} {u : Unit} :
    Returns (modify f : Comp σ ε Unit) s u s' ↔ f s = s' := by
  simp [Returns, exec_modify]

@[simp] theorem returns_ofOutcome {x : Outcome ε α} {s s' : σ} {a : α} :
    Returns (ofOutcome x : Comp σ ε α) s a s' ↔ x = .ok a ∧ s = s' := by
  simp [Returns, exec_ofOutcome]

@[simp] theorem returns_failIf {c : Prop} [Decidable c] {e : Stop ε} {s s' : σ} {u : Unit} :
    Returns (failIf c e : Comp σ ε Unit) s u s' ↔ ¬ c ∧ s = s' := by
  unfold failIf
  split <;> simp_all

/-- A sequence succeeds exactly when both halves do, the second from the state the first left. -/
@[simp] theorem returns_bind {x : Comp σ ε α} {f : α → Comp σ ε β} {s s'' : σ} {b : β} :
    Returns (x >>= f) s b s'' ↔ ∃ a s', Returns x s a s' ∧ Returns (f a) s' b s'' := by
  unfold Returns
  rw [exec_bind]
  rcases exec x s with ⟨_ | a, s'⟩ <;> simp

theorem returns_get_bind {f : σ → Comp σ ε β} {s s' : σ} {b : β} :
    Returns (get >>= f) s b s' ↔ Returns (f s) s b s' := by
  unfold Returns
  rw [exec_bind, exec_get]

theorem returns_modify_bind {g : σ → σ} {f : Unit → Comp σ ε β} {s s' : σ} {b : β} :
    Returns (modify g >>= f) s b s' ↔ Returns (f ()) (g s) b s' := by
  unfold Returns
  rw [exec_bind, exec_modify]

theorem safe_pure (a : α) (s : σ) : Safe (pure a : Comp σ ε α) s := by
  intro f; simp [exec_pure]

theorem safe_throw_err (e : ε) (s : σ) : Safe (throw (.err e) : Comp σ ε α) s := by
  intro f; simp [exec_throw]

theorem safe_get (s : σ) : Safe (get : Comp σ ε σ) s := by
  intro f; simp [exec_get]

theorem safe_modify (g : σ → σ) (s : σ) : Safe (modify g : Comp σ ε Unit) s := by
  intro f; simp [exec_modify]

theorem safe_failIf (c : Prop) [Decidable c] (e : ε) (s : σ) :
    Safe (failIf c (.err e) : Comp σ ε Unit) s := by
  unfold failIf
  split
  · exact safe_throw_err e s
  · exact safe_pure () s

/-- A sequence is safe when its first half is, and its second half is from every state
the first half can return. -/
theorem Safe.bind {x : Comp σ ε α} {f : α → Comp σ ε β} {s : σ} (hx : Safe x s)
    (hf : ∀ a s', Returns x s a s' → Safe (f a) s') : Safe (x >>= f) s := by
  intro g
  have hx := hx g
  rw [exec_bind]
  rcases hr : exec x s with ⟨_ | a, s'⟩
  · simpa [hr] using hx
  · exact hf a s' hr g

theorem safe_ofOutcome {x : Outcome ε α} (h : NoFault x) (s : σ) :
    Safe (ofOutcome x : Comp σ ε α) s := h

theorem noFault_ok (a : α) : NoFault (.ok a : Outcome ε α) := by
  intro f; simp

theorem noFault_failIf (c : Prop) [Decidable c] (e : ε) :
    NoFault (failIf c (.err e) : Outcome ε Unit) := by
  intro f
  unfold failIf
  split <;> simp [throw, throwThe, MonadExceptOf.throw, pure, Except.pure]

theorem NoFault.bind {x : Outcome ε α} {f : α → Outcome ε β} (hx : NoFault x)
    (hf : ∀ a, x = .ok a → NoFault (f a)) : NoFault (x >>= f) := by
  cases x with
  | error e =>
    intro g hg
    have he : e = .fault g := Except.error.inj hg
    exact hx g (by rw [he])
  | ok a => exact hf a rfl

/-- Without a fault there is a value or an error that is reported. -/
theorem NoFault.cases {x : Outcome ε α} (h : NoFault x) :
    (∃ a, x = .ok a) ∨ ∃ e, x = .error (.err e) := by
  rcases x with (e | f) | a
  · exact .inr ⟨e, rfl⟩
  · exact absurd rfl (h f)
  · exact .inl ⟨a, rfl⟩

@[simp] theorem outcome_bind_ok {x : Outcome ε α} {f : α → Outcome ε β} {b : β} :
    (x >>= f) = .ok b ↔ ∃ a, x = .ok a ∧ f a = .ok b := by
  cases x with
  | error e => simp [bind, Except.bind]
  | ok a => simp [bind, Except.bind]

@[simp] theorem outcome_failIf_ok {c : Prop} [Decidable c] {e : Stop ε} {u : Unit} :
    (failIf c e : Outcome ε Unit) = .ok u ↔ ¬ c := by
  unfold failIf
  split <;> simp_all [throw, throwThe, MonadExceptOf.throw, pure, Except.pure]

@[simp] theorem okOr_eq_ok {x : Option α} {e : ε} {a : α} : okOr x e = .ok a ↔ x = some a := by
  cases x <;> simp [okOr]

theorem noFault_okOr (x : Option α) (e : ε) : NoFault (okOr x e) := by
  intro f
  cases x <;> simp [okOr]

theorem exec_mapErr {ε' : Type} (f : ε → ε') (x : Comp σ ε α) (s : σ) :
    exec (mapErr f x) s = match exec x s with
      | (.ok a, s') => (.ok a, s')
      | (.error (.err e), s') => (.error (.err (f e)), s')
      | (.error (.fault g), s') => (.error (.fault g), s') := rfl

theorem exec_recover (x : Comp σ ε α) (handler : ε → Comp σ ε α) (s : σ) :
    exec (recover x handler) s = match exec x s with
      | (.error (.err e), s') => exec (handler e) s'
      | r => r := rfl

theorem exec_orTry (x y : Comp σ ε α) (s : σ) :
    exec (orTry x y) s = match exec x s with
      | (.error (.err _), s') => exec y s'
      | r => r := rfl

theorem ofOutcome_ok_bind (a : α) (f : α → Comp σ ε β) :
    ofOutcome (.ok a) >>= f = f a := pure_bind a f

theorem ofOutcome_bind_congr {x : Outcome ε α} {f g : α → Comp σ ε β}
    (h : ∀ a, x = .ok a → f a = g a) : ofOutcome x >>= f = ofOutcome x >>= g := by
  cases x with
  | error e => rfl
  | ok a => rw [ofOutcome_ok_bind, ofOutcome_ok_bind, h a rfl]

theorem failIf_neg_bind {c : Prop} [Decidable c] (h : ¬ c) (e : Stop ε) (f : Unit → Comp σ ε β) :
    failIf c e >>= f = f () := by
  rw [failIf, if_neg h, pure_bind]

@[simp] theorem returns_mapErr {ε' : Type} {f : ε → ε'} {x : Comp σ ε α} {s s' : σ} {a : α} :
    Returns (mapErr f x) s a s' ↔ Returns x s a s' := by
  unfold Returns
  rw [exec_mapErr]
  rcases exec x s with ⟨(e | g) | b, t⟩ <;> simp

theorem safe_mapErr {ε' : Type} (f : ε → ε') {x : Comp σ ε α} {s : σ} (h : Safe x s) :
    Safe (mapErr f x) s := by
  intro g
  have hx := h g
  rw [exec_mapErr]
  rcases hr : exec x s with ⟨(e | g') | b, t⟩ <;> simp_all

/-- What `orTry` returns, one of the two halves returns, the second from where the first failed. -/
theorem orTry_cases {x y : Comp σ ε α} {s s' : σ} {a : α} (h : Returns (orTry x y) s a s') :
    Returns x s a s' ∨ ∃ e t, exec x s = (.error (.err e), t) ∧ Returns y t a s' := by
  unfold Returns at h ⊢
  rw [exec_orTry] at h
  rcases hr : exec x s with ⟨(e | g) | b, t⟩
  · rw [hr] at h
    exact .inr ⟨e, t, rfl, h⟩
  · simp [hr] at h
  · simpa [hr] using h

theorem safe_orTry {x y : Comp σ ε α} {s : σ} (hx : Safe x s) (hy : ∀ t, Safe y t) :
    Safe (orTry x y) s := by
  intro g
  have hx := hx g
  rw [exec_orTry]
  rcases hr : exec x s with ⟨(e | g') | b, t⟩
  · exact hy t g
  · simpa [hr] using hx
  · simp

theorem stopsOnly_pure (allowed : Stop ε → Prop) (a : α) (s : σ) :
    StopsOnly allowed (pure a : Comp σ ε α) s := by
  intro e; simp [exec_pure]

theorem StopsOnly.safe {allowed : Stop ε → Prop} {x : Comp σ ε α} {s : σ}
    (h : StopsOnly allowed x s) (hf : ∀ f, ¬ allowed (.fault f)) : Safe x s :=
  fun f he => hf f (h _ he)

theorem StopsOnly.bind {allowed : Stop ε → Prop} {x : Comp σ ε α} {f : α → Comp σ ε β} {s : σ}
    (hx : StopsOnly allowed x s) (hf : ∀ a s', Returns x s a s' → StopsOnly allowed (f a) s') :
    StopsOnly allowed (x >>= f) s := by
  intro e he
  rw [exec_bind] at he
  rcases hr : exec x s with ⟨e' | a, s'⟩
  · rw [hr] at he
    exact hx e (by simpa [hr] using he)
  · rw [hr] at he
    exact hf a s' hr e he

/-- Where every item returns what a function of it says, so does the list. -/
theorem returns_mapM {f : α → Comp σ ε β} {g : α → β} {l : List α} {s s' : σ} {bs : List β}
    (hf : ∀ a s b s', Returns (f a) s b s' → b = g a) (h : Returns (l.mapM f) s bs s') :
    bs = l.map g := by
  induction l generalizing s bs with
  | nil => simpa [eq_comm] using (returns_pure.mp h).1
  | cons a l ih =>
    rw [List.mapM_cons] at h
    simp only [returns_bind, returns_pure] at h
    obtain ⟨b, t, hb, bs', t', hbs, rfl, rfl⟩ := h
    rw [List.map_cons, hf a s b t hb, ih hbs]

theorem safe_mapM {f : α → Comp σ ε β} (l : List α) (hf : ∀ a s, Safe (f a) s) (s : σ) :
    Safe (l.mapM f) s := by
  induction l generalizing s with
  | nil => exact safe_pure [] s
  | cons a l ih =>
    rw [List.mapM_cons]
    exact (hf a s).bind fun b t _ => (ih t).bind fun bs u _ => safe_pure _ u

theorem total_pure (a : α) : Total (pure a : Comp σ ε α) :=
  fun s => ⟨a, s, returns_pure.mpr ⟨rfl, rfl⟩⟩

theorem total_ofOutcome {x : Outcome ε α} {a : α} (h : x = .ok a) :
    Total (ofOutcome x : Comp σ ε α) :=
  fun s => ⟨a, s, returns_ofOutcome.mpr ⟨h, rfl⟩⟩

theorem Total.bind {x : Comp σ ε α} {f : α → Comp σ ε β} (hx : Total x) (hf : ∀ a, Total (f a)) :
    Total (x >>= f) := by
  intro s
  obtain ⟨a, t, ha⟩ := hx s
  obtain ⟨b, u, hb⟩ := hf a t
  exact ⟨b, u, returns_bind.mpr ⟨a, t, ha, hb⟩⟩

theorem Total.mapErr {ε' : Type} {x : Comp σ ε α} (hx : Total x) (f : ε → ε') :
    Total (FallibleState.mapErr f x) := by
  intro s
  obtain ⟨a, t, ha⟩ := hx s
  exact ⟨a, t, returns_mapErr.mpr ha⟩

theorem Total.orTry {x : Comp σ ε α} (hx : Total x) (y : Comp σ ε α) :
    Total (FallibleState.orTry x y) := by
  intro s
  obtain ⟨a, t, ha⟩ := hx s
  exact ⟨a, t, by rw [Returns, exec_orTry, ha]⟩

theorem total_mapM {f : α → Comp σ ε β} (l : List α) (hf : ∀ a, Total (f a)) :
    Total (l.mapM f) := by
  induction l with
  | nil => exact total_pure []
  | cons a l ih =>
    rw [List.mapM_cons]
    exact (hf a).bind fun _ => ih.bind fun _ => total_pure _

theorem total_foldlM {f : β → α → Comp σ ε β} (l : List α) (hf : ∀ b a, Total (f b a)) (b : β) :
    Total (l.foldlM f b) := by
  induction l generalizing b with
  | nil => exact total_pure b
  | cons a l ih =>
    rw [List.foldlM_cons]
    exact (hf b a).bind ih

section Ascends
variable [Preorder σ]

theorem Ascends.le {x : Comp σ ε α} {s s' : σ} {r : Outcome ε α} (hx : Ascends x)
    (h : exec x s = (r, s')) : s ≤ s' := by
  have hs := hx s
  rwa [h] at hs

theorem ascends_pure (a : α) : Ascends (pure a : Comp σ ε α) := fun _ => le_rfl

theorem ascends_ofOutcome (x : Outcome ε α) : Ascends (ofOutcome x : Comp σ ε α) := fun _ => le_rfl

theorem Ascends.bind {x : Comp σ ε α} {f : α → Comp σ ε β} (hx : Ascends x)
    (hf : ∀ a, Ascends (f a)) : Ascends (x >>= f) := by
  intro s
  have hs := hx s
  rw [exec_bind]
  rcases hr : exec x s with ⟨_ | a, t⟩
  · simpa [hr] using hs
  · exact le_trans (by simpa [hr] using hs) (hf a t)

theorem Ascends.mapErr {ε' : Type} {x : Comp σ ε α} (hx : Ascends x) (f : ε → ε') :
    Ascends (FallibleState.mapErr f x) := by
  intro s
  have hs := hx s
  rw [exec_mapErr]
  rcases hr : exec x s with ⟨(e | g) | a, t⟩ <;> simpa [hr] using hs

theorem Ascends.orTry {x y : Comp σ ε α} (hx : Ascends x) (hy : Ascends y) :
    Ascends (FallibleState.orTry x y) := by
  intro s
  have hs := hx s
  rw [exec_orTry]
  rcases hr : exec x s with ⟨(e | g) | a, t⟩
  · exact le_trans (by simpa [hr] using hs) (hy t)
  · simpa [hr] using hs
  · simpa [hr] using hs

theorem ascends_mapM {f : α → Comp σ ε β} (l : List α) (hf : ∀ a, Ascends (f a)) :
    Ascends (l.mapM f) := by
  induction l with
  | nil => exact ascends_pure []
  | cons a l ih =>
    rw [List.mapM_cons]
    exact (hf a).bind fun _ => ih.bind fun _ => ascends_pure _

theorem ascends_foldlM {f : β → α → Comp σ ε β} (l : List α) (hf : ∀ b a, Ascends (f b a)) (b : β) :
    Ascends (l.foldlM f b) := by
  induction l generalizing b with
  | nil => exact ascends_pure b
  | cons a l ih =>
    rw [List.foldlM_cons]
    exact (hf b a).bind ih

end Ascends

section Adds
variable {measure : σ → ℕ} {m n : ℕ}

theorem Adds.of_eq {x : Comp σ ε α} (hx : Adds measure x m) (h : m = n) : Adds measure x n := h ▸ hx

theorem adds_pure (a : α) : Adds measure (pure a : Comp σ ε α) 0 := by
  intro s b s' h
  rw [(returns_pure.mp h).2, Nat.add_zero]

theorem adds_throw (e : Stop ε) (n : ℕ) : Adds measure (throw e : Comp σ ε α) n :=
  fun _ _ _ h => absurd h returns_throw

theorem adds_ofOutcome (x : Outcome ε α) : Adds measure (ofOutcome x : Comp σ ε α) 0 := by
  intro s b s' h
  rw [(returns_ofOutcome.mp h).2, Nat.add_zero]

theorem Adds.bind {x : Comp σ ε α} {f : α → Comp σ ε β} (hx : Adds measure x m)
    (hf : ∀ a, Adds measure (f a) n) : Adds measure (x >>= f) (m + n) := by
  intro s b s'' h
  obtain ⟨a, s', ha, hb⟩ := returns_bind.mp h
  rw [hf a s' b s'' hb, hx s a s' ha, Nat.add_assoc]

theorem Adds.mapErr {ε' : Type} {x : Comp σ ε α} (hx : Adds measure x n) (f : ε → ε') :
    Adds measure (FallibleState.mapErr f x) n :=
  fun s a s' h => hx s a s' (returns_mapErr.mp h)

theorem Adds.orTry {x y : Comp σ ε α} (hx : Adds measure x n) (hstop : StopsBefore measure x)
    (hy : Adds measure y n) : Adds measure (FallibleState.orTry x y) n := by
  intro s a s' h
  obtain hr | ⟨e, t, he, hr⟩ := orTry_cases h
  · exact hx s a s' hr
  · rw [hy t a s' hr, hstop s _ t he]

theorem adds_mapM {f : α → Comp σ ε β} (l : List α) (hf : ∀ a, Adds measure (f a) n) :
    Adds measure (l.mapM f) (l.length * n) := by
  induction l with
  | nil => exact (adds_pure []).of_eq (Nat.zero_mul n).symm
  | cons a l ih =>
    rw [List.mapM_cons]
    refine ((hf a).bind fun _ => ih.bind fun _ => adds_pure _).of_eq ?_
    rw [List.length_cons, Nat.succ_mul]
    omega

theorem adds_foldlM {f : β → α → Comp σ ε β} (l : List α) (hf : ∀ b a, Adds measure (f b a) n)
    (b : β) : Adds measure (l.foldlM f b) (l.length * n) := by
  induction l generalizing b with
  | nil => exact (adds_pure b).of_eq (Nat.zero_mul n).symm
  | cons a l ih =>
    rw [List.foldlM_cons]
    refine ((hf b a).bind ih).of_eq ?_
    rw [List.length_cons, Nat.succ_mul, Nat.add_comm]

theorem stopsBefore_ofOutcome (x : Outcome ε α) :
    StopsBefore measure (ofOutcome x : Comp σ ε α) := by
  intro s e s' h
  rw [exec_ofOutcome, Prod.mk.injEq] at h
  rw [h.2]

theorem StopsBefore.bind {x : Comp σ ε α} {f : α → Comp σ ε β} (hx : StopsBefore measure x)
    (hzero : Adds measure x 0) (hf : ∀ a, StopsBefore measure (f a)) :
    StopsBefore measure (x >>= f) := by
  intro s e s'' h
  rw [exec_bind] at h
  rcases hr : exec x s with ⟨e' | a, s'⟩
  · rw [hr] at h
    cases h
    exact hx s _ _ hr
  · rw [hr] at h
    rw [hf a s' e s'' h, hzero s a s' hr, Nat.add_zero]

theorem StopsBefore.bind_total {x : Comp σ ε α} {f : α → Comp σ ε β} (hx : StopsBefore measure x)
    (hf : ∀ a, Total (f a)) : StopsBefore measure (x >>= f) := by
  intro s e s'' h
  rw [exec_bind] at h
  rcases hr : exec x s with ⟨e' | a, s'⟩
  · rw [hr] at h
    cases h
    exact hx s _ _ hr
  · obtain ⟨b, t, hb⟩ := hf a s'
    rw [hr] at h
    exact absurd (h.symm.trans hb) (by simp)

theorem StopsBefore.mapErr {ε' : Type} {x : Comp σ ε α} (hx : StopsBefore measure x)
    (f : ε → ε') : StopsBefore measure (FallibleState.mapErr f x) := by
  intro s e s' h
  rw [exec_mapErr] at h
  rcases hr : exec x s with ⟨(e' | g) | a, t⟩ <;> rw [hr] at h <;> cases h <;>
    exact hx s _ _ hr

end Adds

/-- What holds at first and is kept by every round of a fold holds at its end. -/
theorem Returns.foldlM_inv {f : β → α → Comp σ ε β} (I : ℕ → β → σ → Prop) {l : List α} {b b' : β}
    {s s' : σ} (h : Returns (l.foldlM f b) s b' s')
    (hf : ∀ k b a s b' s', I k b s → Returns (f b a) s b' s' → I (k + 1) b' s') {n : ℕ}
    (hb : I n b s) : I (n + l.length) b' s' := by
  induction l generalizing b s n with
  | nil =>
    obtain ⟨rfl, rfl⟩ := returns_pure.mp h
    exact hb
  | cons a l ih =>
    rw [List.foldlM_cons] at h
    simp only [returns_bind] at h
    obtain ⟨c, t, hc, ht⟩ := h
    have hi := ih ht (hf n b a s c t hb hc)
    rwa [List.length_cons, show n + (l.length + 1) = n + 1 + l.length by omega]

theorem safe_foldlM {f : β → α → Comp σ ε β} (l : List α) (hf : ∀ b a s, Safe (f b a) s) (b : β)
    (s : σ) : Safe (l.foldlM f b) s := by
  induction l generalizing b s with
  | nil => exact safe_pure b s
  | cons a l ih =>
    rw [List.foldlM_cons]
    exact (hf b a s).bind fun c t _ => ih c t

end FallibleState
