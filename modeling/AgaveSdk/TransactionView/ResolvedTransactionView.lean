import Mathlib.Data.Set.Card
import Mathlib.Order.Interval.Finset.Nat
import AgaveSdk.TransactionView.SanitizedCounts

/-! Transactions whose address lookups have been resolved, and the cache of which of their accounts
are writable. -/
namespace AgaveSdk.TxView
open FallibleState Segments ByteOrder Draining

structure LoadedAddresses where
  writable : List Pubkey
  readonly : List Pubkey
  deriving DecidableEq, Repr

structure AccountKeys where
  staticKeys : List Pubkey
  dynamicKeys : Option LoadedAddresses
  deriving DecidableEq, Repr

/-- The keys in index order: static, then loaded writable, then loaded readonly. -/
def AccountKeys.iter (keys : AccountKeys) : List Pubkey :=
  keys.staticKeys ++ match keys.dynamicKeys with
    | none => []
    | some loaded => loaded.writable ++ loaded.readonly

abbrev WritableCache := Vector Bool 256

namespace WritableCache

def read (cache : WritableCache) (index : ℕ) : Outcome TransactionViewError Bool :=
  match cache[index]? with
  | some value => .ok value
  | none => .error (.fault .panic)

def write (cache : WritableCache) (index : ℕ) (value : Bool) :
    Outcome TransactionViewError WritableCache :=
  if h : index < 256 then .ok (cache.set index value h) else .error (.fault .panic)

end WritableCache

/-- The keys for which a message requests a write lock, by the index of the key. -/
def isRequestedWrite (view : MessageViewRef true) (index : ℕ) : Bool :=
  let numStaticAccountKeys := view.numStaticAccountKeys.toNat
  let numSignedAccounts := view.numRequiredSignatures.toNat
  if index ≥ numStaticAccountKeys then
    wrappingSub index numStaticAccountKeys < view.totalWritableLookupAccounts.toNat
  else if index ≥ numSignedAccounts then
    wrappingSub index numSignedAccounts < view.numWritableUnsignedStaticAccounts.toNat
  else index < view.numWritableSignedStaticAccounts.toNat

/-- The loop over the account keys: a reserved key is never writable. -/
def fillCache (view : MessageViewRef true) (reservedAccountKeys : Finset Pubkey) :
    ℕ → List Pubkey → WritableCache → Outcome TransactionViewError WritableCache
  | _, [], cache => .ok cache
  | index, key :: keys, cache => do
      fillCache view reservedAccountKeys (index + 1) keys
        (← cache.write index (isRequestedWrite view index && decide (key ∉ reservedAccountKeys)))

/-- The body of the loop over the instructions. A program is only writable where the upgradeable
loader is present, which is looked up at most once. -/
def clearProgram (upgradeableLoader : Pubkey) (accountKeys : AccountKeys)
    (state : WritableCache × Option Bool) (ix : SVMInstruction) :
    Outcome TransactionViewError (WritableCache × Option Bool) := do
  let programIdIndex := ix.programIdIndex.toNat
  if ← state.1.read programIdIndex then
    let present := state.2.getD (accountKeys.iter.contains upgradeableLoader)
    if present then return (state.1, some present)
    else return (← state.1.write programIdIndex false, some present)
  else return state

def cacheIsWritable (host : Endian) (upgradeableLoader : Pubkey) (view : TransactionView true)
    (resolvedAddresses : Option LoadedAddresses) (reservedAccountKeys : Finset Pubkey) :
    Outcome TransactionViewError WritableCache := do
  let message ← view.message
  let accountKeys : AccountKeys := ⟨← message.staticAccountKeys, resolvedAddresses⟩
  let cache ← fillCache message reservedAccountKeys 0 accountKeys.iter (Vector.replicate 256 false)
  let result ←
    foldEach (InstructionsIterator.next host) (clearProgram upgradeableLoader accountKeys)
    (message.instructionsIter.len + 1) message.instructionsIter (cache, none)
  return result.1

section Cache

variable {upgradeableLoader : Pubkey} {accountKeys : AccountKeys}

theorem WritableCache.read_ok (cache : WritableCache) {i : ℕ} (h : i < 256) :
    ∃ value, cache.read i = .ok value ∧ (value = true ↔ cache[i]? = some true) := by
  rw [read, Vector.getElem?_eq_getElem h]
  exact ⟨cache[i], rfl, by simp⟩

theorem WritableCache.write_ok (cache : WritableCache) {i : ℕ} (h : i < 256) (value : Bool) :
    ∃ cache', cache.write i value = .ok cache' ∧ ∀ j, cache'[j]? = some true ↔
      (j = i ∧ value = true) ∨ (j ≠ i ∧ cache[j]? = some true) := by
  refine ⟨cache.set i value h, dif_pos h, ?_⟩
  intro j
  rcases eq_or_ne j i with rfl | hj
  · simp [h]
  · rw [Vector.getElem?_set_ne h hj.symm]
    simp [hj]

/-- The loop decides every index it passes and keeps the others. -/
theorem fillCache_ok (view : MessageViewRef true) (reserved : Finset Pubkey) (index : ℕ)
    (keys : List Pubkey) (cache : WritableCache) (h : index + keys.length ≤ 256) :
    ∃ cache', fillCache view reserved index keys cache = .ok cache' ∧
      ∀ j, cache'[j]? = some true ↔
        (index ≤ j ∧ isRequestedWrite view j = true ∧
          ∃ key, keys[j - index]? = some key ∧ key ∉ reserved) ∨
        ((j < index ∨ index + keys.length ≤ j) ∧ cache[j]? = some true) := by
  induction keys generalizing index cache with
  | nil =>
    refine ⟨cache, rfl, ?_⟩
    intro j
    have : j < index ∨ index ≤ j := Nat.lt_or_ge j index
    simp [this]
  | cons key keys ih =>
    rw [List.length_cons] at h
    obtain ⟨cache₁, hwrite, hcache₁⟩ := cache.write_ok (i := index) (by omega)
      (isRequestedWrite view index && decide (key ∉ reserved))
    obtain ⟨cache₂, hfill, hcache₂⟩ := ih (index + 1) cache₁ (by omega)
    refine ⟨cache₂, ?_, ?_⟩
    · rw [fillCache, hwrite]
      exact hfill
    · intro j
      rw [hcache₂, hcache₁, List.length_cons]
      rcases Nat.lt_trichotomy j index with hj | rfl | hj
      · have : ¬ index ≤ j := by omega
        have : ¬ index + 1 ≤ j := by omega
        have : j ≠ index := by omega
        have : j < index + 1 := by omega
        simp [*]
      · simp
      · obtain ⟨k, rfl⟩ : ∃ k, j = index + 1 + k := ⟨j - index - 1, by omega⟩
        have hk : index + 1 + k - index = k + 1 := by omega
        have : ¬ index + 1 + k < index + 1 := by omega
        have : ¬ index + 1 + k < index := by omega
        have : index + 1 + k ≠ index := by omega
        have : index ≤ index + 1 + k := by omega
        have : index + 1 + keys.length ≤ index + 1 + k ↔
          index + (keys.length + 1) ≤ index + 1 + k := by omega
        simp [*]

/-- The remembered answer about the loader is the right one. -/
def LoaderKnown (upgradeableLoader : Pubkey) (accountKeys : AccountKeys)
    (present : Option Bool) : Prop :=
  present = none ∨ present = some (accountKeys.iter.contains upgradeableLoader)

theorem clearProgram_ok (state : WritableCache × Option Bool) (ix : SVMInstruction)
    (h : LoaderKnown upgradeableLoader accountKeys state.2) :
    ∃ state', clearProgram upgradeableLoader accountKeys state ix = .ok state' ∧
      LoaderKnown upgradeableLoader accountKeys state'.2 ∧
      ∀ j, state'.1[j]? = some true ↔ state.1[j]? = some true ∧
        ¬ (ix.programIdIndex.toNat = j ∧ upgradeableLoader ∉ accountKeys.iter) := by
  have hlt : ix.programIdIndex.toNat < 256 := ix.programIdIndex.toNat_lt
  have hpresent : state.2.getD (accountKeys.iter.contains upgradeableLoader) =
      accountKeys.iter.contains upgradeableLoader := by
    rcases h with h | h
    · rw [h, Option.getD_none]
    · rw [h, Option.getD_some]
  obtain ⟨value, hread, hvalue⟩ := state.1.read_ok hlt
  cases value with
  | false =>
    refine ⟨state, ?_, h, ?_⟩
    · simp [clearProgram, hread, bind, Except.bind, pure, Except.pure]
    · intro j
      refine ⟨fun hj => ⟨hj, ?_⟩, fun hj => hj.1⟩
      rintro ⟨rfl, -⟩
      exact absurd (hvalue.mpr hj) (by simp)
  | true =>
    by_cases hloader : upgradeableLoader ∈ accountKeys.iter
    · have hcontains : accountKeys.iter.contains upgradeableLoader = true := by simp [hloader]
      rw [hcontains] at hpresent
      refine ⟨(state.1, some true), ?_, .inr (by rw [hcontains]), ?_⟩
      · simp [clearProgram, hread, hpresent, hloader, bind, Except.bind, pure, Except.pure]
      · simp [hloader]
    · have hcontains : accountKeys.iter.contains upgradeableLoader = false := by simp [hloader]
      rw [hcontains] at hpresent
      obtain ⟨cache, hwrite, hcache⟩ := state.1.write_ok hlt false
      refine ⟨(cache, some false), ?_, .inr (by rw [hcontains]), ?_⟩
      · simp [clearProgram, hread, hpresent, hloader, hwrite, bind, Except.bind, pure, Except.pure]
      · intro j
        rw [hcache]
        simp [hloader, and_comm, eq_comm]

/-- After all instructions no program is left writable unless the loader is present. -/
theorem clearPrograms_ok (ixs : List SVMInstruction) (state : WritableCache × Option Bool)
    (h : LoaderKnown upgradeableLoader accountKeys state.2) :
    ∃ state', ixs.foldlM (clearProgram upgradeableLoader accountKeys) state = .ok state' ∧
      ∀ j, state'.1[j]? = some true ↔ state.1[j]? = some true ∧
        ¬ ((∃ ix ∈ ixs, ix.programIdIndex.toNat = j) ∧ upgradeableLoader ∉ accountKeys.iter) := by
  induction ixs generalizing state with
  | nil => exact ⟨state, rfl, by simp⟩
  | cons ix ixs ih =>
    obtain ⟨state₁, hstep, hknown, hstate₁⟩ := clearProgram_ok state ix h
    obtain ⟨state₂, hrest, hstate₂⟩ := ih state₁ hknown
    refine ⟨state₂, ?_, ?_⟩
    · rw [List.foldlM_cons, hstep]
      exact hrest
    · intro j
      rw [hstate₂, hstate₁]
      by_cases hloader : upgradeableLoader ∈ accountKeys.iter
      · simp [hloader]
      · simp [hloader, and_assoc]

end Cache

/-- A sanitized view with its resolved lookups, from any source of loaded addresses. -/
structure ResolvedTransactionView (A : Type) where
  view : TransactionView true
  resolvedAddresses : Option A
  writableCache : WritableCache

namespace ResolvedTransactionView

variable {A : Type}

/-- The resolved addresses have the numbers that the lookups announce. -/
def addressesMatch (view : TransactionView true) :
    Option LoadedAddresses → Bool
  | some loaded =>
      loaded.writable.length ==
        view.frame.message.addressTableLookup.totalWritableLookupAccounts.toNat
        && loaded.readonly.length ==
          view.frame.message.addressTableLookup.totalReadonlyLookupAccounts.toNat
  | none => view.frame.message.addressTableLookup.totalWritableLookupAccounts == 0 &&
      view.frame.message.addressTableLookup.totalReadonlyLookupAccounts == 0

/-- A v0 transaction must have resolved addresses, even if they are empty. -/
def tryNewWithSource (host : Endian) (upgradeableLoader : Pubkey)
    (loadedAddressesView : A → LoadedAddresses) (view : TransactionView true)
    (resolvedAddresses : Option A) (reservedAccountKeys : Finset Pubkey) :
    Outcome TransactionViewError (ResolvedTransactionView A) := do
  let resolvedAddressesView := resolvedAddresses.map loadedAddressesView
  failIf (view.version = .v0 ∧ resolvedAddressesView = none)
    (Stop.err TransactionViewError.addressLookupMismatch)
  failIf (addressesMatch view resolvedAddressesView = false)
    (Stop.err TransactionViewError.addressLookupMismatch)
  return ⟨view, resolvedAddresses, ← cacheIsWritable host upgradeableLoader view
    resolvedAddressesView reservedAccountKeys⟩

def isWritable (resolved : ResolvedTransactionView A) (index : ℕ) : Bool :=
  resolved.writableCache[index]?.getD false

def numWriteLocks (resolved : ResolvedTransactionView A) : Outcome TransactionViewError UInt64 := do
  return (← resolved.view.message).numRequestedWriteLocks

end ResolvedTransactionView

def ResolvedTransactionView.tryNew (host : Endian) (upgradeableLoader : Pubkey)
    (view : TransactionView true) (resolvedAddresses : Option LoadedAddresses)
    (reservedAccountKeys : Finset Pubkey) :
    Outcome TransactionViewError (ResolvedTransactionView LoadedAddresses) :=
  tryNewWithSource host upgradeableLoader id view resolvedAddresses reservedAccountKeys

/-- Requested writable: a writable signer, a writable unsigned static key or a loaded writable
key. -/
def MessageViewRef.RequestedWritable (view : MessageViewRef true) (i : ℕ) : Prop :=
  i + view.numReadonlySignedStaticAccounts.toNat < view.numRequiredSignatures.toNat ∨
  (view.numRequiredSignatures.toNat ≤ i ∧
    i + view.numReadonlyUnsignedStaticAccounts.toNat < view.numStaticAccountKeys.toNat) ∨
  (view.numStaticAccountKeys.toNat ≤ i ∧
    i < view.numStaticAccountKeys.toNat + view.totalWritableLookupAccounts.toNat)

/-- A view that one of the sanitizing constructors returned. -/
def TransactionView.IsSanitized (host : Endian) (view : TransactionView true) : Prop :=
  tryNewSanitized host view.innerData = .ok view ∨
    ∃ n, tryNewSanitizedFromPrefix host view.innerData = .ok (view, n)

/-- What resolving a view yields: a value exactly where the addresses fit the lookups, never a
fault, and a cache that answers as specified. -/
structure Resolution {A : Type} (host : Endian) (upgradeableLoader : Pubkey)
    (view : TransactionView true) (addresses : Option LoadedAddresses) (reserved : Finset Pubkey)
    (message : MessageViewRef true) (accountKeys : AccountKeys) (instructions : List SVMInstruction)
    (result : Outcome TransactionViewError (ResolvedTransactionView A)) : Prop where
  message_ok : view.message = .ok message
  staticKeys_ok : message.staticAccountKeys = .ok accountKeys.staticKeys
  dynamicKeys_eq : accountKeys.dynamicKeys = addresses
  instructions_ok : message.instructionsIter.collect host = .ok instructions
  noFault : NoFault result
  ok_iff : (∃ resolved, result = .ok resolved) ↔
    (view.version ≠ .v0 ∨ addresses.isSome) ∧
    (addresses.elim 0 fun a => a.writable.length) = message.totalWritableLookupAccounts.toNat ∧
    (addresses.elim 0 fun a => a.readonly.length) = message.totalReadonlyLookupAccounts.toNat
  sameView : ∀ resolved, result = .ok resolved → resolved.view = view
  isWritable : ∀ resolved, result = .ok resolved → ∀ i, resolved.isWritable i = true ↔
    i < accountKeys.iter.length ∧ message.RequestedWritable i ∧
    (∃ key, accountKeys.iter[i]? = some key ∧ key ∉ reserved) ∧
    ¬ ((∃ ix ∈ instructions, ix.programIdIndex.toNat = i) ∧
      upgradeableLoader ∉ accountKeys.iter)

section Resolving

variable {A : Type} {host : Endian} {d : Slice} {m : Message} {o : ℕ}
  {view : MessageViewRef true}

theorem TransactionView.IsSanitized.startsWith {view : TransactionView true}
    (h : view.IsSanitized host) :
    ∃ b tx, view = ⟨b, tx.frame host⟩ ∧ StartsWith host b tx ∧ tx.Valid host := by
  rcases h with h | ⟨n, h⟩
  · obtain ⟨tx, hstart, -, -, hvalid, hview⟩ := tryNewSanitized_ok.mp h
    exact ⟨_, tx, hview, hstart, hvalid⟩
  · obtain ⟨tx, hstart, -, hvalid, hview⟩ := tryNewSanitizedFromPrefix_ok.mp h
    exact ⟨_, tx, congrArg Prod.fst hview, hstart, hvalid⟩

theorem wrappingSub_of_le {i j : ℕ} (hji : j ≤ i) (hi : i < usizeRange) :
    wrappingSub i j = i - j := by
  unfold wrappingSub
  have hsum : i + usizeRange - j = i - j + usizeRange := by omega
  rw [hsum, Nat.add_mod_right]
  exact Nat.mod_eq_of_lt (by omega)

/-- The three ranges of the loop are those of the specification. -/
theorem isRequestedWrite_iff (hcounts : view.HeaderCounts m) (hb : m.BodyValid) {i : ℕ}
    (hi : i < usizeRange) : isRequestedWrite view i = true ↔ view.RequestedWritable i := by
  have hrs := hb.readonlySigned_lt
  have hun := hb.unsigned_le
  have hunsigned := hcounts.writableUnsigned hb
  have hsigned := hcounts.writableSigned hb
  have hr := hcounts.required
  have hk := hcounts.keys
  have hs := hcounts.readonlySigned
  have hu := hcounts.readonlyUnsigned
  simp only [isRequestedWrite, MessageViewRef.RequestedWritable]
  split
  · next h =>
    rw [wrappingSub_of_le h hi, decide_eq_true_eq]
    omega
  · split
    · next h =>
      rw [wrappingSub_of_le h hi, decide_eq_true_eq]
      omega
    · rw [decide_eq_true_eq]
      omega

/-- The addresses have the numbers that the lookups announce. -/
def LookupsMatch (m : Message) (addresses : Option LoadedAddresses) : Prop :=
  (addresses.elim 0 fun a => a.writable.length) = totalWritable m.lookups ∧
    (addresses.elim 0 fun a => a.readonly.length) = totalReadonly m.lookups

theorem LookupsMatch.length_iter {addresses : Option LoadedAddresses}
    (h : LookupsMatch m addresses) :
    (AccountKeys.mk m.staticAccountKeys addresses).iter.length = m.numAccounts := by
  obtain ⟨hw, hr⟩ := h
  rw [Message.numAccounts, ← hw, ← hr, AccountKeys.iter, List.length_append]
  cases addresses with
  | none => simp
  | some a =>
    simp only [List.length_append, Option.elim_some]
    omega

theorem addressesMatch_iff {view : TransactionView true}
    (hview : (⟨d, view.frame.message⟩ : MessageViewRef true).HeaderCounts m)
    (addresses : Option LoadedAddresses) :
    ResolvedTransactionView.addressesMatch view addresses = true ↔ LookupsMatch m addresses := by
  have hw : view.frame.message.addressTableLookup.totalWritableLookupAccounts.toNat =
    totalWritable m.lookups := hview.writable
  have hr : view.frame.message.addressTableLookup.totalReadonlyLookupAccounts.toNat =
    totalReadonly m.lookups := hview.readonly
  cases addresses with
  | none =>
    simp only [ResolvedTransactionView.addressesMatch, LookupsMatch, Option.elim_none,
      Bool.and_eq_true, beq_iff_eq, ← hw, ← hr, ← UInt16.toNat_inj, UInt16.toNat_zero]
    simp only [eq_comm]
  | some a =>
    simp only [ResolvedTransactionView.addressesMatch, LookupsMatch, Option.elim_some,
      Bool.and_eq_true, beq_iff_eq, hw, hr]

/-- The cache of a valid message: filled by index, then cleared at the programs. -/
theorem cacheIsWritable_ok (upgradeableLoader : Pubkey) (reserved : Finset Pubkey)
    {view : TransactionView true} {addresses : Option LoadedAddresses}
    (hmessage : view.message = .ok ⟨d, m.frame o⟩) (hstands : Stands host d m o)
    (hb : m.BodyValid) (hmatch : LookupsMatch m addresses) :
    ∃ cache, cacheIsWritable host upgradeableLoader view addresses reserved = .ok cache ∧
      ∀ i, cache[i]? = some true ↔
        i < (AccountKeys.mk m.staticAccountKeys addresses).iter.length ∧
        (⟨d, m.frame o⟩ : MessageViewRef true).RequestedWritable i ∧
        (∃ key, (AccountKeys.mk m.staticAccountKeys addresses).iter[i]? = some key ∧
          key ∉ reserved) ∧
        ¬ ((∃ ix ∈ m.instructions, ix.programIdIndex.toNat = i) ∧
          upgradeableLoader ∉ (AccountKeys.mk m.staticAccountKeys addresses).iter) := by
  have hreads := hstands.reads true
  have hlen : (AccountKeys.mk m.staticAccountKeys addresses).iter.length ≤ 256 := by
    rw [hmatch.length_iter]
    exact hstands.parseable.numAccounts_le hb.accounts_le
  obtain ⟨filled, hfill, hfilled⟩ := fillCache_ok ⟨d, m.frame o⟩ reserved 0
    (AccountKeys.mk m.staticAccountKeys addresses).iter (Vector.replicate 256 false) (by omega)
  obtain ⟨cleared, hclear, hcleared⟩ := clearPrograms_ok m.instructions (filled, none)
    (.inl rfl : LoaderKnown upgradeableLoader ⟨m.staticAccountKeys, addresses⟩ none)
  refine ⟨cleared.1, ?_, ?_⟩
  · have hfold := hreads.instructions.foldEach_eq
      (n := (⟨d, m.frame o⟩ : MessageViewRef true).instructionsIter.len + 1)
      (by rw [MessageViewRef.instructionsIter_len hreads hstands.parseable]; omega)
      (clearProgram upgradeableLoader ⟨m.staticAccountKeys, addresses⟩) (filled, none)
    simp only [cacheIsWritable, hmessage, hreads.staticAccountKeys, hfill, hfold, hclear, bind,
      Except.bind, pure, Except.pure]
  · intro i
    rw [hcleared, hfilled]
    have hfalse : (Vector.replicate 256 false)[i]? ≠ some true := by
      rw [Vector.getElem?_replicate]
      split <;> simp
    constructor
    · rintro ⟨⟨-, hreq, key, hkey, hres⟩ | ⟨-, h⟩, hprogram⟩
      · rw [Nat.sub_zero] at hkey
        have hi := (List.getElem?_eq_some_iff.mp hkey).1
        have hrange : i < usizeRange := by unfold usizeRange; omega
        exact ⟨hi, (isRequestedWrite_iff hstands.headerCounts hb hrange).mp hreq, ⟨key, hkey, hres⟩,
          hprogram⟩
      · exact absurd h hfalse
    · rintro ⟨hi, hreq, ⟨key, hkey, hres⟩, hprogram⟩
      have hrange : i < usizeRange := by unfold usizeRange; omega
      exact ⟨.inl ⟨Nat.zero_le i, (isRequestedWrite_iff hstands.headerCounts hb hrange).mpr hreq,
        key, hkey, hres⟩, hprogram⟩

theorem tryNewWithSource_resolution (upgradeableLoader : Pubkey) (reserved : Finset Pubkey)
    {view : TransactionView true}
    (hmessage : view.message = .ok ⟨d, m.frame o⟩) (hframe : view.frame.message = m.frame o)
    (hstands : Stands host d m o) (hb : m.BodyValid) (loadedAddressesView : A → LoadedAddresses)
    (resolvedAddresses : Option A) :
    Resolution host upgradeableLoader view (resolvedAddresses.map loadedAddressesView) reserved
      ⟨d, m.frame o⟩ ⟨m.staticAccountKeys, resolvedAddresses.map loadedAddressesView⟩
      m.instructions (ResolvedTransactionView.tryNewWithSource host upgradeableLoader
        loadedAddressesView view resolvedAddresses reserved) := by
  have hreads := hstands.reads true
  have hcounts := hstands.headerCounts
  generalize haddresses : resolvedAddresses.map loadedAddressesView = addresses
  have hmatch : ResolvedTransactionView.addressesMatch view addresses = true ↔
      LookupsMatch m addresses := addressesMatch_iff (d := d) (by rwa [hframe]) addresses
  -- The two checks decide the result, as the cache of matching addresses is always built.
  have hok (resolved : ResolvedTransactionView A) :
      ResolvedTransactionView.tryNewWithSource host upgradeableLoader loadedAddressesView view
        resolvedAddresses reserved = .ok resolved ↔
      ¬ (view.version = .v0 ∧ addresses = none) ∧ LookupsMatch m addresses ∧
        ∃ cache, cacheIsWritable host upgradeableLoader view addresses reserved = .ok cache ∧
          ⟨view, resolvedAddresses, cache⟩ = resolved := by
    simp only [ResolvedTransactionView.tryNewWithSource, haddresses, outcome_bind_ok,
      outcome_failIf_ok, Bool.not_eq_false, hmatch, exists_const, pure, Except.pure,
      Except.ok.injEq]
  constructor
  case message_ok => exact hmessage
  case staticKeys_ok => exact hreads.staticAccountKeys
  case dynamicKeys_eq => rfl
  case instructions_ok => exact MessageViewRef.collect_instructions hreads hstands.parseable
  case noFault =>
    rw [ResolvedTransactionView.tryNewWithSource, haddresses]
    refine (noFault_failIf _ _).bind fun _ _ => (noFault_failIf _ _).bind fun _ hfit => ?_
    rw [outcome_failIf_ok, Bool.not_eq_false, hmatch] at hfit
    obtain ⟨cache, hcache, -⟩ := cacheIsWritable_ok upgradeableLoader reserved
      hmessage hstands hb hfit
    rw [hcache]
    exact noFault_ok _
  case ok_iff =>
    rw [hcounts.writable, hcounts.readonly]
    have hsome : (view.version ≠ .v0 ∨ addresses.isSome = true) ↔
        ¬ (view.version = .v0 ∧ addresses = none) := by
      cases addresses <;> simp
    rw [hsome]
    constructor
    · rintro ⟨resolved, h⟩
      obtain ⟨hv, hfit, -⟩ := (hok resolved).mp h
      exact ⟨hv, hfit⟩
    · rintro ⟨hv, hfit⟩
      obtain ⟨cache, hcache, -⟩ := cacheIsWritable_ok upgradeableLoader reserved
        hmessage hstands hb hfit
      exact ⟨_, (hok _).mpr ⟨hv, hfit, cache, hcache, rfl⟩⟩
  case sameView =>
    intro resolved h
    obtain ⟨-, -, cache, -, rfl⟩ := (hok resolved).mp h
    rfl
  case isWritable =>
    intro resolved h i
    obtain ⟨-, hfit, cache, hcache, rfl⟩ := (hok resolved).mp h
    obtain ⟨cache', hcache', hspec⟩ := cacheIsWritable_ok upgradeableLoader reserved
      hmessage hstands hb hfit
    obtain rfl : cache = cache' := Except.ok.inj (hcache.symm.trans hcache')
    rw [← hspec, ResolvedTransactionView.isWritable]
    cases h : cache[i]? <;> simp

end Resolving

/-- Resolving a sanitized view: it succeeds exactly where the addresses fit the lookups, and the
cache then answers by the specification, for every source of addresses. -/
theorem resolved_isWritable_spec (host : Endian) (upgradeableLoader : Pubkey)
    (view : TransactionView true) (hview : view.IsSanitized host) :
    ∃ message staticKeys instructions,
      (∀ (addresses : Option LoadedAddresses) (reserved : Finset Pubkey),
        Resolution host upgradeableLoader view addresses reserved message ⟨staticKeys, addresses⟩
          instructions (ResolvedTransactionView.tryNew host upgradeableLoader view addresses
            reserved)) ∧
      ∀ (A : Type) (loadedAddressesView : A → LoadedAddresses) (resolvedAddresses : Option A)
        (reserved : Finset Pubkey),
        Resolution host upgradeableLoader view (resolvedAddresses.map loadedAddressesView) reserved
          message ⟨staticKeys, resolvedAddresses.map loadedAddressesView⟩ instructions
          (ResolvedTransactionView.tryNewWithSource host upgradeableLoader loadedAddressesView view
            resolvedAddresses reserved) := by
  obtain ⟨b, tx, rfl, hstart, hvalid⟩ := hview.startsWith
  obtain ⟨d, hs⟩ := hstart.shows true
  have hframe : (tx.frame host).message = tx.message.frame tx.leading.length := rfl
  refine ⟨⟨d, tx.message.frame tx.leading.length⟩, tx.message.staticAccountKeys,
    tx.message.instructions, ?_, ?_⟩
  · intro addresses reserved
    have h := tryNewWithSource_resolution upgradeableLoader reserved hs.message hframe hs.stands
      hvalid.body id addresses
    rwa [Option.map_id_fun] at h
  · intro A loadedAddressesView resolvedAddresses reserved
    exact tryNewWithSource_resolution _ _ hs.message hframe hs.stands hvalid.body _ _

/-- A v0 transaction whose lookup loads two writable keys and a readonly one. -/
def lookupTransaction : Transaction where
  signatures := [Vector.replicate 64 1]
  message := {
    version := .v0
    header := ⟨1, 0, 1⟩
    staticAccountKeys := [Vector.replicate 32 2, Vector.replicate 32 3]
    recentBlockhash := Vector.replicate 32 4
    instructions := [⟨1, [0, 2, 4], [5]⟩]
    lookups := [⟨Vector.replicate 32 6, [0, 1], [7]⟩]
    config := .empty
    lookups_eq_nil := fun h => absurd rfl h
    config_eq_empty := fun _ => rfl
    fits_v1 := fun h => absurd h (by decide) }
  signatures_v1 := fun h => absurd h (by decide)

def lookupTransactionBytes : Slice := ⟨lookupTransaction.encode .little, by decide +kernel⟩

theorem lookup_startsWith : StartsWith .little lookupTransactionBytes lookupTransaction where
  parseable := {
    message := {
      version := .inr rfl
      keys_pos := by decide
      keys_le := by decide
      instructions_lt := by decide
      instructions_compact := by decide
      lookups_le := by decide
      lookups_compact := by decide }
    signatures := fun _ => by decide }
  encoded := List.prefix_refl _
  length_lt := by decide +kernel

theorem lookup_valid : lookupTransaction.Valid .little where
  size _ := by decide +kernel
  signatures := by decide
  body := {
    signatures_pos := by decide
    readonlySigned_lt := by decide
    unsigned_le := by decide
    accounts_le := by decide
    programs := by decide
    accounts := List.forall_mem_singleton.mpr (List.forall_mem_cons.mpr ⟨by decide,
      List.forall_mem_cons.mpr ⟨by decide, List.forall_mem_singleton.mpr (by decide)⟩⟩)
    lookups := List.forall_mem_singleton.mpr (.inl (List.cons_ne_nil _ _)) }

theorem lookup_isSanitized :
    (⟨lookupTransactionBytes, lookupTransaction.frame .little⟩ :
      TransactionView true).IsSanitized .little :=
  .inl (TransactionView.tryNewSanitized_ok.mpr
    ⟨_, lookup_startsWith, lookup_valid.lookupsFit le_rfl, rfl, lookup_valid, rfl⟩)

def loadedAddresses : LoadedAddresses where
  writable := [Vector.replicate 32 8, Vector.replicate 32 9]
  readonly := [Vector.replicate 32 10]

/-- The second of the loaded writable keys. -/
def reservedKeys : Finset Pubkey := {Vector.replicate 32 9}

/-- Writable are the fee payer and the loaded writable key that is not reserved. The program and
the loaded readonly key are not. -/
theorem sample_resolved : ∃ view resolved,
    view.IsSanitized .little ∧
      ResolvedTransactionView.tryNew .little (Vector.replicate 32 7) view (some loadedAddresses)
        reservedKeys = .ok resolved ∧
      resolved.isWritable 0 = true ∧ resolved.isWritable 1 = false ∧
      resolved.isWritable 2 = true ∧ resolved.isWritable 3 = false ∧
      resolved.isWritable 4 = false := by
  obtain ⟨d, hs⟩ := lookup_startsWith.shows true
  obtain ⟨message, staticKeys, instructions, hspec, -⟩ :=
    resolved_isWritable_spec .little (Vector.replicate 32 7) _ lookup_isSanitized
  have hloaded := hspec (some loadedAddresses) reservedKeys
  obtain rfl : message = _ := Except.ok.inj (hloaded.message_ok.symm.trans hs.message)
  have hreads := hs.stands.reads true
  obtain rfl : staticKeys = _ :=
    Except.ok.inj (hloaded.staticKeys_ok.symm.trans hreads.staticAccountKeys)
  obtain rfl : instructions = _ := Except.ok.inj (hloaded.instructions_ok.symm.trans
    (MessageViewRef.collect_instructions hreads hs.stands.parseable))
  obtain ⟨resolved, hresolved⟩ := hloaded.ok_iff.mpr ⟨.inr rfl, rfl, rfl⟩
  have hwritable := hloaded.isWritable resolved hresolved
  -- one writable signer, no other writable static key, two loaded writable keys
  have hrequested (i : ℕ) : MessageViewRef.RequestedWritable
      ⟨d, lookupTransaction.message.frame lookupTransaction.leading.length⟩ i ↔
        i < 1 ∨ 1 ≤ i ∧ i + 1 < 2 ∨ 2 ≤ i ∧ i < 2 + 2 := Iff.rfl
  simp only [hrequested] at hwritable
  have hnot {i : ℕ} (h : resolved.isWritable i = true → False) : resolved.isWritable i = false :=
    Bool.eq_false_iff.mpr h
  refine ⟨_, resolved, lookup_isSanitized, hresolved, (hwritable 0).mpr ?_, hnot fun h => ?_,
    (hwritable 2).mpr ?_, hnot fun h => ?_, hnot fun h => ?_⟩
  · exact ⟨by decide, by decide, ⟨_, rfl, by decide⟩, by decide⟩
  · exact absurd ((hwritable 1).mp h).2.1 (by decide)
  · exact ⟨by decide, by decide, ⟨_, rfl, by decide⟩, by decide⟩
  · obtain ⟨key, hkey, hfree⟩ := ((hwritable 3).mp h).2.2.1
    cases hkey
    exact hfree (by decide)
  · exact absurd ((hwritable 4).mp h).2.1 (by decide)

section WriteLocks

variable {host : Endian} {m : Message} {view : MessageViewRef true}

/-- The wrapping subtractions do not wrap. -/
theorem MessageViewRef.HeaderCounts.requestedWriteLocks (h : view.HeaderCounts m)
    (hb : m.BodyValid) (hle : m.numAccounts ≤ 256) :
    view.numRequestedWriteLocks.toNat = m.staticAccountKeys.length -
      m.header.numReadonlySignedAccounts.toNat - m.header.numReadonlyUnsignedAccounts.toNat +
      totalWritable m.lookups := by
  have hrs := hb.readonlySigned_lt
  have hun := hb.unsigned_le
  have hk := h.keys
  have hs := h.readonlySigned
  have hu := h.readonlyUnsigned
  have hw := h.writable
  have hsigned : (view.numStaticAccountKeys - view.numReadonlySignedStaticAccounts).toNat =
      m.staticAccountKeys.length - m.header.numReadonlySignedAccounts.toNat := by
    rw [UInt8.toNat_sub_of_le, hk, hs]
    rw [UInt8.le_iff_toNat_le, hk, hs]
    omega
  have hunsigned : (view.numStaticAccountKeys - view.numReadonlySignedStaticAccounts -
      view.numReadonlyUnsignedStaticAccounts).toNat = m.staticAccountKeys.length -
        m.header.numReadonlySignedAccounts.toNat - m.header.numReadonlyUnsignedAccounts.toNat := by
    rw [UInt8.toNat_sub_of_le, hsigned, hu]
    rw [UInt8.le_iff_toNat_le, hsigned, hu]
    omega
  rw [Message.numAccounts] at hle
  rw [numRequestedWriteLocks, UInt16.toNat_toUInt64, UInt16.toNat_add, UInt8.toNat_toUInt16,
    hunsigned, hw]
  omega

/-- The indexes that are requested writable, as three disjoint intervals. -/
def requestedIndexes (m : Message) : Finset ℕ :=
  (Finset.range (m.header.numRequiredSignatures.toNat - m.header.numReadonlySignedAccounts.toNat) ∪
    Finset.Ico m.header.numRequiredSignatures.toNat
      (m.staticAccountKeys.length - m.header.numReadonlyUnsignedAccounts.toNat)) ∪
    Finset.Ico m.staticAccountKeys.length (m.staticAccountKeys.length + totalWritable m.lookups)

theorem mem_requestedIndexes (h : view.HeaderCounts m) {i : ℕ} :
    i ∈ requestedIndexes m ↔ view.RequestedWritable i := by
  rw [requestedIndexes, MessageViewRef.RequestedWritable, h.required, h.readonlySigned,
    h.readonlyUnsigned, h.keys, h.writable]
  simp only [Finset.mem_union, Finset.mem_range, Finset.mem_Ico]
  omega

theorem card_requestedIndexes (hb : m.BodyValid) :
    (requestedIndexes m).card = m.staticAccountKeys.length -
      m.header.numReadonlySignedAccounts.toNat - m.header.numReadonlyUnsignedAccounts.toNat +
      totalWritable m.lookups := by
  have hrs := hb.readonlySigned_lt
  have hun := hb.unsigned_le
  rw [requestedIndexes, Finset.card_union_of_disjoint, Finset.card_union_of_disjoint,
    Finset.card_range, Nat.card_Ico, Nat.card_Ico]
  · omega
  · rw [Finset.disjoint_left]
    simp only [Finset.mem_range, Finset.mem_Ico]
    omega
  · rw [Finset.disjoint_left]
    simp only [Finset.mem_union, Finset.mem_range, Finset.mem_Ico]
    omega

/-- The counted locks are the requested indexes. -/
theorem encard_requested (h : view.HeaderCounts m) (hb : m.BodyValid) (hle : m.numAccounts ≤ 256) :
    {i | i < m.numAccounts ∧ isRequestedWrite view i = true}.encard =
      view.numRequestedWriteLocks.toNat := by
  have hset : {i | i < m.numAccounts ∧ isRequestedWrite view i = true} =
      (requestedIndexes m : Set ℕ) := by
    ext i
    rw [Finset.mem_coe, mem_requestedIndexes h, Set.mem_ofPred_eq]
    constructor
    · rintro ⟨hi, hreq⟩
      exact (isRequestedWrite_iff h hb (by unfold usizeRange; omega)).mp hreq
    · intro hreq
      have hi : i < m.numAccounts := by
        have hun := hb.unsigned_le
        rw [← mem_requestedIndexes h, requestedIndexes] at hreq
        simp only [Finset.mem_union, Finset.mem_range, Finset.mem_Ico] at hreq
        rw [Message.numAccounts]
        omega
      exact ⟨hi, (isRequestedWrite_iff h hb (by unfold usizeRange; omega)).mpr hreq⟩
  rw [hset, Set.encard_coe_eq_coe_finsetCard, card_requestedIndexes hb,
    h.requestedWriteLocks hb hle]

end WriteLocks

/-- The lock count of a resolved view against the two predicates on indexes: what the loop requests
and what the cache grants. -/
structure LocksCounted (upgradeableLoader : Pubkey) (reserved : Finset Pubkey)
    (message : MessageViewRef true) (keys : List Pubkey) (instructions : List SVMInstruction)
    (isWritable : ℕ → Bool) (locks : ℕ) : Prop where
  requested : {i | i < keys.length ∧ isRequestedWrite message i = true}.encard = locks
  granted_le : {i | isWritable i = true}.encard ≤ locks
  granted_eq :
    (∀ i key, isRequestedWrite message i = true → keys[i]? = some key → key ∉ reserved) →
    ((∀ i, i < keys.length → isRequestedWrite message i = true →
        ∀ ix ∈ instructions, ix.programIdIndex.toNat ≠ i) ∨ upgradeableLoader ∈ keys) →
    {i | isWritable i = true}.encard = locks

/-- Every resolved view of a sanitized view: the write locks are counted as they are requested, and
the cache grants no more. -/
theorem numWriteLocks_counts (host : Endian) (upgradeableLoader : Pubkey)
    (view : TransactionView true) (hview : view.IsSanitized host) (A : Type)
    (loadedAddressesView : A → LoadedAddresses) (resolvedAddresses : Option A)
    (reserved : Finset Pubkey) (resolved : ResolvedTransactionView A)
    (hresolved : ResolvedTransactionView.tryNewWithSource host upgradeableLoader
      loadedAddressesView view resolvedAddresses reserved = .ok resolved) :
    ∃ message staticKeys instructions locks,
      view.message = .ok message ∧ message.staticAccountKeys = .ok staticKeys ∧
      message.instructionsIter.collect host = .ok instructions ∧
      resolved.numWriteLocks = .ok locks ∧
      LocksCounted upgradeableLoader reserved message
        (AccountKeys.mk staticKeys (resolvedAddresses.map loadedAddressesView)).iter instructions
        resolved.isWritable locks.toNat := by
  obtain ⟨b, tx, rfl, hstart, hvalid⟩ := hview.startsWith
  obtain ⟨d, hs⟩ := hstart.shows true
  have hspec := tryNewWithSource_resolution upgradeableLoader reserved hs.message rfl hs.stands
    hvalid.body loadedAddressesView resolvedAddresses
  have hcounts := hs.stands.headerCounts
  have hle := hs.stands.parseable.numAccounts_le hvalid.body.accounts_le
  obtain ⟨-, hwritable, hreadonly⟩ := hspec.ok_iff.mp ⟨resolved, hresolved⟩
  have hmatch : LookupsMatch tx.message (resolvedAddresses.map loadedAddressesView) :=
    ⟨hwritable.trans hcounts.writable, hreadonly.trans hcounts.readonly⟩
  have hlocks : resolved.numWriteLocks = .ok (MessageViewRef.numRequestedWriteLocks
      ⟨d, tx.message.frame tx.leading.length⟩) := by
    rw [ResolvedTransactionView.numWriteLocks, hspec.sameView resolved hresolved, hs.message]
    rfl
  have hrequested := encard_requested hcounts hvalid.body hle
  rw [← hmatch.length_iter] at hrequested hle
  have hgranted := hspec.isWritable resolved hresolved
  have hiff {i : ℕ} (hi : i < (AccountKeys.mk tx.message.staticAccountKeys
      (resolvedAddresses.map loadedAddressesView)).iter.length) :=
    isRequestedWrite_iff hcounts hvalid.body (i := i) (by unfold usizeRange; omega)
  refine ⟨_, _, _, _, hspec.message_ok, hspec.staticKeys_ok, hspec.instructions_ok, hlocks, ?_⟩
  constructor
  case requested => exact hrequested
  case granted_le =>
    rw [← hrequested]
    refine Set.encard_le_encard ?_
    intro i hi
    obtain ⟨hlt, hreq, -⟩ := (hgranted i).mp hi
    exact ⟨hlt, (hiff hlt).mpr hreq⟩
  case granted_eq =>
    intro hreserved hprograms
    rw [← hrequested]
    congr 1
    ext i
    rw [Set.mem_ofPred_eq, Set.mem_ofPred_eq, hgranted]
    constructor
    · rintro ⟨hlt, hreq, -⟩
      exact ⟨hlt, (hiff hlt).mpr hreq⟩
    · rintro ⟨hlt, hreq⟩
      have hkey := List.getElem?_eq_getElem hlt
      refine ⟨hlt, (hiff hlt).mp hreq, ⟨_, hkey, hreserved i _ hreq hkey⟩, ?_⟩
      rintro ⟨⟨ix, hix, hindex⟩, hloader⟩
      rcases hprograms with hprograms | hpresent
      · exact hprograms i hlt hreq ix hix hindex
      · exact hloader hpresent

/-- Three keys are requested, and at most those are writable. -/
theorem sample_writeLocks : ∃ resolved locks,
    ResolvedTransactionView.tryNewWithSource .little (Vector.replicate 32 7) id
        ⟨lookupTransactionBytes, lookupTransaction.frame .little⟩ (some loadedAddresses)
        reservedKeys = .ok resolved ∧
      resolved.numWriteLocks = .ok locks ∧
      {i | resolved.isWritable i = true}.encard ≤ locks.toNat := by
  obtain ⟨d, hs⟩ := lookup_startsWith.shows true
  have hspec := tryNewWithSource_resolution (Vector.replicate 32 7) reservedKeys hs.message rfl
    hs.stands lookup_valid.body id (some loadedAddresses)
  obtain ⟨resolved, hresolved⟩ := hspec.ok_iff.mpr ⟨.inr rfl, rfl, rfl⟩
  obtain ⟨_, _, _, locks, -, -, -, hlocks, hcounted⟩ := numWriteLocks_counts .little
    (Vector.replicate 32 7) _ lookup_isSanitized _ id (some loadedAddresses) reservedKeys resolved
    hresolved
  exact ⟨resolved, locks, hresolved, hlocks, hcounted.granted_le⟩

end AgaveSdk.TxView
