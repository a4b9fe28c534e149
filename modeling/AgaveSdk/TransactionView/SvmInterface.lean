import AgaveSdk.TransactionView.ResolvedTransactionView

/-! What the runtime asks of a resolved transaction. Its answers index one list of account keys. -/
namespace AgaveSdk.TxView
open FallibleState Draining ByteOrder

namespace MessageViewRef

def isInvoked (host : Endian) (view : MessageViewRef true) (keyIndex : ℕ) :
    Outcome TransactionViewError Bool :=
  if keyIndex < 256 then
    anyEach (InstructionsIterator.next host) (fun ix => ix.programIdIndex == UInt8.ofNat keyIndex)
      (view.instructionsIter.len + 1) view.instructionsIter
  else return false

end MessageViewRef

namespace ResolvedTransactionView

variable {A : Type}

def numTransactionSignatures (resolved : ResolvedTransactionView A) : UInt64 :=
  resolved.view.numRequiredSignatures.toUInt64

def numInstructions (resolved : ResolvedTransactionView A) : ℕ :=
  resolved.view.frame.message.instructions.numInstructions.toNat

def programInstructionsIter (host : Endian) (resolved : ResolvedTransactionView A) :
    Outcome TransactionViewError (List (Pubkey × SVMInstruction)) := do
  (← resolved.view.message).programInstructionsIter host

def feePayer (resolved : ResolvedTransactionView A) : Outcome TransactionViewError Pubkey := do
  (← resolved.view.message).feePayer

def isSigner (resolved : ResolvedTransactionView A) (index : ℕ) : Bool :=
  index < resolved.view.numRequiredSignatures.toNat

def isInvoked (host : Endian) (resolved : ResolvedTransactionView A) (keyIndex : ℕ) :
    Outcome TransactionViewError Bool := do
  (← resolved.view.message).isInvoked host keyIndex

def accountKeys (loadedAddressesView : A → LoadedAddresses) (resolved : ResolvedTransactionView A) :
    Outcome TransactionViewError AccountKeys := do
  let message ← resolved.view.message
  return ⟨← message.staticAccountKeys, resolved.resolvedAddresses.map loadedAddressesView⟩

def signature (resolved : ResolvedTransactionView A) : Outcome TransactionViewError Signature :=
  resolved.view.signature

def signatures (resolved : ResolvedTransactionView A) :
    Outcome TransactionViewError (List Signature) :=
  resolved.view.signatures

end ResolvedTransactionView

/-- The answers about one resolved transaction fit each other. -/
structure ResolvedTransactionView.Consistent {A : Type} (host : Endian) (upgradeableLoader : Pubkey)
    (reserved : Finset Pubkey) (resolved : ResolvedTransactionView A) (keys : List Pubkey)
    (signatures : List Signature) (pairs : List (Pubkey × SVMInstruction)) : Prop where
  keys_le : keys.length ≤ 256
  feePayer : ∃ payer, resolved.feePayer = .ok payer ∧ keys[0]? = some payer ∧
    resolved.isSigner 0 = true ∧ resolved.isInvoked host 0 = .ok false ∧
    (resolved.isWritable 0 = true ↔ payer ∉ reserved)
  signature : ∃ signature, resolved.signature = .ok signature ∧ signatures[0]? = some signature
  numSignatures : signatures.length = resolved.numTransactionSignatures.toNat
  isSigner : ∀ i, resolved.isSigner i = true ↔ i < signatures.length
  signatures_le : signatures.length ≤ keys.length
  numInstructions : pairs.length = resolved.numInstructions
  programs : ∀ pair ∈ pairs, keys[pair.2.programIdIndex.toNat]? = some pair.1
  accounts : ∀ pair ∈ pairs, ∀ i ∈ pair.2.accounts, i.toNat < keys.length
  isInvoked : ∀ i, ∃ answer, resolved.isInvoked host i = .ok answer ∧
    (answer = true ↔ ∃ pair ∈ pairs, pair.2.programIdIndex.toNat = i)
  isWritable : ∀ i, resolved.isWritable i = true →
    (∃ key, keys[i]? = some key ∧ key ∉ reserved) ∧
      (resolved.isInvoked host i = .ok true → upgradeableLoader ∈ keys)

section Interface

variable {host : Endian} {d : Slice} {m : Message} {o : ℕ}

theorem Stands.isInvoked_eq (h : Stands host d m o) (i : ℕ) :
    (⟨d, m.frame o⟩ : MessageViewRef true).isInvoked host i =
      .ok (m.instructions.any fun ix => ix.programIdIndex.toNat == i) := by
  have hr := h.reads true
  have hlen : m.instructions.length <
      (⟨d, m.frame o⟩ : MessageViewRef true).instructionsIter.len + 1 := by
    rw [MessageViewRef.instructionsIter_len hr h.parseable]
    exact Nat.lt_succ_self _
  rw [MessageViewRef.isInvoked]
  by_cases hi : i < 256
  · rw [if_pos hi, hr.instructions.anyEach_eq hlen]
    congr 2
    funext ix
    have hbyte : (UInt8.ofNat i).toNat = i := UInt8.toNat_ofNat_of_lt hi
    rw [Bool.eq_iff_iff, beq_iff_eq, beq_iff_eq, ← UInt8.toNat_inj, hbyte]
  · rw [if_neg hi]
    have hnone : (m.instructions.any fun ix => ix.programIdIndex.toNat == i) = false := by
      rw [List.any_eq_false]
      intro ix _ heq
      have hlt := ix.programIdIndex.toNat_lt
      rw [beq_iff_eq] at heq
      omega
    rw [hnone]
    rfl

theorem forall₂_pairs {keys : List Pubkey} {ixs : List SVMInstruction}
    {pairs : List (Pubkey × SVMInstruction)}
    (h : List.Forall₂ (fun pair ix => pair.2 = ix ∧ ix.programIdIndex ≠ 0 ∧
      keys[ix.programIdIndex.toNat]? = some pair.1) pairs ixs) :
    pairs.map Prod.snd = ixs ∧
      ∀ pair ∈ pairs, keys[pair.2.programIdIndex.toNat]? = some pair.1 := by
  induction h with
  | nil => exact ⟨rfl, by simp⟩
  | cons hpair _ ih =>
    obtain ⟨rfl, -, hkey⟩ := hpair
    exact ⟨by rw [List.map_cons, ih.1], List.forall_mem_cons.mpr ⟨hkey, ih.2⟩⟩

/-- A resolved view, the valid transaction that it shows and the list of its account keys. -/
structure ResolvedTransactionView.ShowsResolved {A : Type} (host : Endian)
    (upgradeableLoader : Pubkey) (reserved : Finset Pubkey) (tx : Transaction) (d : Slice)
    (dynamicKeys : Option LoadedAddresses) (keys : List Pubkey)
    (resolved : ResolvedTransactionView A) : Prop where
  view : resolved.view.Shows host tx d
  valid : tx.Valid host
  keys_eq : keys = (AccountKeys.mk tx.message.staticAccountKeys dynamicKeys).iter
  length : keys.length = tx.message.numAccounts
  isWritable : ∀ i, resolved.isWritable i = true ↔ i < keys.length ∧
    (⟨d, tx.message.frame tx.leading.length⟩ : MessageViewRef true).RequestedWritable i ∧
    (∃ key, keys[i]? = some key ∧ key ∉ reserved) ∧
    ¬ ((∃ ix ∈ tx.message.instructions, ix.programIdIndex.toNat = i) ∧ upgradeableLoader ∉ keys)

namespace ResolvedTransactionView

variable {A : Type} {upgradeableLoader : Pubkey} {reserved : Finset Pubkey} {tx : Transaction}
  {dynamicKeys : Option LoadedAddresses} {keys : List Pubkey} {resolved : ResolvedTransactionView A}

theorem tryNewWithSource_fields {loadedAddressesView : A → LoadedAddresses}
    {view : TransactionView true} {resolvedAddresses : Option A}
    (h : tryNewWithSource host upgradeableLoader loadedAddressesView view resolvedAddresses
      reserved = .ok resolved) :
    resolved.view = view ∧ resolved.resolvedAddresses = resolvedAddresses := by
  simp only [tryNewWithSource, outcome_bind_ok, outcome_failIf_ok, pure, Except.pure,
    Except.ok.injEq] at h
  obtain ⟨_, -, _, -, cache, -, rfl⟩ := h
  exact ⟨rfl, rfl⟩

namespace ShowsResolved

theorem static (h : resolved.ShowsResolved host upgradeableLoader reserved tx d dynamicKeys keys)
    {i : ℕ} {key : Pubkey} (hkey : tx.message.staticAccountKeys[i]? = some key) :
    keys[i]? = some key := by
  rw [h.keys_eq, AccountKeys.iter, List.getElem?_append_left (List.getElem?_eq_some_iff.mp hkey).1,
    hkey]

theorem isSigner_eq
    (h : resolved.ShowsResolved host upgradeableLoader reserved tx d dynamicKeys keys) (i : ℕ) :
    resolved.isSigner i = true ↔ i < tx.signatures.length := by
  rw [isSigner, h.view.counts_eq.2, h.valid.signatures, decide_eq_true_eq]

theorem isInvoked_eq
    (h : resolved.ShowsResolved host upgradeableLoader reserved tx d dynamicKeys keys) (i : ℕ) :
    resolved.isInvoked host i =
      .ok (tx.message.instructions.any fun ix => ix.programIdIndex.toNat == i) := by
  rw [isInvoked, h.view.message]
  exact h.view.stands.isInvoked_eq i

/-- The fee payer signs, is no program, and is writable unless its key is reserved. -/
theorem feePayer
    (h : resolved.ShowsResolved host upgradeableLoader reserved tx d dynamicKeys keys) :
    ∃ payer, resolved.feePayer = .ok payer ∧ keys[0]? = some payer ∧
      resolved.isSigner 0 = true ∧ resolved.isInvoked host 0 = .ok false ∧
      (resolved.isWritable 0 = true ↔ payer ∉ reserved) := by
  have hb := h.valid.body
  have hcounts := h.view.stands.headerCounts
  obtain ⟨_, payer, hkeys, -, hpayer, hfee⟩ := (h.view.stands.countsJustified hb).keys
  obtain rfl := Except.ok.inj (hkeys.symm.trans (h.view.stands.reads true).staticAccountKeys)
  have hkey := h.static hpayer
  have hprogram : ¬ ∃ ix ∈ tx.message.instructions, ix.programIdIndex.toNat = 0 := by
    rintro ⟨ix, hix, hzero⟩
    have hpos := (hb.programs ix hix).1
    omega
  refine ⟨payer, ?_, hkey, ?_, ?_, ?_⟩
  · rw [ResolvedTransactionView.feePayer, h.view.message]
    exact hfee
  · rw [h.isSigner_eq, h.valid.signatures]
    exact hb.signatures_pos
  · rw [h.isInvoked_eq, Except.ok.injEq, List.any_eq_false]
    exact fun ix hix heq => hprogram ⟨ix, hix, beq_iff_eq.mp heq⟩
  · rw [h.isWritable]
    constructor
    · rintro ⟨-, -, ⟨key, hzero, hreserved⟩, -⟩
      rw [hkey, Option.some.injEq] at hzero
      rwa [hzero]
    · intro hreserved
      have hlt := (List.getElem?_eq_some_iff.mp hkey).1
      refine ⟨hlt, .inl ?_, ⟨payer, hkey, hreserved⟩, fun hinvoked => hprogram hinvoked.1⟩
      rw [hcounts.readonlySigned, hcounts.required, Nat.zero_add]
      exact hb.readonlySigned_lt

/-- The instructions with their programs, in order. -/
theorem programInstructions
    (h : resolved.ShowsResolved host upgradeableLoader reserved tx d dynamicKeys keys) :
    ∃ pairs, resolved.programInstructionsIter host = .ok pairs ∧
      pairs.map Prod.snd = tx.message.instructions ∧
      ∀ pair ∈ pairs, keys[pair.2.programIdIndex.toNat]? = some pair.1 := by
  have hr := h.view.stands.reads true
  obtain ⟨_, _, pairs, hkeys, hinstructions, hpairs, hall⟩ :=
    (h.view.stands.countsJustified h.valid.body).programs
  obtain rfl := Except.ok.inj (hkeys.symm.trans hr.staticAccountKeys)
  obtain rfl := Except.ok.inj (hinstructions.symm.trans
    (MessageViewRef.collect_instructions hr h.view.stands.parseable))
  obtain ⟨hsnd, hprograms⟩ := forall₂_pairs hall
  refine ⟨pairs, ?_, hsnd, fun pair hpair => h.static (hprograms pair hpair)⟩
  rw [programInstructionsIter, h.view.message]
  exact hpairs

theorem numInstructions_eq
    (h : resolved.ShowsResolved host upgradeableLoader reserved tx d dynamicKeys keys) :
    resolved.numInstructions = tx.message.instructions.length := by
  have hnum : resolved.view.frame.message.instructions.numInstructions =
      UInt16.ofNat tx.message.instructions.length := by
    rw [h.view.frame]
    exact (h.view.stands.reads true).numInstructions
  rw [numInstructions, hnum]
  exact UInt16.toNat_ofNat_of_lt h.view.stands.parseable.counts.2.1

/-- What has been shown about the parts, together. -/
theorem consistent
    (h : resolved.ShowsResolved host upgradeableLoader reserved tx d dynamicKeys keys)
    {pairs : List (Pubkey × SVMInstruction)} (hsnd : pairs.map Prod.snd = tx.message.instructions)
    (hprograms : ∀ pair ∈ pairs, keys[pair.2.programIdIndex.toNat]? = some pair.1) :
    resolved.Consistent host upgradeableLoader reserved keys tx.signatures pairs := by
  have hb := h.valid.body
  have hmem {ix : SVMInstruction} : ix ∈ tx.message.instructions ↔ ∃ pair ∈ pairs, pair.2 = ix := by
    rw [← hsnd, List.mem_map]
  constructor
  case keys_le =>
    rw [h.length]
    exact h.view.stands.parseable.numAccounts_le hb.accounts_le
  case feePayer => exact h.feePayer
  case signature =>
    have hpos : 0 < tx.signatures.length := by
      rw [h.valid.signatures]
      exact hb.signatures_pos
    refine ⟨tx.signatures[0], ?_, List.getElem?_eq_getElem hpos⟩
    rw [signature, TransactionView.signature, h.view.signatures]
    exact indexOrPanic_ok.mpr (List.getElem?_eq_getElem hpos)
  case numSignatures =>
    rw [numTransactionSignatures, h.view.counts_eq.2, h.valid.signatures, UInt8.toNat_toUInt64]
  case isSigner => exact h.isSigner_eq
  case signatures_le =>
    have hun := hb.unsigned_le
    rw [h.length, h.valid.signatures, Message.numAccounts]
    omega
  case numInstructions => rw [h.numInstructions_eq, ← hsnd, List.length_map]
  case programs => exact hprograms
  case accounts =>
    intro pair hpair i hi
    rw [h.length]
    exact hb.accounts _ (hmem.mpr ⟨pair, hpair, rfl⟩) i hi
  case isInvoked =>
    intro i
    refine ⟨_, h.isInvoked_eq i, ?_⟩
    rw [List.any_eq_true]
    constructor
    · rintro ⟨ix, hix, heq⟩
      obtain ⟨pair, hpair, rfl⟩ := hmem.mp hix
      exact ⟨pair, hpair, beq_iff_eq.mp heq⟩
    · rintro ⟨pair, hpair, heq⟩
      exact ⟨_, hmem.mpr ⟨pair, hpair, rfl⟩, beq_iff_eq.mpr heq⟩
  case isWritable =>
    intro i hi
    obtain ⟨-, -, hkey, hprogram⟩ := (h.isWritable i).mp hi
    refine ⟨hkey, fun hinvokes => ?_⟩
    by_contra hloader
    rw [h.isInvoked_eq, Except.ok.injEq, List.any_eq_true] at hinvokes
    obtain ⟨ix, hix, heq⟩ := hinvokes
    exact hprogram ⟨⟨ix, hix, beq_iff_eq.mp heq⟩, hloader⟩

end ShowsResolved

end ResolvedTransactionView

end Interface

/-- For every resolved view of a sanitized view, whatever the source of its addresses. -/
theorem resolved_view_consistent (host : Endian) (upgradeableLoader : Pubkey)
    (view : TransactionView true) (hview : view.IsSanitized host) (A : Type)
    (loadedAddressesView : A → LoadedAddresses) (resolvedAddresses : Option A)
    (reserved : Finset Pubkey) (resolved : ResolvedTransactionView A)
    (hresolved : ResolvedTransactionView.tryNewWithSource host upgradeableLoader
      loadedAddressesView view resolvedAddresses reserved = .ok resolved) :
    ∃ accountKeys signatures pairs, resolved.accountKeys loadedAddressesView = .ok accountKeys ∧
      resolved.signatures = .ok signatures ∧ resolved.programInstructionsIter host = .ok pairs ∧
      resolved.Consistent host upgradeableLoader reserved accountKeys.iter signatures pairs := by
  obtain ⟨b, tx, rfl, hstart, hvalid⟩ := hview.startsWith
  obtain ⟨d, hs⟩ := hstart.shows true
  have hspec := tryNewWithSource_resolution upgradeableLoader reserved hs.message rfl hs.stands
    hvalid.body loadedAddressesView resolvedAddresses
  obtain ⟨hsame, haddresses⟩ := ResolvedTransactionView.tryNewWithSource_fields hresolved
  have hcounts := hs.stands.headerCounts
  obtain ⟨-, hwritable, hreadonly⟩ := hspec.ok_iff.mp ⟨resolved, hresolved⟩
  have hmatch : LookupsMatch tx.message (resolvedAddresses.map loadedAddressesView) :=
    ⟨hwritable.trans hcounts.writable, hreadonly.trans hcounts.readonly⟩
  have hshows : resolved.ShowsResolved host upgradeableLoader reserved tx d
      (resolvedAddresses.map loadedAddressesView) (AccountKeys.mk tx.message.staticAccountKeys
        (resolvedAddresses.map loadedAddressesView)).iter :=
    ⟨hsame.symm ▸ hs, hvalid, rfl, hmatch.length_iter, hspec.isWritable resolved hresolved⟩
  obtain ⟨pairs, hpairs, hsnd, hprograms⟩ := hshows.programInstructions
  refine ⟨⟨tx.message.staticAccountKeys, resolvedAddresses.map loadedAddressesView⟩, tx.signatures,
    pairs, ?_, ?_, hpairs, hshows.consistent hsnd hprograms⟩
  · have hkeys := (hs.stands.reads true).staticAccountKeys
    simp only [ResolvedTransactionView.accountKeys, hshows.view.message, hkeys, haddresses, bind,
      Except.bind, pure, Except.pure]
  · exact hshows.view.signatures

theorem sample_view_consistent : ∃ resolved accountKeys signatures pairs,
    ResolvedTransactionView.tryNewWithSource .little (Vector.replicate 32 7) id
        ⟨lookupTransactionBytes, lookupTransaction.frame .little⟩ (some loadedAddresses)
        reservedKeys = .ok resolved ∧
      resolved.accountKeys id = .ok accountKeys ∧
      resolved.Consistent .little (Vector.replicate 32 7) reservedKeys accountKeys.iter signatures
        pairs := by
  obtain ⟨d, hs⟩ := lookup_startsWith.shows true
  have hspec := tryNewWithSource_resolution (Vector.replicate 32 7) reservedKeys hs.message rfl
    hs.stands lookup_valid.body id (some loadedAddresses)
  obtain ⟨resolved, hresolved⟩ := hspec.ok_iff.mpr ⟨.inr rfl, rfl, rfl⟩
  obtain ⟨accountKeys, signatures, pairs, hkeys, -, -, hconsistent⟩ := resolved_view_consistent
    .little (Vector.replicate 32 7) _ lookup_isSanitized _ id (some loadedAddresses) reservedKeys
    resolved hresolved
  exact ⟨resolved, accountKeys, signatures, pairs, hresolved, hkeys, hconsistent⟩

end AgaveSdk.TxView
