import AgaveSdk.TransactionView.SanitizedGrammar

/-! What a sanitized view computes from its counts with wrapping arithmetic, and where it indexes
without a check of its own. -/
namespace AgaveSdk.TxView
open FallibleState Segments ByteOrder

variable {host : Endian} {d : Slice} {m : Message} {o : ℕ}

/-- Indexing a slice, which panics past the end. -/
def indexOrPanic {α : Type} (xs : List α) (i : ℕ) : Outcome TransactionViewError α :=
  match xs[i]? with
  | some x => .ok x
  | none => .error (.fault .panic)

namespace MessageViewRef

/-- The instructions paired with their program ids, driven to exhaustion. -/
def programInstructionsIter (host : Endian) (view : MessageViewRef true) :
    Outcome TransactionViewError (List (Pubkey × SVMInstruction)) := do
  let staticAccountKeys ← view.staticAccountKeys
  let instructions ← view.instructionsIter.collect host
  instructions.mapM fun ix => do
    return (← indexOrPanic staticAccountKeys ix.programIdIndex.toNat, ix)

def feePayer (view : MessageViewRef true) : Outcome TransactionViewError Pubkey := do
  indexOrPanic (← view.staticAccountKeys) 0

def numStaticUnsignedStaticAccounts (view : MessageViewRef true) : UInt8 :=
  view.numStaticAccountKeys - view.numRequiredSignatures

def numWritableUnsignedStaticAccounts (view : MessageViewRef true) : UInt8 :=
  view.numStaticUnsignedStaticAccounts - view.numReadonlyUnsignedStaticAccounts

def numWritableSignedStaticAccounts (view : MessageViewRef true) : UInt8 :=
  view.numRequiredSignatures - view.numReadonlySignedStaticAccounts

def totalNumAccounts (view : MessageViewRef true) : UInt16 :=
  view.numStaticAccountKeys.toUInt16 + view.totalWritableLookupAccounts +
    view.totalReadonlyLookupAccounts

/-- The number of keys for which a write lock is requested. -/
def numRequestedWriteLocks (view : MessageViewRef true) : UInt64 :=
  ((view.numStaticAccountKeys - view.numReadonlySignedStaticAccounts -
    view.numReadonlyUnsignedStaticAccounts).toUInt16 + view.totalWritableLookupAccounts).toUInt64

end MessageViewRef

/-- The first signature of a transaction. -/
def TransactionView.signature (view : TransactionView true) :
    Outcome TransactionViewError Signature := do
  indexOrPanic (← view.signatures) 0

/-- The derived counts of a sanitized message are exact in the integers, and every index that is
used without a check is in range. -/
structure MessageViewRef.CountsJustified (host : Endian) (view : MessageViewRef true) : Prop where
  keys : ∃ keys key, view.staticAccountKeys = .ok keys ∧
    keys.length = view.numStaticAccountKeys.toNat ∧ keys[0]? = some key ∧ view.feePayer = .ok key
  programs : ∃ keys instructions pairs, view.staticAccountKeys = .ok keys ∧
    view.instructionsIter.collect host = .ok instructions ∧
    view.programInstructionsIter host = .ok pairs ∧
    List.Forall₂ (fun pair ix => pair.2 = ix ∧ ix.programIdIndex ≠ 0 ∧
      keys[ix.programIdIndex.toNat]? = some pair.1) pairs instructions
  writableSigned : (view.numWritableSignedStaticAccounts.toNat : ℤ) =
      view.numRequiredSignatures.toNat - view.numReadonlySignedStaticAccounts.toNat ∧
    1 ≤ view.numWritableSignedStaticAccounts.toNat
  unsigned : (view.numStaticUnsignedStaticAccounts.toNat : ℤ) =
    view.numStaticAccountKeys.toNat - view.numRequiredSignatures.toNat
  writableUnsigned : (view.numWritableUnsignedStaticAccounts.toNat : ℤ) =
    view.numStaticAccountKeys.toNat - view.numRequiredSignatures.toNat -
      view.numReadonlyUnsignedStaticAccounts.toNat
  total : view.totalNumAccounts.toNat = view.numStaticAccountKeys.toNat +
      view.totalWritableLookupAccounts.toNat + view.totalReadonlyLookupAccounts.toNat ∧
    view.totalNumAccounts.toNat ≤ 256
  saturating : totalNumberOfAccounts ⟨view.buffer, view.messageFrame⟩ = view.totalNumAccounts
  accounts : ∃ instructions, view.instructionsIter.collect host = .ok instructions ∧
    ∀ ix ∈ instructions, ∀ i ∈ ix.accounts, i.toNat < view.totalNumAccounts.toNat

/-- The header counts of a view in the integers. -/
structure MessageViewRef.HeaderCounts (view : MessageViewRef true) (m : Message) : Prop where
  required : view.numRequiredSignatures.toNat = m.header.numRequiredSignatures.toNat
  readonlySigned : view.numReadonlySignedStaticAccounts.toNat =
    m.header.numReadonlySignedAccounts.toNat
  readonlyUnsigned : view.numReadonlyUnsignedStaticAccounts.toNat =
    m.header.numReadonlyUnsignedAccounts.toNat
  keys : view.numStaticAccountKeys.toNat = m.staticAccountKeys.length
  writable : view.totalWritableLookupAccounts.toNat = totalWritable m.lookups
  readonly : view.totalReadonlyLookupAccounts.toNat = totalReadonly m.lookups

theorem Stands.headerCounts (h : Stands host d m o) :
    (⟨d, m.frame o⟩ : MessageViewRef true).HeaderCounts m := by
  have hr := h.reads true
  have ht := h.totals_lt
  constructor
  case required => rw [hr.numRequiredSignatures]
  case readonlySigned => rw [hr.numReadonlySigned]
  case readonlyUnsigned => rw [hr.numReadonlyUnsigned]
  case keys =>
    rw [hr.numStaticAccountKeys]
    exact UInt8.toNat_ofNat_of_lt h.parseable.counts.1
  case writable =>
    rw [hr.totalWritable, UInt16.toNat_ofNat']
    omega
  case readonly =>
    rw [hr.totalReadonly, UInt16.toNat_ofNat']
    omega

section Justified

variable {view : MessageViewRef true}

theorem indexOrPanic_ok {α : Type} {xs : List α} {i : ℕ} {x : α} :
    indexOrPanic xs i = .ok x ↔ xs[i]? = some x := by
  unfold indexOrPanic
  split
  · next y hy => simp [hy]
  · next hy => simp [hy]

/-- Where every program index is in range, the pairing does not panic. -/
theorem mapM_index_ok {keys : List Pubkey} {ixs : List SVMInstruction}
    (h : ∀ ix ∈ ixs, 1 ≤ ix.programIdIndex.toNat ∧ ix.programIdIndex.toNat < keys.length) :
    ∃ pairs, (ixs.mapM fun ix => do
        return (← indexOrPanic keys ix.programIdIndex.toNat, ix) :
        Outcome TransactionViewError (List (Pubkey × SVMInstruction))) = .ok pairs ∧
      List.Forall₂ (fun pair ix => pair.2 = ix ∧ ix.programIdIndex ≠ 0 ∧
        keys[ix.programIdIndex.toNat]? = some pair.1) pairs ixs := by
  induction ixs with
  | nil => exact ⟨[], rfl, .nil⟩
  | cons ix ixs ih =>
    obtain ⟨pairs, hpairs, hall⟩ := ih fun i hi => h i (by simp [hi])
    obtain ⟨hpos, hlt⟩ := h ix (by simp)
    have hkey : indexOrPanic keys ix.programIdIndex.toNat = .ok keys[ix.programIdIndex.toNat] :=
      indexOrPanic_ok.mpr (List.getElem?_eq_getElem hlt)
    refine ⟨(keys[ix.programIdIndex.toNat], ix) :: pairs, ?_, ?_⟩
    · rw [List.mapM_cons, hpairs, hkey]
      rfl
    · exact .cons ⟨rfl, (byte_ne_zero_iff _).mpr hpos, List.getElem?_eq_getElem hlt⟩ hall

namespace MessageViewRef.HeaderCounts

theorem writableSigned (h : view.HeaderCounts m) (hb : m.BodyValid) :
    view.numWritableSignedStaticAccounts.toNat = m.header.numRequiredSignatures.toNat -
      m.header.numReadonlySignedAccounts.toNat := by
  have hrs := hb.readonlySigned_lt
  rw [numWritableSignedStaticAccounts, UInt8.toNat_sub_of_le, h.required, h.readonlySigned]
  rw [UInt8.le_iff_toNat_le, h.required, h.readonlySigned]
  exact hrs.le

theorem unsigned (h : view.HeaderCounts m) (hb : m.BodyValid) :
    view.numStaticUnsignedStaticAccounts.toNat =
      m.staticAccountKeys.length - m.header.numRequiredSignatures.toNat := by
  have hun := hb.unsigned_le
  rw [numStaticUnsignedStaticAccounts, UInt8.toNat_sub_of_le, h.keys, h.required]
  rw [UInt8.le_iff_toNat_le, h.keys, h.required]
  omega

theorem writableUnsigned (h : view.HeaderCounts m) (hb : m.BodyValid) :
    view.numWritableUnsignedStaticAccounts.toNat = m.staticAccountKeys.length -
      m.header.numRequiredSignatures.toNat - m.header.numReadonlyUnsignedAccounts.toNat := by
  have hun := hb.unsigned_le
  rw [numWritableUnsignedStaticAccounts, UInt8.toNat_sub_of_le, h.unsigned hb,
    h.readonlyUnsigned]
  rw [UInt8.le_iff_toNat_le, h.unsigned hb, h.readonlyUnsigned]
  omega

theorem total (h : view.HeaderCounts m) (hle : m.numAccounts ≤ 256) :
    view.totalNumAccounts.toNat = m.numAccounts := by
  rw [Message.numAccounts] at hle ⊢
  rw [totalNumAccounts, UInt16.toNat_add, UInt16.toNat_add, UInt8.toNat_toUInt16, h.keys,
    h.writable, h.readonly]
  omega

end MessageViewRef.HeaderCounts

/-- The rules for messages justify all later arithmetic and indexing. -/
theorem Stands.countsJustified (h : Stands host d m o) (hb : m.BodyValid) :
    (⟨d, m.frame o⟩ : MessageViewRef true).CountsJustified host := by
  have hr := h.reads true
  have hcounts := h.headerCounts
  have hle := h.parseable.numAccounts_le hb.accounts_le
  have htotal := hcounts.total hle
  have hrs := hb.readonlySigned_lt
  have hun := hb.unsigned_le
  have hcollect := MessageViewRef.collect_instructions hr h.parseable
  have hpos : 0 < m.staticAccountKeys.length := by
    have := hb.signatures_pos
    omega
  constructor
  case keys =>
    refine ⟨_, m.staticAccountKeys[0], hr.staticAccountKeys, hcounts.keys.symm,
      List.getElem?_eq_getElem hpos, ?_⟩
    rw [MessageViewRef.feePayer, hr.staticAccountKeys]
    exact indexOrPanic_ok.mpr (List.getElem?_eq_getElem hpos)
  case programs =>
    obtain ⟨pairs, hpairs, hall⟩ := mapM_index_ok hb.programs
    refine ⟨_, _, pairs, hr.staticAccountKeys, hcollect, ?_, hall⟩
    rw [MessageViewRef.programInstructionsIter, hr.staticAccountKeys, hcollect]
    exact hpairs
  case writableSigned =>
    rw [hcounts.writableSigned hb, hcounts.required, hcounts.readonlySigned]
    omega
  case unsigned =>
    rw [hcounts.unsigned hb, hcounts.keys, hcounts.required]
    omega
  case writableUnsigned =>
    rw [hcounts.writableUnsigned hb, hcounts.keys, hcounts.required, hcounts.readonlyUnsigned]
    omega
  case total =>
    rw [htotal, hcounts.keys, hcounts.writable, hcounts.readonly]
    exact ⟨rfl, hle⟩
  case saturating =>
    apply UInt16.toNat_inj.mp
    rw [totalNumberOfAccounts_toNat (h.reads false) h.parseable h.totals_lt, htotal]
    omega
  case accounts =>
    refine ⟨_, hcollect, ?_⟩
    rw [htotal]
    exact hb.accounts

end Justified

/-- Every sanitized view: its counts are exact, and what its users index without a check exists. -/
theorem sanitized_counts_justified (host : Endian) (b : Slice) :
    (∀ view, TransactionView.tryNewSanitized host b = .ok view →
      (∃ signature, view.signature = .ok signature) ∧
      ∃ message, view.message = .ok message ∧ message.CountsJustified host) ∧
    (∀ view n, TransactionView.tryNewSanitizedFromPrefix host b = .ok (view, n) →
      (∃ signature, view.signature = .ok signature) ∧
      ∃ message, view.message = .ok message ∧ message.CountsJustified host) ∧
    (∀ view, MessageView.tryNewSanitized host b = .ok view →
      ∃ message, view.message = .ok message ∧ message.CountsJustified host) := by
  have htransaction (tx : Transaction) (hstart : StartsWith host b tx) (hvalid : tx.Valid host) :
      (∃ signature, (⟨b, tx.frame host⟩ : TransactionView true).signature = .ok signature) ∧
      ∃ message, (⟨b, tx.frame host⟩ : TransactionView true).message = .ok message ∧
        message.CountsJustified host := by
    obtain ⟨d, hs⟩ := hstart.shows true
    refine ⟨?_, _, hs.message, hs.stands.countsJustified hvalid.body⟩
    have hpos : 0 < tx.signatures.length := by
      rw [hvalid.signatures]
      exact hvalid.body.signatures_pos
    refine ⟨tx.signatures[0], ?_⟩
    rw [TransactionView.signature, hs.signatures]
    exact indexOrPanic_ok.mpr (List.getElem?_eq_getElem hpos)
  refine ⟨?_, ?_, ?_⟩
  · intro view h
    obtain ⟨tx, hstart, -, -, hvalid, rfl⟩ := TransactionView.tryNewSanitized_ok.mp h
    exact htransaction tx hstart hvalid
  · intro view n h
    obtain ⟨tx, hstart, -, hvalid, hview⟩ := TransactionView.tryNewSanitizedFromPrefix_ok.mp h
    cases hview
    exact htransaction tx hstart hvalid
  · intro view h
    obtain ⟨m, henc, hvalid, rfl⟩ := MessageView.tryNewSanitized_ok.mp h
    exact ⟨_, MessageView.message_eq henc, henc.stands.countsJustified hvalid.body⟩

theorem sample_counts_justified : ∃ view,
    TransactionView.tryNewSanitized .little sampleBytes = .ok view ∧
      ∃ message, view.message = .ok message ∧ message.CountsJustified .little := by
  have h := TransactionView.tryNewSanitized_ok.mpr
    ⟨_, sample_startsWith, sample_lookupsFit _, rfl, sample_valid, rfl⟩
  exact ⟨_, h, ((sanitized_counts_justified .little sampleBytes).1 _ h).2⟩

end AgaveSdk.TxView
