import AgaveSdk.TransactionView.TransactionGrammar
import AgaveSdk.TransactionView.View

/-! The accessors of a view give back the message that was encoded. -/
namespace AgaveSdk.TxView
open FallibleState Segments ByteOrder Draining

def TransactionConfig.contents (config : TransactionConfig) : ConfigContents :=
  ⟨config.mask, config.priorityFee, config.u32 2, config.u32 3, config.u32 4⟩

/-- What the accessors should return for a message. -/
def Message.contents (m : Message) : MessageContents where
  version := m.version
  numRequiredSignatures := m.header.numRequiredSignatures
  numReadonlySignedStaticAccounts := m.header.numReadonlySignedAccounts
  numReadonlyUnsignedStaticAccounts := m.header.numReadonlyUnsignedAccounts
  numStaticAccountKeys := UInt8.ofNat m.staticAccountKeys.length
  numInstructions := UInt16.ofNat m.instructions.length
  numAddressTableLookups := UInt8.ofNat m.lookups.length
  totalWritableLookupAccounts := UInt16.ofNat (totalWritable m.lookups)
  totalReadonlyLookupAccounts := UInt16.ofNat (totalReadonly m.lookups)
  staticAccountKeys := m.staticAccountKeys
  recentBlockhash := m.recentBlockhash
  instructions := m.instructions
  addressTableLookups := m.lookups
  transactionConfig := if m.version = .v1 then some m.config.contents else none

variable {sanitized : Bool} {host : Endian} {m : Message} {d : Slice} {o : ℕ}

/-- The message stands in the buffer at an offset, and its end has a `u16` offset. -/
structure Stands (host : Endian) (d : Slice) (m : Message) (o : ℕ) : Prop where
  parseable : m.Parseable
  inside : o ≤ d.len
  at_ : At d.bytes o (m.encode host)
  end_lt : o + (m.encode host).length < 2 ^ 16

/-- What the readers of a view find, iterator by iterator. -/
structure MessageViewRef.Reads (host : Endian) (view : MessageViewRef sanitized) (m : Message) :
    Prop where
  version : view.version = m.version
  numRequiredSignatures : view.numRequiredSignatures = m.header.numRequiredSignatures
  numReadonlySigned :
    view.numReadonlySignedStaticAccounts = m.header.numReadonlySignedAccounts
  numReadonlyUnsigned :
    view.numReadonlyUnsignedStaticAccounts = m.header.numReadonlyUnsignedAccounts
  numStaticAccountKeys : view.numStaticAccountKeys = UInt8.ofNat m.staticAccountKeys.length
  numInstructions : view.numInstructions = UInt16.ofNat m.instructions.length
  numAddressTableLookups : view.numAddressTableLookups = UInt8.ofNat m.lookups.length
  totalWritable : view.totalWritableLookupAccounts = UInt16.ofNat (totalWritable m.lookups)
  totalReadonly : view.totalReadonlyLookupAccounts = UInt16.ofNat (totalReadonly m.lookups)
  staticAccountKeys : view.staticAccountKeys = .ok m.staticAccountKeys
  recentBlockhash : view.recentBlockhash = .ok m.recentBlockhash
  instructions : Drains (InstructionsIterator.next host) view.instructionsIter m.instructions
  lookups : Drains AddressTableLookupIterator.next view.addressTableLookupIter m.lookups
  config : view.configContents host =
    .ok (if m.version = .v1 then some m.config.contents else none)

theorem TransactionConfigView.contents_eq (host : Endian) {config : TransactionConfig} {mo vo : ℕ}
    (h : Placed d config mo vo) :
    contents host ⟨.ofConfig config mo vo, d⟩ = .ok config.contents := by
  have h₂ : computeUnitLimit host ⟨.ofConfig config mo vo, d⟩ = .ok (config.u32 2) :=
    u32_eq host h (by decide)
  have h₃ : loadedAccountsDataSizeLimit host ⟨.ofConfig config mo vo, d⟩ = .ok (config.u32 3) :=
    u32_eq host h (by decide)
  have h₄ : requestedHeapSize host ⟨.ofConfig config mo vo, d⟩ = .ok (config.u32 4) :=
    u32_eq host h (by decide)
  rw [contents, priorityFeeLamports_eq host h, h₂, h₃, h₄]
  rfl

theorem readKeys_eq {keys : List Pubkey} {k : ℕ} (hlt : keys.length < 256) (hk : k < 2 ^ 16)
    (hin : k ≤ d.len) (h : At d.bytes k (keys.flatMap Vector.toList)) :
    fromRawParts 32 d (UInt16.ofNat k).toNat (UInt8.ofNat keys.length).toNat = .ok keys := by
  have hn : (UInt8.ofNat keys.length).toNat = keys.length := UInt8.toNat_ofNat_of_lt hlt
  have hk' : (UInt16.ofNat k).toNat = k := UInt16.toNat_ofNat_of_lt hk
  rw [hn, hk']
  exact fromRawParts_eq hin h

theorem readHash_eq {hash : Hash} {k : ℕ} (hk : k < 2 ^ 16) (hin : k ≤ d.len)
    (h : At d.bytes k hash.toList) :
    (do let region ← rawRegion d (UInt16.ofNat k).toNat 32
        return Vector.ofFn fun i : Fin 32 => region.getD i default :
      Outcome TransactionViewError Hash) = .ok hash := by
  have hk' : (UInt16.ofNat k).toNat = k := UInt16.toNat_ofNat_of_lt hk
  have hr := rawRegion_eq hin h
  rw [Vector.length_toList] at hr
  have hv := ofFn_getD_toList hash []
  rw [List.append_nil] at hv
  rw [hk', hr]
  exact congrArg Except.ok hv

theorem reads_legacyOrV0 (hp : m.ParseableLegacyOrV0) (hin : o ≤ d.len)
    (hend : o + m.encodeLegacyOrV0.length < 2 ^ 16) (h : At d.bytes o m.encodeLegacyOrV0) :
    (⟨d, m.legacyOrV0Frame o⟩ : MessageViewRef sanitized).Reads host m := by
  obtain ⟨hat₁, hat₂, hat₃, hat₄, hat₅⟩ := Message.at_encodeLegacyOrV0.mp h
  have hi₁ : m.keysOffset o ≤ d.len := Slice.inside_of_at hat₁ hin
  have hi₂ : m.blockhashOffset o ≤ d.len := Slice.inside_of_at hat₂ hi₁
  have hi₃ : m.instructionsOffset o ≤ d.len := Slice.inside_of_at hat₃ hi₂
  have hi₄ : m.lookupsOffset o ≤ d.len := Slice.inside_of_at hat₄ hi₃
  have hlen := m.lookupsOffset_add o
  have hv := hp.version_ne
  have hkl := hp.keys_le
  have hcount : shortU16 m.staticAccountKeys.length = [UInt8.ofNat m.staticAccountKeys.length] :=
    shortU16_of_lt (by omega)
  rw [Message.countedKeyBytes, hcount, at_append, List.length_singleton] at hat₂
  have hk : m.keysOffset o + 1 ≤ d.len := Slice.inside_of_at hat₂.1 hi₁
  have hl₄ : m.instructionsOffset o + (encodeInstructions m.instructions).length < 2 ^ 16 := by
    rw [Message.lookupsOffset] at hlen
    omega
  have hl₃ : m.blockhashOffset o < 2 ^ 16 := by
    rw [Message.instructionsOffset] at hl₄
    omega
  have hl₂ : m.keysOffset o + 1 < 2 ^ 16 := by
    rw [Message.blockhashOffset, Message.countedKeyBytes, hcount, List.length_append,
      List.length_singleton] at hl₃
    omega
  have hdrain : Drains AddressTableLookupIterator.next ((m.lookupFrame o).iter d) m.lookups ∧
      m.lookupFrame o = ⟨UInt8.ofNat m.lookups.length, (m.lookupFrame o).offset,
        UInt16.ofNat (totalWritable m.lookups), UInt16.ofNat (totalReadonly m.lookups)⟩ := by
    by_cases h0 : m.version = .v0
    · rw [Message.lookupFrame, if_pos h0]
      rw [h0] at hat₅ hlen
      exact ⟨AddressTableLookupFrame.drains_ofLookups hp.lookups_le hp.lookups_compact hi₄
        (hlen ▸ hend) hat₅, rfl⟩
    · rw [Message.lookupFrame, if_neg h0, m.lookups_eq_nil h0]
      exact ⟨AddressTableLookupFrame.drains_empty, rfl⟩
  constructor
  case staticAccountKeys => exact readKeys_eq (by omega) hl₂ hk hat₂.2
  case recentBlockhash => exact readHash_eq hl₃ hi₂ hat₃
  case instructions =>
    exact InstructionsFrame.drains_ofInstructions hp.instructions_lt hp.instructions_compact hi₃
      hl₄ hat₄
  case lookups => exact hdrain.1
  case numAddressTableLookups =>
    exact congrArg AddressTableLookupFrame.numAddressTableLookups hdrain.2
  case totalWritable => exact congrArg AddressTableLookupFrame.totalWritableLookupAccounts hdrain.2
  case totalReadonly => exact congrArg AddressTableLookupFrame.totalReadonlyLookupAccounts hdrain.2
  case config =>
    rw [if_neg hv]
    rfl
  all_goals rfl

theorem reads_v1 (hp : m.ParseableV1) (hin : o ≤ d.len)
    (hend : o + (m.encodeV1 host).length < 2 ^ 16) (h : At d.bytes o (m.encodeV1 host)) :
    (⟨d, m.v1Frame o⟩ : MessageViewRef sanitized).Reads host m := by
  obtain ⟨hat₁, hat₂, hat₃, hat₄⟩ := Message.at_encodeV1.mp h
  obtain ⟨hkeys, hixs, hfit⟩ := m.fits_v1 hp.version
  have hv0 : m.version ≠ .v0 := by
    rw [hp.version]
    decide
  have hi₁ := Slice.inside_of_at hat₁ hin
  rw [m.v1FrontBytes_length] at hi₁
  have hi₂ : m.v1WordsOffset o ≤ d.len := Slice.inside_of_at hat₂ hi₁
  have hi₃ : m.v1InstructionsOffset o ≤ d.len := Slice.inside_of_at hat₃ hi₂
  have hlen := m.v1InstructionsOffset_add host o
  have hl₃ : m.v1InstructionsOffset o + (encodeV1Instructions m.instructions).length < 2 ^ 16 :=
    hlen ▸ hend
  have hl₂ : m.v1WordsOffset o < 2 ^ 16 := by
    rw [Message.v1InstructionsOffset] at hl₃
    omega
  have hl₁ : o + 42 < 2 ^ 16 := by
    rw [Message.v1WordsOffset] at hl₂
    omega
  obtain ⟨-, -, hat₅, -⟩ := at_encodeV1Front.mp hat₁
  have hplaced : TransactionConfigView.Placed d m.config (o + 4) (m.v1WordsOffset o) :=
    ⟨hp.mask, by omega, by omega, hl₂, hi₂, hat₃⟩
  have hempty : m.lookups = [] := m.lookups_eq_nil hv0
  constructor
  case version => exact hp.version.symm
  case staticAccountKeys => exact readKeys_eq hkeys hl₁ hi₁ hat₂
  case recentBlockhash => exact readHash_eq (by omega) (show o + 8 ≤ d.len by omega) hat₅
  case instructions => exact InstructionsFrame.drains_ofV1Instructions hixs hfit hi₃ hl₃ hat₄
  case config =>
    rw [if_pos hp.version, MessageViewRef.configContents, MessageViewRef.transactionConfig]
    simp only [Message.v1Frame, TransactionConfigView.isPresent_ofConfig hplaced.pos
      hplaced.mask_lt, ↓reduceIte, TransactionConfigView.contents_eq host hplaced]
    rfl
  case lookups =>
    rw [hempty]
    exact AddressTableLookupFrame.drains_empty
  case numAddressTableLookups =>
    rw [hempty]
    rfl
  case totalWritable =>
    rw [hempty]
    rfl
  case totalReadonly =>
    rw [hempty]
    rfl
  all_goals rfl

/-- A view over a buffer in which a parseable message stands reads that message. -/
theorem Stands.reads (h : Stands host d m o) (sanitized : Bool) :
    (⟨d, m.frame o⟩ : MessageViewRef sanitized).Reads host m := by
  obtain ⟨hp, hin, hat, hend⟩ := h
  by_cases hv : m.version = .v1
  · rw [Message.encode, if_pos hv] at hat hend
    rw [Message.frame, if_pos hv]
    exact reads_v1 ((if_pos hv).mp hp) hin hend hat
  · rw [Message.encode, if_neg hv] at hat hend
    rw [Message.frame, if_neg hv]
    exact reads_legacyOrV0 ((if_neg hv).mp hp) hin hend hat

theorem Message.Parseable.counts (hp : m.Parseable) : m.staticAccountKeys.length < 256 ∧
    m.instructions.length < 65536 ∧ m.lookups.length < 256 := by
  by_cases hv : m.version = .v1
  · obtain ⟨hkeys, hixs, -⟩ := m.fits_v1 hv
    have hempty : m.lookups = [] := m.lookups_eq_nil (by rw [hv]; decide)
    exact ⟨hkeys, by omega, by rw [hempty]; decide⟩
  · have hp := (if_neg hv).mp hp
    have hk := hp.keys_le
    have hx := hp.instructions_lt
    have hl := hp.lookups_le
    exact ⟨by omega, by omega, by omega⟩

theorem InstructionsIterator.len_iter (d : Slice) (f : InstructionsFrame) :
    (f.iter d).len = f.numInstructions.toNat := by
  cases f with
  | legacyAndV0 => simp [InstructionsFrame.iter, len, InstructionsFrame.numInstructions]
  | v1 => simp [InstructionsFrame.iter, len, InstructionsFrame.numInstructions]

namespace MessageViewRef

variable {view : MessageViewRef sanitized}

theorem instructionsIter_len (h : view.Reads host m) (hp : m.Parseable) :
    view.instructionsIter.len = m.instructions.length := by
  rw [instructionsIter, InstructionsIterator.len_iter]
  change view.numInstructions.toNat = _
  rw [h.numInstructions]
  exact UInt16.toNat_ofNat_of_lt hp.counts.2.1

theorem addressTableLookupIter_len (h : view.Reads host m) (hp : m.Parseable) :
    view.addressTableLookupIter.len = m.lookups.length := by
  change (view.numAddressTableLookups - 0).toNat = _
  rw [UInt8.sub_zero, h.numAddressTableLookups]
  exact UInt8.toNat_ofNat_of_lt hp.counts.2.2

theorem collect_instructions (h : view.Reads host m) (hp : m.Parseable) :
    view.instructionsIter.collect host = .ok m.instructions := by
  apply h.instructions.collect_eq
  rw [instructionsIter_len h hp]
  exact Nat.lt_succ_self _

theorem collect_lookups (h : view.Reads host m) (hp : m.Parseable) :
    view.addressTableLookupIter.collect = .ok m.lookups := by
  apply h.lookups.collect_eq
  rw [addressTableLookupIter_len h hp]
  exact Nat.lt_succ_self _

/-- Every accessor returns, and together they return the message. -/
theorem Reads.contents_eq (h : view.Reads host m) (hp : m.Parseable) :
    view.contents host = .ok m.contents := by
  simp only [contents, h.version, h.numRequiredSignatures, h.numReadonlySigned,
    h.numReadonlyUnsigned, h.numStaticAccountKeys, h.numInstructions, h.numAddressTableLookups,
    h.totalWritable, h.totalReadonly, h.staticAccountKeys, h.recentBlockhash,
    collect_instructions h hp, collect_lookups h hp, h.config]
  rfl

end MessageViewRef

end AgaveSdk.TxView
