import AgaveSdk.TransactionView.Decoding
import AgaveSdk.TransactionView.Sanitize

/-! What the sanitize checks say about the message that a view shows. -/
namespace AgaveSdk.TxView
open FallibleState Segments ByteOrder Draining

namespace Message

/-- The accounts an instruction can name: static keys and every looked-up account. -/
def numAccounts (m : Message) : ℕ :=
  m.staticAccountKeys.length + totalWritable m.lookups + totalReadonly m.lookups

/-- The rules that only concern the message. -/
structure BodyValid (m : Message) : Prop where
  signatures_pos : 1 ≤ m.header.numRequiredSignatures.toNat
  readonlySigned_lt :
    m.header.numReadonlySignedAccounts.toNat < m.header.numRequiredSignatures.toNat
  unsigned_le : m.header.numRequiredSignatures.toNat + m.header.numReadonlyUnsignedAccounts.toNat ≤
    m.staticAccountKeys.length
  accounts_le : m.version ≠ .v1 → m.numAccounts ≤ 256
  programs : ∀ ix ∈ m.instructions,
    1 ≤ ix.programIdIndex.toNat ∧ ix.programIdIndex.toNat < m.staticAccountKeys.length
  accounts : ∀ ix ∈ m.instructions, ∀ i ∈ ix.accounts, i.toNat < m.numAccounts
  lookups : ∀ l ∈ m.lookups, l.writableIndexes ≠ [] ∨ l.readonlyIndexes ≠ []

end Message

variable {host : Endian} {m : Message} {d : Slice} {o : ℕ} {view : UnsanitizedMessageViewRef}

@[simp] theorem rejectInsane_ok {c : Prop} [Decidable c] {u : Unit} :
    rejectInsane c = .ok u ↔ ¬ c := outcome_failIf_ok

theorem noFault_rejectInsane (c : Prop) [Decidable c] : NoFault (rejectInsane c) :=
  noFault_failIf c _

theorem isLegacyOrV0_iff (v : TransactionVersion) : isLegacyOrV0 v = true ↔ v ≠ .v1 := by
  cases v <;> simp [isLegacyOrV0]

theorem Stands.totals_lt (h : Stands host d m o) :
    totalWritable m.lookups + totalReadonly m.lookups < 2 ^ 16 := by
  by_cases hv : m.version = .v1
  · rw [m.lookups_eq_nil (by rw [hv]; decide)]
    decide
  · have hend := h.end_lt
    have htot := totals_le_lookupBytes m.lookups_eq_nil
    have hlen := m.lookupsOffset_add o
    rw [Message.encode, if_neg hv] at hend
    omega

/-- The checks of the counts in the header, with the subtraction of `u8` values. -/
theorem header_counts_iff {r rs ru k : UInt8} :
    ((¬ r < 1 ∧ ¬ rs ≥ r ∧ ¬ ru > k - r) ∧ ¬ k < r) ↔
      1 ≤ r.toNat ∧ rs.toNat < r.toNat ∧ r.toNat + ru.toNat ≤ k.toNat := by
  have hr := r.toNat_lt
  have hk := k.toNat_lt
  have hru := ru.toNat_lt
  simp only [UInt8.lt_iff_toNat_lt, UInt8.le_iff_toNat_le, ge_iff_le, gt_iff_lt, not_lt, not_le,
    UInt8.toNat_sub]
  change (1 ≤ r.toNat ∧ _) ∧ _ ↔ _
  constructor
  · rintro ⟨⟨h₁, h₂, h₃⟩, h₄⟩
    exact ⟨h₁, h₂, by omega⟩
  · rintro ⟨h₁, h₂, h₃⟩
    exact ⟨⟨h₁, h₂, by omega⟩, by omega⟩

theorem sanitizeMessageHeader_ok : sanitizeMessageHeader view = .ok () ↔
    ¬ view.numRequiredSignatures < 1 ∧
    ¬ view.numReadonlySignedStaticAccounts ≥ view.numRequiredSignatures ∧
    ¬ view.numReadonlyUnsignedStaticAccounts >
      view.numStaticAccountKeys - view.numRequiredSignatures := by
  simp only [sanitizeMessageHeader, outcome_bind_ok, rejectInsane_ok]
  constructor
  · rintro ⟨_, h₁, _, h₂, h₃⟩
    exact ⟨h₁, h₂, h₃⟩
  · rintro ⟨h₁, h₂, h₃⟩
    exact ⟨(), h₁, (), h₂, h₃⟩

theorem saturatingAdd_toNat (x y : UInt16) :
    (saturatingAdd x y).toNat = min (x.toNat + y.toNat) 65535 := by
  rw [saturatingAdd, UInt16.toNat_ofNat']
  omega

/-- The total number of accounts, up to where a `u16` saturates. -/
theorem totalNumberOfAccounts_toNat (h : view.Reads host m) (hp : m.Parseable)
    (ht : totalWritable m.lookups + totalReadonly m.lookups < 2 ^ 16) :
    (totalNumberOfAccounts view).toNat = min m.numAccounts 65535 := by
  have hk := hp.counts.1
  have hn : (UInt8.ofNat m.staticAccountKeys.length).toNat = m.staticAccountKeys.length :=
    UInt8.toNat_ofNat_of_lt hk
  rw [totalNumberOfAccounts, saturatingAdd_toNat, saturatingAdd_toNat, h.numStaticAccountKeys,
    h.totalWritable, h.totalReadonly, UInt8.toNat_toUInt16, hn, UInt16.toNat_ofNat',
    UInt16.toNat_ofNat', Message.numAccounts]
  omega

theorem sanitizeAccountAccess_ok (h : view.Reads host m) (hp : m.Parseable)
    (ht : totalWritable m.lookups + totalReadonly m.lookups < 2 ^ 16) :
    sanitizeAccountAccess view = .ok () ↔ (m.version ≠ .v1 → m.numAccounts ≤ 256) := by
  have htotal := totalNumberOfAccounts_toNat h hp ht
  rw [sanitizeAccountAccess, rejectInsane_ok, h.version, isLegacyOrV0_iff, not_and, gt_iff_lt,
    UInt16.lt_iff_toNat_lt, htotal]
  change (_ → ¬ 256 < _) ↔ _
  apply forall_congr'
  intro _
  omega

theorem sanitizeInstruction_ok {maxProgram maxAccount : UInt8} {ix : SVMInstruction} :
    sanitizeInstruction maxProgram maxAccount ix = .ok () ↔
      ix.programIdIndex.toNat ≤ maxProgram.toNat ∧ 1 ≤ ix.programIdIndex.toNat ∧
      ∀ i ∈ ix.accounts, i.toNat ≤ maxAccount.toNat := by
  simp only [sanitizeInstruction, outcome_bind_ok, rejectInsane_ok, forM_ok, gt_iff_lt,
    UInt8.lt_iff_toNat_lt, not_lt, byte_ne_zero_iff]
  constructor
  · rintro ⟨_, h₁, _, h₂, h₃⟩
    exact ⟨h₁, h₂, h₃⟩
  · rintro ⟨h₁, h₂, h₃⟩
    exact ⟨(), h₁, (), h₂, h₃⟩

theorem sanitizeInstructions_eq (h : view.Reads host m) (hp : m.Parseable) :
    sanitizeInstructions host view = forM m.instructions (sanitizeInstruction
      (view.numStaticAccountKeys - 1) (totalNumberOfAccounts view - 1).toUInt8) := by
  apply h.instructions.forEach_eq
  rw [MessageViewRef.instructionsIter_len h hp]
  exact Nat.lt_succ_self _

theorem sanitizeAddressTableLookups_eq (h : view.Reads host m) (hp : m.Parseable) :
    sanitizeAddressTableLookups view = forM m.lookups sanitizeAddressTableLookup := by
  apply h.lookups.forEach_eq
  rw [MessageViewRef.addressTableLookupIter_len h hp]
  exact Nat.lt_succ_self _

/-- With at least one key and at most 256 accounts, the `u8` maxima are exact. -/
theorem sanitizeInstructions_ok (h : view.Reads host m) (hp : m.Parseable)
    (hkeys : 1 ≤ m.staticAccountKeys.length) (hle : m.numAccounts ≤ 256)
    (ht : totalWritable m.lookups + totalReadonly m.lookups < 2 ^ 16) :
    sanitizeInstructions host view = .ok () ↔
      (∀ ix ∈ m.instructions,
        1 ≤ ix.programIdIndex.toNat ∧ ix.programIdIndex.toNat < m.staticAccountKeys.length) ∧
      ∀ ix ∈ m.instructions, ∀ i ∈ ix.accounts, i.toNat < m.numAccounts := by
  have hk := hp.counts.1
  have hn : (UInt8.ofNat m.staticAccountKeys.length).toNat = m.staticAccountKeys.length :=
    UInt8.toNat_ofNat_of_lt hk
  have hpos : m.staticAccountKeys.length ≤ m.numAccounts := by
    rw [Message.numAccounts, Nat.add_assoc]
    exact Nat.le_add_right _ _
  have hprogram : (view.numStaticAccountKeys - 1).toNat = m.staticAccountKeys.length - 1 := by
    rw [h.numStaticAccountKeys, UInt8.toNat_sub, hn]
    change (256 - 1 + _) % 256 = _
    omega
  have haccount : (totalNumberOfAccounts view - 1).toUInt8.toNat = m.numAccounts - 1 := by
    rw [UInt16.toNat_toUInt8, UInt16.toNat_sub, totalNumberOfAccounts_toNat h hp ht]
    change (65536 - 1 + _) % 65536 % 256 = _
    omega
  rw [sanitizeInstructions_eq h hp, forM_ok, ← forall₂_and]
  apply forall₂_congr
  intro ix _
  rw [sanitizeInstruction_ok, hprogram, haccount]
  constructor
  · rintro ⟨h₁, h₂, h₃⟩
    refine ⟨⟨h₂, by omega⟩, fun i hi => ?_⟩
    have := h₃ i hi
    omega
  · rintro ⟨⟨h₁, h₂⟩, h₃⟩
    refine ⟨by omega, h₁, fun i hi => ?_⟩
    have := h₃ i hi
    omega

theorem sanitizeAddressTableLookups_ok (h : view.Reads host m) (hp : m.Parseable) :
    sanitizeAddressTableLookups view = .ok () ↔
      ∀ l ∈ m.lookups, l.writableIndexes ≠ [] ∨ l.readonlyIndexes ≠ [] := by
  rw [sanitizeAddressTableLookups_eq h hp, forM_ok]
  apply forall₂_congr
  intro l _
  rw [sanitizeAddressTableLookup, rejectInsane_ok, List.isEmpty_iff, List.isEmpty_iff]
  tauto

/-- The bound on the accounts is only checked for legacy and v0. A v1 message has no lookups, so
its accounts are its keys. -/
theorem Message.Parseable.numAccounts_le (hp : m.Parseable)
    (hv : m.version ≠ .v1 → m.numAccounts ≤ 256) : m.numAccounts ≤ 256 := by
  by_cases hversion : m.version = .v1
  · rw [numAccounts, m.lookups_eq_nil (by rw [hversion]; decide)]
    exact hp.counts.1.le
  · exact hv hversion

/-- The body checks pass exactly on the messages that obey the rules. -/
theorem sanitizeMessageBody_ok (h : view.Reads host m) (hp : m.Parseable)
    (ht : totalWritable m.lookups + totalReadonly m.lookups < 2 ^ 16) :
    sanitizeMessageBody host view = .ok () ↔ m.BodyValid := by
  have hk := hp.counts.1
  have hn : (UInt8.ofNat m.staticAccountKeys.length).toNat = m.staticAccountKeys.length :=
    UInt8.toNat_ofNat_of_lt hk
  have hheader : (sanitizeMessageHeader view = .ok () ∧ sanitizeRequiredSignatures view = .ok ()) ↔
      1 ≤ m.header.numRequiredSignatures.toNat ∧
      m.header.numReadonlySignedAccounts.toNat < m.header.numRequiredSignatures.toNat ∧
      m.header.numRequiredSignatures.toNat + m.header.numReadonlyUnsignedAccounts.toNat ≤
        m.staticAccountKeys.length := by
    rw [sanitizeMessageHeader_ok, sanitizeRequiredSignatures, rejectInsane_ok, header_counts_iff,
      h.numRequiredSignatures, h.numReadonlySigned, h.numReadonlyUnsigned, h.numStaticAccountKeys,
      hn]
  simp only [sanitizeMessageBody, outcome_bind_ok]
  constructor
  · rintro ⟨_, h₁, _, h₂, _, h₃, _, h₄, h₅⟩
    obtain ⟨hr, hrs, hru⟩ := hheader.mp ⟨h₁, h₂⟩
    have h₃ := (sanitizeAccountAccess_ok h hp ht).mp h₃
    obtain ⟨h₄, h₄'⟩ := (sanitizeInstructions_ok h hp (by omega) (hp.numAccounts_le h₃) ht).mp h₄
    exact ⟨hr, hrs, hru, h₃, h₄, h₄', (sanitizeAddressTableLookups_ok h hp).mp h₅⟩
  · intro hb
    obtain ⟨h₁, h₂⟩ := hheader.mpr ⟨hb.signatures_pos, hb.readonlySigned_lt, hb.unsigned_le⟩
    have hpos := hb.signatures_pos
    have hun := hb.unsigned_le
    exact ⟨(), h₁, (), h₂, (), (sanitizeAccountAccess_ok h hp ht).mpr hb.accounts_le, (),
      (sanitizeInstructions_ok h hp (by omega) (hp.numAccounts_le hb.accounts_le) ht).mpr
        ⟨hb.programs, hb.accounts⟩, (sanitizeAddressTableLookups_ok h hp).mpr hb.lookups⟩

theorem noFault_sanitizeMessageBody (h : view.Reads host m) (hp : m.Parseable) :
    NoFault (sanitizeMessageBody host view) := by
  apply NoFault.bind
  · exact (noFault_rejectInsane _).bind fun _ _ => (noFault_rejectInsane _).bind fun _ _ =>
      noFault_rejectInsane _
  intro _ _
  apply (noFault_rejectInsane _).bind
  intro _ _
  apply (noFault_rejectInsane _).bind
  intro _ _
  rw [sanitizeInstructions_eq h hp, sanitizeAddressTableLookups_eq h hp]
  apply NoFault.bind
  · apply forM_noFault
    intro ix _
    exact (noFault_rejectInsane _).bind fun _ _ => (noFault_rejectInsane _).bind fun _ _ =>
      forM_noFault fun _ _ => noFault_rejectInsane _
  · intro _ _
    apply forM_noFault
    intro l _
    exact noFault_rejectInsane _

end AgaveSdk.TxView
