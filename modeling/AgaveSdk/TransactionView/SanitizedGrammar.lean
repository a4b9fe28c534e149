import AgaveSdk.TransactionView.UncheckedAccess

/-! The sanitized parser accepts exactly the encodings of valid transactions: for these the limits
of the unsanitized parser, which are derived from the packet size, hold by themselves. -/
namespace AgaveSdk.TxView
open FallibleState Segments ByteOrder

variable {host : Endian} {b : Slice} {tx : Transaction} {m : Message} {o len : ℕ}

theorem length_le_flatMap {α : Type} {f : α → List UInt8} {l : List α} {a : α} (h : a ∈ l) :
    (f a).length ≤ (l.flatMap f).length := by
  rw [List.flatMap_def]
  exact (List.sublist_flatten_of_mem (List.mem_map_of_mem h)).length_le

/-- With an index in each lookup, the smallest lookup is as large as the parser expects. -/
theorem lookups_length_ge {lookups : List SVMMessageAddressTableLookup}
    (h : ∀ l ∈ lookups, l.writableIndexes ≠ [] ∨ l.readonlyIndexes ≠ []) :
    35 * lookups.length ≤ (lookups.flatMap SVMMessageAddressTableLookup.encode).length := by
  have htotals := totals_add_le lookups
  have hcount : lookups.length ≤ totalWritable lookups + totalReadonly lookups := by
    clear htotals
    induction lookups with
    | nil => exact Nat.zero_le _
    | cons l lookups ih =>
      have hl : 1 ≤ l.writableIndexes.length + l.readonlyIndexes.length := by
        rcases h l List.mem_cons_self with hw | hr
        · have := List.length_pos_iff.mpr hw
          omega
        · have := List.length_pos_iff.mpr hr
          omega
      have ih := ih fun x hx => h x (List.mem_cons_of_mem _ hx)
      simp only [totalWritable, totalReadonly, List.map_cons, List.sum_cons,
        List.length_cons] at ih ⊢
      omega
  omega

namespace Message

theorem encodeLegacyOrV0_length (m : Message) : m.encodeLegacyOrV0.length =
    (versionBytes m.version).length + 3 + (shortU16 m.staticAccountKeys.length).length +
      32 * m.staticAccountKeys.length + 32 + (shortU16 m.instructions.length).length +
      (m.instructions.flatMap SVMInstruction.encode).length +
      (lookupBytes m.lookups m.version).length := by
  simp only [encodeLegacyOrV0, headerBytes, MessageHeader.encode, countedKeyBytes, keyBytes,
    encodeInstructions, List.length_append, flatMap_toList_length, Vector.length_toList,
    List.length_cons, List.length_nil]
  omega

theorem lookupBytes_length_ge (hb : m.BodyValid) (hv : m.version = .v0) :
    1 + 35 * m.lookups.length ≤ (lookupBytes m.lookups m.version).length := by
  have hge := lookups_length_ge hb.lookups
  have hcount := shortU16_length_pos m.lookups.length
  rw [hv, lookupBytes, encodeLookups, List.length_append]
  omega

/-- The lookups of a valid message are never smaller than the parser expects. -/
theorem BodyValid.lookupsFit (hb : m.BodyValid) (hlen : o + (m.encode host).length ≤ len) :
    m.LookupsFit o len := by
  intro hv
  have hne : m.version ≠ .v1 := TransactionVersion.ne_v1_iff.mpr (.inr hv)
  have hoff := m.lookupsOffset_add o
  have hge := lookupBytes_length_ge hb hv
  rw [encode, if_neg hne] at hlen
  omega

/-- The parser loses no valid legacy or v0 message that fits a packet with its signatures. -/
theorem Valid.parseableLegacyOrV0 (hv : m.version ≠ .v1) (h : m.Valid host) :
    m.ParseableLegacyOrV0 := by
  have hsize := h.size hv
  have hlen := m.encodeLegacyOrV0_length
  have hr := h.body.signatures_pos
  have hkeys := h.body.unsigned_le
  have hthree := SVMInstruction.three_mul_le_encode_length m.instructions
  have hcount₁ := shortU16_length_pos m.staticAccountKeys.length
  have hcount₂ := shortU16_length_pos m.instructions.length
  rw [encode, if_neg hv, packetDataSize] at hsize
  constructor
  case version =>
    cases hversion : m.version with
    | legacy => exact .inl ⟨rfl, by omega⟩
    | v0 => exact .inr rfl
    | v1 => exact absurd hversion hv
  case keys_pos => omega
  case keys_le => omega
  case instructions_lt => omega
  case instructions_compact =>
    intro ix hix
    have hle := length_le_flatMap (f := SVMInstruction.encode) hix
    simp only [SVMInstruction.encode, counted, List.length_append, List.length_singleton]
      at hle hlen
    constructor
    · omega
    · omega
  case lookups_le =>
    by_cases h0 : m.version = .v0
    · have hge := lookupBytes_length_ge h.body h0
      have hv0 : (versionBytes m.version).length = 1 := by rw [h0]; rfl
      omega
    · rw [m.lookups_eq_nil h0]
      exact Nat.zero_le _
  case lookups_compact =>
    intro l hl
    by_cases h0 : m.version = .v0
    · have hle := length_le_flatMap (f := SVMMessageAddressTableLookup.encode) hl
      simp only [SVMMessageAddressTableLookup.encode, counted, List.length_append] at hle
      rw [h0, lookupBytes, encodeLookups, List.length_append] at hlen
      constructor
      · omega
      · omega
    · rw [m.lookups_eq_nil h0] at hl
      exact absurd hl List.not_mem_nil

end Message

/-- The conditions of the unsanitized parser follow for a valid legacy or v0 transaction. -/
theorem Transaction.Valid.parseable (hv : tx.message.version ≠ .v1) (h : tx.Valid host) :
    tx.Parseable := by
  have hsize := h.size hv
  have hsigs := h.signatures
  have hpos := h.body.signatures_pos
  have hcount := shortU16_length_pos tx.signatures.length
  rw [encode, leading, if_neg hv, trailing, if_neg hv, List.append_nil, List.length_append,
    List.length_append, signatureBytes, flatMap_toList_length] at hsize
  have hm : tx.message.Valid host := ⟨fun _ => by omega, h.body⟩
  have hlt : tx.signatures.length < 128 := by
    rw [packetDataSize] at hsize
    omega
  exact ⟨(if_neg hv).mpr (hm.parseableLegacyOrV0 hv), fun _ => ⟨by omega, hlt⟩⟩

theorem Transaction.Valid.lookupsFit (h : tx.Valid host) (hlen : (tx.encode host).length ≤ len) :
    tx.LookupsFit len := by
  rw [encode, List.length_append, List.length_append] at hlen
  exact h.body.lookupsFit (show tx.leading.length + (tx.message.encode host).length ≤ len by omega)

/-- A parseable valid transaction that takes less than 65536 bytes is accepted, and the view
decodes it. -/
theorem sanitized_of_valid (hp : tx.Parseable) (hvalid : tx.Valid host)
    (hlt : (tx.encode host).length < 2 ^ 16) (hb : b.bytes = tx.encode host) :
    ∃ view, TransactionView.tryNewSanitized host b = .ok view ∧
      view.version = tx.message.version ∧ view.signatures = .ok tx.signatures ∧
      view.contents host = .ok tx.message.contents := by
  have hstart : StartsWith host b tx := ⟨hp, hb ▸ List.prefix_refl _, hlt⟩
  obtain ⟨d, hs⟩ := hstart.shows true
  have hlen : (tx.encode host).length ≤ b.len := by rw [Slice.len, hb]
  exact ⟨_, TransactionView.tryNewSanitized_ok.mpr
    ⟨tx, hstart, hvalid.lookupsFit hlen, hb, hvalid, rfl⟩, hs.version_eq, hs.signatures,
    hs.contents_eq⟩

/-- An accepted buffer is the encoding of a valid transaction of the same version. -/
theorem valid_of_sanitized {view : TransactionView true}
    (h : TransactionView.tryNewSanitized host b = .ok view) :
    ∃ tx, StartsWith host b tx ∧ b.bytes = tx.encode host ∧ tx.Valid host ∧
      view.version = tx.message.version := by
  obtain ⟨tx, hstart, -, hb, hvalid, rfl⟩ := TransactionView.tryNewSanitized_ok.mp h
  obtain ⟨d, hs⟩ := hstart.shows true
  exact ⟨tx, hstart, hb, hvalid, hs.version_eq⟩

/-- The sanitized parser accepts as legacy or v0 exactly the encodings of valid legacy and v0
transactions, and decodes every one of them. -/
theorem sanitized_legacyOrV0_grammar (host : Endian) (b : Slice) :
    ((∃ view, TransactionView.tryNewSanitized host b = .ok view ∧
        (view.version = .legacy ∨ view.version = .v0)) ↔
      ∃ tx : Transaction, (tx.message.version = .legacy ∨ tx.message.version = .v0) ∧
        b.bytes = tx.encode host ∧ tx.Valid host) ∧
    ∀ tx : Transaction, (tx.message.version = .legacy ∨ tx.message.version = .v0) →
      b.bytes = tx.encode host → tx.Valid host →
      ∃ view, TransactionView.tryNewSanitized host b = .ok view ∧
        view.version = tx.message.version ∧ view.signatures = .ok tx.signatures ∧
        view.contents host = .ok tx.message.contents := by
  have hdecode (tx : Transaction) (hv : tx.message.version = .legacy ∨ tx.message.version = .v0)
      (hb : b.bytes = tx.encode host) (hvalid : tx.Valid host) :
      ∃ view, TransactionView.tryNewSanitized host b = .ok view ∧
        view.version = tx.message.version ∧ view.signatures = .ok tx.signatures ∧
        view.contents host = .ok tx.message.contents := by
    have hne := TransactionVersion.ne_v1_iff.mpr hv
    have hsize := hvalid.size hne
    rw [packetDataSize] at hsize
    exact sanitized_of_valid (hvalid.parseable hne) hvalid (by omega) hb
  refine ⟨⟨?_, ?_⟩, hdecode⟩
  · rintro ⟨view, h, hv⟩
    obtain ⟨tx, -, hb, hvalid, hversion⟩ := valid_of_sanitized h
    rw [hversion] at hv
    exact ⟨tx, hv, hb, hvalid⟩
  · rintro ⟨tx, hv, hb, hvalid⟩
    obtain ⟨view, h, hversion, -⟩ := hdecode tx hv hb hvalid
    rw [← hversion] at hv
    exact ⟨view, h, hv⟩

theorem sample_valid : sampleTransaction.Valid .little where
  size _ := by decide +kernel
  signatures := by decide
  body := {
    signatures_pos := by decide
    readonlySigned_lt := by decide
    unsigned_le := by decide
    accounts_le := by decide
    programs := by decide
    accounts := by
      intro ix hix i hi
      rw [List.mem_singleton.mp hix] at hi
      rw [List.mem_singleton.mp hi]
      decide
    lookups := fun _ hl => absurd hl List.not_mem_nil }

theorem sample_decoded :
    ∃ view, TransactionView.tryNewSanitized .little sampleBytes = .ok view ∧
      view.version = .legacy ∧ view.signatures = .ok sampleTransaction.signatures ∧
      view.contents .little = .ok sampleTransaction.message.contents :=
  (sanitized_legacyOrV0_grammar .little sampleBytes).2 sampleTransaction (.inl rfl) rfl sample_valid

/-- The sanitized parser accepts as v1 exactly the encodings of valid v1 transactions with a known
config mask and less than 65536 bytes, and decodes every one of them. -/
theorem sanitized_v1_grammar (b : Slice) :
    ((∃ view, TransactionView.tryNewSanitized .little b = .ok view ∧ view.version = .v1) ↔
      ∃ tx : Transaction, tx.message.version = .v1 ∧ b.bytes = tx.encode .little ∧
        b.len ≤ 65535 ∧ TransactionConfig.MaskValid tx.message.config.mask ∧ tx.Valid .little) ∧
    ∀ tx : Transaction, tx.message.version = .v1 → b.bytes = tx.encode .little →
      b.len ≤ 65535 → TransactionConfig.MaskValid tx.message.config.mask → tx.Valid .little →
      ∃ view, TransactionView.tryNewSanitized .little b = .ok view ∧ view.version = .v1 ∧
        view.signatures = .ok tx.signatures ∧
        view.contents .little = .ok tx.message.contents := by
  have hdecode (tx : Transaction) (hv : tx.message.version = .v1)
      (hb : b.bytes = tx.encode .little) (hlen : b.len ≤ 65535)
      (hmask : TransactionConfig.MaskValid tx.message.config.mask) (hvalid : tx.Valid .little) :
      ∃ view, TransactionView.tryNewSanitized .little b = .ok view ∧ view.version = .v1 ∧
        view.signatures = .ok tx.signatures ∧
        view.contents .little = .ok tx.message.contents := by
    have hp : tx.Parseable := ⟨(if_pos hv).mpr ⟨hv, hmask⟩, fun h => absurd hv h⟩
    rw [Slice.len, hb] at hlen
    rw [← hv]
    exact sanitized_of_valid hp hvalid (by omega) hb
  refine ⟨⟨?_, ?_⟩, hdecode⟩
  · rintro ⟨view, h, hv⟩
    obtain ⟨tx, hstart, hb, hvalid, hversion⟩ := valid_of_sanitized h
    rw [hversion] at hv
    have hp : tx.message.ParseableV1 := (if_pos hv).mp hstart.parseable.message
    have hlt := hstart.length_lt
    have hlen : b.len ≤ 65535 := by
      rw [Slice.len, hb]
      omega
    exact ⟨tx, hv, hb, hlen, hp.mask, hvalid⟩
  · rintro ⟨tx, hv, hb, hlen, hmask, hvalid⟩
    obtain ⟨view, h, hversion, -⟩ := hdecode tx hv hb hlen hmask hvalid
    exact ⟨view, h, hversion⟩

/-- A v1 transaction with a priority fee and a compute unit limit. -/
def sampleV1Transaction : Transaction where
  signatures := [Vector.replicate 64 1]
  message := {
    version := .v1
    header := ⟨1, 0, 1⟩
    staticAccountKeys := [Vector.replicate 32 2, Vector.replicate 32 3]
    recentBlockhash := Vector.replicate 32 4
    instructions := [⟨1, [0], [5]⟩]
    lookups := []
    config := ⟨7, [Vector.replicate 4 6, Vector.replicate 4 7, Vector.replicate 4 8],
      by decide +kernel⟩
    lookups_eq_nil := fun _ => rfl
    config_eq_empty := fun h => absurd rfl h
    fits_v1 := fun _ => by decide }
  signatures_v1 := fun _ => by decide

def sampleV1Bytes : Slice := ⟨sampleV1Transaction.encode .little, by decide +kernel⟩

theorem sampleV1_valid : sampleV1Transaction.Valid .little where
  size h := absurd rfl h
  signatures := by decide
  body := {
    signatures_pos := by decide
    readonlySigned_lt := by decide
    unsigned_le := by decide
    accounts_le := fun h => absurd rfl h
    programs := by decide
    accounts := by
      intro ix hix i hi
      rw [List.mem_singleton.mp hix] at hi
      rw [List.mem_singleton.mp hi]
      decide
    lookups := fun _ hl => absurd hl List.not_mem_nil }

theorem sampleV1_decoded :
    ∃ view, TransactionView.tryNewSanitized .little sampleV1Bytes = .ok view ∧
      view.version = .v1 ∧ view.signatures = .ok sampleV1Transaction.signatures ∧
      view.contents .little = .ok sampleV1Transaction.message.contents :=
  (sanitized_v1_grammar sampleV1Bytes).2 sampleV1Transaction rfl rfl (by decide +kernel)
    (by decide +kernel) sampleV1_valid

end AgaveSdk.TxView
