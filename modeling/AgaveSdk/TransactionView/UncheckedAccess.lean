import AgaveSdk.TransactionView.Acceptance

/-! Why the unchecked reads of a view are in bounds: what a successful parse has established. -/
namespace AgaveSdk.TxView
open FallibleState Segments ByteOrder

variable {sanitized : Bool} {host : Endian} {b : Slice} {c : Cursor} {tx : Transaction}
  {m : Message} {o : ℕ}

/-- The parse that ended with this cursor had reached every offset the frame holds, and none of
its bounds checks subtracted more than the length of the slice. -/
structure Traced (b : Slice) (c : Cursor) (offsets : List (OffsetField × UInt16)) : Prop where
  stored : c.stored = offsets.map fun entry => (entry.1, entry.2.toNat)
  checks : ∀ check ∈ c.checks,
    check.1 ≤ b.len ∧ wrappingSub b.len check.1 = b.len - check.1

/-- Every accessor of the message returns, and the iterators yield as many items as are
announced. A read outside the buffer of the message would be a fault. -/
def Accessible (contents : Outcome TransactionViewError MessageContents) : Prop :=
  ∃ x, contents = .ok x ∧ x.instructions.length = x.numInstructions.toNat ∧
    x.addressTableLookups.length = x.numAddressTableLookups.toNat

namespace Message

/-- Truncation to `u16` keeps the offsets of a legacy or v0 message that ends below 65536. -/
theorem legacyOrV0Offsets_eq (hp : m.ParseableLegacyOrV0)
    (hend : o + m.encodeLegacyOrV0.length < 2 ^ 16) : m.legacyOrV0Offsets o =
      (m.legacyOrV0Frame o).storedOffsets.map fun entry => (entry.1, entry.2.toNat) := by
  have hlen := m.lookupsOffset_add o
  have hixs : (encodeInstructions m.instructions).length =
      (shortU16 m.instructions.length).length +
        (m.instructions.flatMap SVMInstruction.encode).length := List.length_append
  have hkeys := shortU16_length_pos m.staticAccountKeys.length
  have hcounted : m.countedKeyBytes.length =
      (shortU16 m.staticAccountKeys.length).length + m.keyBytes.length := List.length_append
  simp only [lookupsOffset, instructionsOffset, blockhashOffset, keysOffset] at hlen
  have hfields : (m.legacyOrV0Frame o).messageHeader.offset.toNat = o ∧
      (m.legacyOrV0Frame o).staticAccountKeys.offset.toNat = m.keysOffset o + 1 ∧
      (m.legacyOrV0Frame o).recentBlockhashOffset.toNat = m.blockhashOffset o ∧
      (m.legacyOrV0Frame o).endOffset.toNat = o + m.encodeLegacyOrV0.length := by
    simp only [legacyOrV0Frame, MessageHeader.frame, UInt16.toNat_ofNat', blockhashOffset,
      keysOffset]
    omega
  have hinstructions : (MessageFrame.instructionOffsets (m.legacyOrV0Frame o).instructions).map
      (fun entry => (entry.1, entry.2.toNat)) = [(.instructions,
        m.instructionsOffset o + (shortU16 m.instructions.length).length)] := by
    simp only [legacyOrV0Frame, InstructionsFrame.ofInstructions, List.map_cons, List.map_nil,
      MessageFrame.instructionOffsets, UInt16.toNat_ofNat', instructionsOffset, blockhashOffset,
      keysOffset]
    rw [Nat.mod_eq_of_lt (by omega)]
  obtain ⟨h₁, h₂, h₃, h₄⟩ := hfields
  rcases hp.version with ⟨hv, -⟩ | hv
  · have hframe : (m.legacyOrV0Frame o).version = .legacy := hv
    simp only [MessageFrame.storedOffsets, hframe, List.map_append, List.map_cons, List.map_nil,
      h₁, h₂, h₃, h₄, hinstructions]
    simp [legacyOrV0Offsets, hv]
  · have hframe : (m.legacyOrV0Frame o).version = .v0 := hv
    have hlookups : (lookupBytes m.lookups m.version).length =
        (shortU16 m.lookups.length).length +
          (m.lookups.flatMap SVMMessageAddressTableLookup.encode).length := by
      rw [hv]
      exact List.length_append
    have hcount := shortU16_length_pos m.lookups.length
    have h₅ : (m.legacyOrV0Frame o).addressTableLookup.offset.toNat = m.lookupsOffset o + 1 := by
      simp only [legacyOrV0Frame, lookupFrame, if_pos hv, AddressTableLookupFrame.ofLookups,
        UInt16.toNat_ofNat', lookupsOffset, instructionsOffset, blockhashOffset, keysOffset]
      omega
    simp only [MessageFrame.storedOffsets, hframe, List.map_append, List.map_cons, List.map_nil,
      h₁, h₂, h₃, h₄, h₅, hinstructions]
    simp [legacyOrV0Offsets, hv]

theorem v1Offsets_eq (host : Endian) (hend : o + (m.encodeV1 host).length < 2 ^ 16) :
    m.v1Offsets o =
      (m.v1Frame o).storedOffsets.map fun entry => (entry.1, entry.2.toNat) := by
  have hlen := m.v1InstructionsOffset_add host o
  have hixs := encodeV1Instructions_length m.instructions
  simp only [v1Offsets, v1Frame, MessageFrame.storedOffsets, MessageFrame.version,
    MessageHeader.frame, InstructionsFrame.ofV1Instructions, MessageFrame.instructionOffsets,
    TransactionConfigFrame.ofConfig, List.map_cons, List.map_nil,
    UInt16.toNat_ofNat', List.cons_append, List.nil_append]
  rw [v1InstructionsOffset, v1WordsOffset] at hlen
  simp only [v1InstructionsOffset, v1WordsOffset]
  repeat rw [Nat.mod_eq_of_lt (by omega)]

theorem frame_version (m : Message) (o : ℕ) : (m.frame o).version = m.version := by
  by_cases hv : m.version = .v1
  · rw [frame, if_pos hv, hv]
    rfl
  · rw [frame, if_neg hv]
    rfl

theorem offsets_eq (host : Endian) (hp : m.Parseable)
    (hend : o + (m.encode host).length < 2 ^ 16) :
    m.offsets o = (m.frame o).storedOffsets.map fun entry => (entry.1, entry.2.toNat) := by
  by_cases hv : m.version = .v1
  · rw [encode, if_pos hv] at hend
    rw [offsets, if_pos hv, frame, if_pos hv]
    exact v1Offsets_eq host hend
  · rw [encode, if_neg hv] at hend
    rw [offsets, if_neg hv, frame, if_neg hv]
    exact legacyOrV0Offsets_eq ((if_neg hv).mp hp) hend

end Message

theorem Transaction.offsets_eq (hp : tx.Parseable) (hend : (tx.encode host).length < 2 ^ 16) :
    tx.offsets host =
      (tx.frame host).storedOffsets.map fun entry => (entry.1, entry.2.toNat) := by
  have hlen : (tx.encode host).length =
      tx.leading.length + ((tx.message.encode host).length + tx.trailing.length) := by
    rw [encode, List.length_append, List.length_append]
  have hmessage := Message.offsets_eq (o := tx.leading.length) host hp.message (by omega)
  have hdata : (tx.frame host).dataLen.toNat = (tx.encode host).length :=
    UInt16.toNat_ofNat_of_lt hend
  have hversion : (tx.frame host).message.version = tx.message.version :=
    Message.frame_version tx.message tx.leading.length
  by_cases hv : tx.message.version = .v1
  · have hlead : tx.leading = [] := if_pos hv
    have hsig : (tx.frame host).signature.offset.toNat = (tx.message.encode host).length := by
      rw [frame, if_pos hv]
      exact UInt16.toNat_ofNat_of_lt (show (tx.message.encode host).length < 2 ^ 16 by omega)
    rw [hlead] at hmessage
    rw [offsets, if_pos hv, TransactionFrame.storedOffsets, hversion, hv]
    simp only [List.map_append, List.map_cons, List.map_nil, hsig, hdata]
    rw [frame, hlead]
    exact congrArg (· ++ _) hmessage
  · have hsig : (tx.frame host).signature.offset.toNat = 1 := by
      rw [frame, if_neg hv]
      rfl
    have hstored : (tx.frame host).storedOffsets =
        [(.signatures, (tx.frame host).signature.offset)] ++
          (tx.frame host).message.storedOffsets ++ [(.dataLen, (tx.frame host).dataLen)] := by
      rw [TransactionFrame.storedOffsets, hversion]
      split
      · contradiction
      · rfl
    rw [offsets, if_neg hv, hstored]
    simp only [List.map_append, List.map_cons, List.map_nil, hsig, hdata]
    exact congrArg (fun x => _ ++ x ++ _) hmessage

/-- A parse that only moved inside the slice is traced. -/
theorem Moves.traced {c' : Cursor} {n : ℕ} {new : List (OffsetField × ℕ)}
    {offsets : List (OffsetField × UInt16)} (h : Moves b (Cursor.moveTo { offset := 0 } 0) c' n new)
    (hnew : new = offsets.map fun entry => (entry.1, entry.2.toNat)) : Traced b c' offsets where
  stored := h.stored.trans hnew
  checks check hk := by
    rcases h.checks check hk with hk | hk
    · exact absurd hk List.not_mem_nil
    · exact ⟨hk, wrappingSub_eq hk⟩

theorem Message.Parseable.accessible (hp : m.Parseable) : Accessible (.ok m.contents) := by
  obtain ⟨-, hixs, hlookups⟩ := hp.counts
  refine ⟨_, rfl, ?_, ?_⟩
  · exact (UInt16.toNat_ofNat_of_lt hixs).symm
  · exact (UInt8.toNat_ofNat_of_lt hlookups).symm

namespace TransactionView

/-- A view whose reads all stay inside its own bytes, the first `data_len` bytes of the slice. -/
structure InBounds (host : Endian) (b : Slice) (view : TransactionView sanitized) : Prop where
  dataLen_le : view.frame.dataLen.toNat ≤ b.len
  data : ∃ d : Slice, view.data = .ok d ∧ d.bytes = b.bytes.take view.frame.dataLen.toNat
  signatures : ∃ signatures, view.signatures = .ok signatures ∧
    signatures.length = view.numSignatures.toNat
  message : Accessible (view.contents host)

end TransactionView

/-- A view whose reads all stay inside its own bytes, the first `end_offset` bytes of the slice. -/
structure MessageView.InBounds (host : Endian) (b : Slice) (view : MessageView sanitized) :
    Prop where
  endOffset_le : view.messageFrame.endOffset.toNat ≤ b.len
  data : ∃ d : Slice, view.data = .ok d ∧ d.bytes = b.bytes.take view.messageFrame.endOffset.toNat
  message : Accessible (view.contents host)

theorem Encodes.inBounds (h : Encodes host b m) :
    (⟨b, m.frame 0⟩ : MessageView sanitized).InBounds host b := by
  have hend : (m.frame 0).endOffset.toNat = b.len := by
    rw [m.frame_endOffset host, Nat.zero_add, Slice.len, h.bytes]
    exact UInt16.toNat_ofNat_of_lt h.length_lt
  constructor
  · exact hend.le
  · refine ⟨b, MessageView.data_eq h, ?_⟩
    change _ = b.bytes.take (m.frame 0).endOffset.toNat
    rw [hend]
    exact List.take_length.symm
  · rw [MessageView.contents_eq h]
    exact h.parseable.accessible

theorem StartsWith.inBounds (h : StartsWith host b tx) :
    (⟨b, tx.frame host⟩ : TransactionView sanitized).InBounds host b := by
  obtain ⟨d, hs⟩ := h.shows sanitized
  constructor
  · rw [h.dataLen_eq]
    exact h.encoded.length_le
  · refine ⟨d, hs.data, ?_⟩
    rw [hs.bytes, h.dataLen_eq]
    exact List.prefix_iff_eq_take.mp h.encoded
  · refine ⟨_, hs.signatures, ?_⟩
    exact (UInt8.toNat_ofNat_of_lt h.parseable.signatures_lt).symm
  · rw [hs.contents_eq]
    exact h.parseable.message.accessible

namespace TransactionFrame

theorem tryNewFromPrefix_traced {f : TransactionFrame}
    (h : (exec (tryNewFromPrefix host b) { offset := 0 }).1 = .ok f) :
    Traced b (exec (tryNewFromPrefix host b) { offset := 0 }).2 f.storedOffsets := by
  obtain ⟨tx, hp, -, -, hlt, rfl, hm⟩ := tryNewFromPrefix_sound (returns_of_value h)
  exact hm.traced (tx.offsets_eq hp hlt)

theorem tryNew_traced {f : TransactionFrame}
    (h : (exec (tryNew host b) { offset := 0 }).1 = .ok f) :
    Traced b (exec (tryNew host b) { offset := 0 }).2 f.storedOffsets := by
  have hr := returns_of_value h
  simp only [tryNew, returns_bind, returns_rejectIf, returns_pure] at hr
  obtain ⟨_, c₁, hfront, _, _, ⟨-, rfl⟩, rfl, hc⟩ := hr
  rw [tryNew, ← hc, ← hfront.state]
  exact tryNewFromPrefix_traced hfront.value

end TransactionFrame

theorem MessageFrame.tryNew_traced {f : MessageFrame}
    (h : (exec (tryNew host b) { offset := 0 }).1 = .ok f) :
    Traced b (exec (tryNew host b) { offset := 0 }).2 f.storedOffsets := by
  obtain ⟨m, hp, -, -, hlt, rfl, hm⟩ := tryNew_sound (returns_of_value h)
  exact hm.traced (m.offsets_eq host hp (by rwa [Nat.zero_add]))

/-- Every view that a constructor returns: its frame holds the offsets the parse had reached, the
parse never checked from outside the slice, and all later reads stay inside the view. -/
theorem unchecked_accesses_justified (host : Endian) (b : Slice) :
    (∀ view, TransactionView.tryNewUnsanitized host b = .ok view →
      Traced b (exec (TransactionFrame.tryNew host b) { offset := 0 }).2 view.frame.storedOffsets ∧
      view.InBounds host b) ∧
    (∀ view n, TransactionView.tryNewUnsanitizedFromPrefix host b = .ok (view, n) →
      Traced b (exec (TransactionFrame.tryNewFromPrefix host b) { offset := 0 }).2
        view.frame.storedOffsets ∧
      view.InBounds host b) ∧
    (∀ view, MessageView.tryNewUnsanitized host b = .ok view →
      Traced b (exec (MessageFrame.tryNew host b) { offset := 0 }).2
        view.messageFrame.storedOffsets ∧
      view.InBounds host b) := by
  refine ⟨fun view h => ⟨?_, ?_⟩, fun view n h => ⟨?_, ?_⟩, fun view h => ⟨?_, ?_⟩⟩
  · obtain ⟨f, hf, hview⟩ := outcome_bind_ok.mp h
    cases hview
    exact TransactionFrame.tryNew_traced hf
  · obtain ⟨tx, hstart, -, -, rfl⟩ := TransactionView.tryNewUnsanitized_ok.mp h
    exact hstart.inBounds
  · obtain ⟨f, hf, hview⟩ := outcome_bind_ok.mp h
    cases hview
    exact TransactionFrame.tryNewFromPrefix_traced hf
  · obtain ⟨tx, hstart, -, hview⟩ := TransactionView.tryNewUnsanitizedFromPrefix_ok.mp h
    cases hview
    exact hstart.inBounds
  · obtain ⟨f, hf, hview⟩ := outcome_bind_ok.mp h
    cases hview
    exact MessageFrame.tryNew_traced hf
  · obtain ⟨m, henc, rfl⟩ := MessageView.tryNewUnsanitized_ok.mp h
    exact henc.inBounds

/-- A legacy transaction with one signer and one instruction. -/
def sampleTransaction : Transaction where
  signatures := [Vector.replicate 64 1]
  message := {
    version := .legacy
    header := ⟨1, 0, 1⟩
    staticAccountKeys := [Vector.replicate 32 2, Vector.replicate 32 3]
    recentBlockhash := Vector.replicate 32 4
    instructions := [⟨1, [0], [5]⟩]
    lookups := []
    config := .empty
    lookups_eq_nil := fun _ => rfl
    config_eq_empty := fun _ => rfl
    fits_v1 := fun h => absurd h (by decide) }
  signatures_v1 := fun h => absurd h (by decide)

def sampleBytes : Slice := ⟨sampleTransaction.encode .little, by decide +kernel⟩

theorem sample_startsWith : StartsWith .little sampleBytes sampleTransaction where
  parseable := {
    message := {
      version := .inl ⟨rfl, by decide⟩
      keys_pos := by decide
      keys_le := by decide
      instructions_lt := by decide
      instructions_compact := by decide
      lookups_le := by decide
      lookups_compact := by decide }
    signatures := fun _ => by decide }
  encoded := List.prefix_refl _
  length_lt := by decide +kernel

theorem sample_lookupsFit (len : ℕ) : sampleTransaction.LookupsFit len :=
  fun h => absurd h (by decide)

theorem sample_accesses_justified : ∃ view,
    TransactionView.tryNewUnsanitized .little sampleBytes = .ok view ∧
      Traced sampleBytes (exec (TransactionFrame.tryNew .little sampleBytes) { offset := 0 }).2
        view.frame.storedOffsets ∧
      view.InBounds .little sampleBytes := by
  have h := TransactionView.tryNewUnsanitized_ok.mpr
    ⟨_, sample_startsWith, sample_lookupsFit _, rfl, rfl⟩
  exact ⟨_, h, (unchecked_accesses_justified .little sampleBytes).1 _ h⟩

end AgaveSdk.TxView
