import AgaveSdk.TransactionView.V1MessageGrammar

/-! Transactions, their wire form, and what the transaction parser accepts. -/
namespace AgaveSdk.TxView
open FallibleState Segments ByteOrder

namespace Message

/-- What the parser asks of a message, besides its size. -/
def Parseable (m : Message) : Prop :=
  if m.version = .v1 then m.ParseableV1 else m.ParseableLegacyOrV0

/-- The frame of a message that starts at an offset. -/
def frame (m : Message) (o : ℕ) : MessageFrame :=
  if m.version = .v1 then m.v1Frame o else m.legacyOrV0Frame o

def offsets (m : Message) (o : ℕ) : List (OffsetField × ℕ) :=
  if m.version = .v1 then m.v1Offsets o else m.legacyOrV0Offsets o

variable {m : Message}

theorem frame_endOffset (host : Endian) (m : Message) (o : ℕ) :
    (m.frame o).endOffset = UInt16.ofNat (o + (m.encode host).length) := by
  by_cases hv : m.version = .v1
  · rw [frame, if_pos hv, encode, if_pos hv, ← m.v1InstructionsOffset_add host o]
    rfl
  · rw [frame, if_neg hv, encode, if_neg hv]
    rfl

end Message

/-- A transaction. A v1 transaction has no signature count, its header gives the number. -/
structure Transaction where
  signatures : List Signature
  message : Message
  signatures_v1 : message.version = .v1 →
    signatures.length = message.header.numRequiredSignatures.toNat

namespace Transaction

def signatureBytes (tx : Transaction) : List UInt8 := tx.signatures.flatMap Vector.toList

/-- The bytes in front of the message. -/
def leading (tx : Transaction) : List UInt8 :=
  if tx.message.version = .v1 then [] else shortU16 tx.signatures.length ++ tx.signatureBytes

/-- The bytes behind the message. -/
def trailing (tx : Transaction) : List UInt8 :=
  if tx.message.version = .v1 then tx.signatureBytes else []

/-- Legacy and v0 transactions start with their counted signatures, v1 transactions end with
their signatures. -/
def encode (host : Endian) (tx : Transaction) : List UInt8 :=
  tx.leading ++ (tx.message.encode host ++ tx.trailing)

/-- What the parser asks of a transaction, besides its size. -/
structure Parseable (tx : Transaction) : Prop where
  message : tx.message.Parseable
  signatures : tx.message.version ≠ .v1 → 1 ≤ tx.signatures.length ∧ tx.signatures.length < 128

/-- The frame of a transaction, for the given size of its message. -/
def frame (host : Endian) (tx : Transaction) : TransactionFrame where
  signature := ⟨UInt8.ofNat tx.signatures.length, UInt16.ofNat
    (if tx.message.version = .v1 then (tx.message.encode host).length else 1)⟩
  message := tx.message.frame tx.leading.length
  dataLen := UInt16.ofNat (tx.encode host).length

/-- The lookup estimate of the parser holds in a buffer of the given length. -/
def LookupsFit (tx : Transaction) (len : ℕ) : Prop :=
  tx.message.LookupsFit tx.leading.length len

def offsets (host : Endian) (tx : Transaction) : List (OffsetField × ℕ) :=
  if tx.message.version = .v1 then
    tx.message.offsets 0 ++
      [(.signatures, (tx.message.encode host).length), (.dataLen, (tx.encode host).length)]
  else
    [(.signatures, 1)] ++ tx.message.offsets tx.leading.length ++
      [(.dataLen, (tx.encode host).length)]

end Transaction

variable {b : Slice} {c c' : Cursor} {host : Endian}

namespace MessageFrame

/-- The first byte of a parseable message tells its format. -/
theorem head_encode (host : Endian) {m : Message} (hp : m.Parseable) :
    (m.encode host).head? = some v1Prefix ↔ m.version = .v1 := by
  by_cases hv : m.version = .v1
  · rw [Message.encode, if_pos hv]
    exact iff_of_true rfl hv
  · have hp := (if_neg hv).mp hp
    apply iff_of_false _ hv
    rw [Message.encode, if_neg hv, Message.encodeLegacyOrV0, Message.headerBytes]
    rcases hp.version with ⟨hl, hr⟩ | h0
    · rw [hl]
      intro h
      have hr' : m.header.numRequiredSignatures = v1Prefix := Option.some.inj h
      rw [hr'] at hr
      exact absurd hr (by decide)
    · rw [h0]
      intro h
      have h' : (0x80 : UInt8) = v1Prefix := Option.some.inj h
      exact absurd h' (by decide)

theorem tryNewAsAnyVersion_sound {f : MessageFrame}
    (h : Returns (tryNewAsAnyVersion host b) c f c') :
    ∃ m : Message, m.Parseable ∧ m.LookupsFit 0 b.len ∧ At b.bytes 0 (m.encode host) ∧
      (m.encode host).length < 2 ^ 16 ∧ f = m.frame 0 ∧
      Moves b (c.moveTo 0) c' (m.encode host).length (m.offsets 0) := by
  unfold tryNewAsAnyVersion at h
  split at h
  · obtain ⟨m, hp, hat, hlt, rfl, hm⟩ := tryNewAsV1_sound h
    have hv := hp.version
    rw [← show m.encode host = m.encodeV1 host from if_pos hv] at hat hlt hm
    refine ⟨m, (if_pos hv).mpr hp, fun h0 => ?_, hat, hlt, (if_pos hv).symm, ?_⟩
    · exact absurd (hv.symm.trans h0) (by decide)
    · rwa [Message.offsets, if_pos hv]
  · obtain ⟨m, hp, hfit, hat, hlt, rfl, hm⟩ := tryNewAsLegacyOrV0_sound (Nat.zero_le _) h
    have hv := hp.version_ne
    rw [← show m.encode host = m.encodeLegacyOrV0 from if_neg hv] at hat hlt hm
    refine ⟨m, (if_neg hv).mpr hp, hfit, hat, by omega, (if_neg hv).symm, ?_⟩
    rwa [Message.offsets, if_neg hv]

theorem tryNew_sound {f : MessageFrame} (h : Returns (tryNew host b) c f c') :
    ∃ m : Message, m.Parseable ∧ m.LookupsFit 0 b.len ∧ b.bytes = m.encode host ∧
      (m.encode host).length < 2 ^ 16 ∧ f = m.frame 0 ∧
      Moves b (c.moveTo 0) c' (m.encode host).length (m.offsets 0) := by
  simp only [tryNew, returns_bind, returns_rejectIf, returns_pure, ne_eq, not_not] at h
  obtain ⟨_, _, h, _, _, ⟨hlen, rfl⟩, rfl, rfl⟩ := h
  obtain ⟨m, hp, hfit, hat, hlt, rfl, hm⟩ := tryNewAsAnyVersion_sound h
  rw [m.frame_endOffset host, Nat.zero_add, UInt16.toNat_ofNat', Nat.mod_eq_of_lt hlt] at hlen
  exact ⟨m, hp, hfit, ((at_zero.mp hat).eq_of_length hlen).symm, hlt, rfl, hm⟩

theorem tryNew_complete {m : Message} (hp : m.Parseable) (hfit : m.LookupsFit 0 b.len)
    (hlt : (m.encode host).length < 2 ^ 16) (h : b.bytes = m.encode host) :
    ∃ c', Returns (tryNew host b) c (m.frame 0) c' := by
  have hend : (m.frame 0).endOffset.toNat = b.len := by
    rw [m.frame_endOffset host, Nat.zero_add, UInt16.toNat_ofNat', Nat.mod_eq_of_lt hlt, Slice.len,
      h]
  have hat : At b.bytes 0 (m.encode host) := at_zero.mpr (h ▸ List.prefix_refl _)
  have hhead := head_encode host hp
  rw [← h] at hhead
  simp only [tryNew, tryNewAsAnyVersion, returns_bind, returns_rejectIf, returns_pure, ne_eq,
    not_not]
  by_cases hv : m.version = .v1
  · rw [if_pos (hhead.mpr hv)]
    have henc : m.encode host = m.encodeV1 host := if_pos hv
    rw [henc] at hlt hat
    obtain ⟨c', hr, -⟩ := tryNewAsV1_complete (c := c) ((if_pos hv).mp hp) hlt hat
    rw [← show m.frame 0 = m.v1Frame 0 from if_pos hv] at hr
    exact ⟨c', _, _, hr, (), _, ⟨hend, rfl⟩, rfl, rfl⟩
  · rw [if_neg fun h81 => hv (hhead.mp h81)]
    have henc : m.encode host = m.encodeLegacyOrV0 := if_neg hv
    rw [henc] at hlt hat
    obtain ⟨c', hr, -⟩ := tryNewAsLegacyOrV0_complete (c := c) ((if_neg hv).mp hp) hfit
      (Nat.zero_le _) (by omega) hat
    rw [← show m.frame 0 = m.legacyOrV0Frame 0 from if_neg hv] at hr
    exact ⟨c', _, _, hr, (), _, ⟨hend, rfl⟩, rfl, rfl⟩

theorem safe_tryNew : Safe (tryNew host b) c := by
  apply Safe.bind
  · unfold tryNewAsAnyVersion
    split
    · exact safe_tryNewAsV1
    · exact safe_tryNewAsLegacyOrV0 (Nat.zero_le _)
  · intro _ _ _
    exact (safe_rejectIf _ _).bind fun _ _ _ => safe_pure _ _

end MessageFrame

namespace TransactionFrame

theorem tryNewAsLegacyOrV0_sound (host : Endian) {f : TransactionFrame}
    (h : Returns (tryNewAsLegacyOrV0 b) c f c') :
    ∃ tx : Transaction, tx.message.version ≠ .v1 ∧ tx.Parseable ∧ tx.LookupsFit b.len ∧
      At b.bytes 0 (tx.encode host) ∧ (tx.encode host).length < 2 ^ 16 ∧ f = tx.frame host ∧
      Moves b (c.moveTo 0) c' (tx.encode host).length (tx.offsets host) := by
  simp only [tryNewAsLegacyOrV0, returns_bind, returns_modify, returns_get, returns_pure] at h
  obtain ⟨_, _, rfl, sf, c₁, h₁, _, _, ⟨rfl, rfl⟩, mf, c₂, h₂, _, _, rfl, rfl, rfl⟩ := h
  obtain ⟨sigs, hpos, hlt, hat₁, rfl, hm₁⟩ := SignatureFrame.tryNew_sound (Nat.zero_le _) h₁
  obtain ⟨m, hp, hfit, hat₂, hend, rfl, hm₂⟩ :=
    MessageFrame.tryNewAsLegacyOrV0_sound hm₁.inside h₂
  have hv := hp.version_ne
  let tx : Transaction := ⟨sigs, m, fun h => absurd h hv⟩
  have hlead : tx.leading = shortU16 sigs.length ++ sigs.flatMap Vector.toList := if_neg hv
  have htrail : tx.trailing = [] := if_neg hv
  have henc : m.encode host = m.encodeLegacyOrV0 := if_neg hv
  have hlen : tx.leading.length + m.encodeLegacyOrV0.length = (tx.encode host).length := by
    rw [Transaction.encode, htrail, List.append_nil, List.length_append, henc]
  have ho₁ : c₁.offset = tx.leading.length := by
    rw [hm₁.offset, hlead, Cursor.moveTo_offset, Nat.zero_add]
  have ho₂ : c₂.offset = (tx.encode host).length := by
    have ho : c₂.offset = c₁.offset + m.encodeLegacyOrV0.length := hm₂.offset
    rw [ho, ho₁, hlen]
  rw [ho₁] at hfit hat₂ hend
  refine ⟨tx, hv, ⟨(if_neg hv).mpr hp, fun _ => ⟨hpos, hlt⟩⟩, hfit, ?_, hlen ▸ hend, ?_, ?_⟩
  · rw [Transaction.encode, htrail, List.append_nil, at_append, Nat.zero_add, henc]
    exact ⟨hlead ▸ hat₁, hat₂⟩
  · rw [ho₁, Transaction.frame, if_neg hv, Message.frame, if_neg hv, ← hlen]
    rfl
  · have hm := (hm₁.trans hm₂).trans (Moves.noteStored hm₂.inside .dataLen c₂.offset)
    refine hm.congr ?_ ?_
    · rw [← hlen, hlead, Nat.add_zero]
    · rw [ho₁, ho₂, Transaction.offsets, if_neg hv, Message.offsets, if_neg hv]
      rfl

theorem tryNewAsV1_sound {f : TransactionFrame} (h : Returns (tryNewAsV1 host b) c f c') :
    ∃ tx : Transaction, tx.message.version = .v1 ∧ tx.Parseable ∧ tx.LookupsFit b.len ∧
      At b.bytes 0 (tx.encode host) ∧ (tx.encode host).length < 2 ^ 16 ∧ f = tx.frame host ∧
      Moves b (c.moveTo 0) c' (tx.encode host).length (tx.offsets host) := by
  simp only [tryNewAsV1, checkedOffset, returns_bind, returns_modify, returns_get,
    returns_checkedOffsetOr, returns_pure] at h
  obtain ⟨mf, c₁, h₁, _, _, rfl, _, _, rfl, _, c₂, h₂, _, _, ⟨rfl, rfl⟩, _, _, ⟨hend, rfl, rfl⟩,
    rfl, rfl⟩ := h
  obtain ⟨m, hp, hat₁, hlt, rfl, hm₁⟩ := MessageFrame.tryNewAsV1_sound h₁
  have hv := hp.version
  have henc : m.encode host = m.encodeV1 host := if_pos hv
  have ho₁ : c₁.offset = (m.encodeV1 host).length := by
    rw [hm₁.offset, Cursor.moveTo_offset, Nat.zero_add]
  have hframe : m.frame 0 = m.v1Frame 0 := if_pos hv
  have hendOffset : (m.v1Frame 0).endOffset = UInt16.ofNat (m.encodeV1 host).length := by
    rw [← hframe, m.frame_endOffset host, henc, Nat.zero_add]
  have hendNat : (m.v1Frame 0).endOffset.toNat = (m.encodeV1 host).length := by
    rw [hendOffset]
    exact UInt16.toNat_ofNat_of_lt hlt
  have hm₂ := Moves.noteStored hm₁.inside .signatures c₁.offset
  rw [hendNat, ← ho₁] at h₂
  obtain ⟨sigs, hsigs, hat₂, hm₃⟩ := advanceOffsetForArray_sound
    (c := c₁.noteStored .signatures c₁.offset) (by decide) hm₂.inside h₂
  rw [UInt8.toNat_toUInt16] at hsigs
  let tx : Transaction := ⟨sigs, m, fun _ => hsigs⟩
  have hlead : tx.leading = [] := if_pos hv
  have htrail : tx.trailing = sigs.flatMap Vector.toList := if_pos hv
  have hlen : (m.encodeV1 host).length + (sigs.flatMap Vector.toList).length =
      (tx.encode host).length := by
    rw [Transaction.encode, hlead, htrail, List.nil_append, List.length_append, henc]
  have ho₂ : c₂.offset = (tx.encode host).length := by
    rw [hm₃.offset, Cursor.noteStored_offset, ho₁, hlen]
  rw [Cursor.noteStored_offset, ho₁] at hat₂
  rw [ho₂] at hend
  refine ⟨tx, hv, ⟨(if_pos hv).mpr hp, fun h => absurd hv h⟩, fun h => ?_, ?_, hend, ?_, ?_⟩
  · exact absurd (hv.symm.trans h) (by decide)
  · rw [Transaction.encode, hlead, htrail, List.nil_append, at_append, henc, Nat.zero_add]
    exact ⟨hat₁, hat₂⟩
  · have hcount : UInt8.ofNat sigs.length = (m.v1Frame 0).numRequiredSignatures := by
      rw [hsigs, UInt8.ofNat_toNat]
    rw [ho₂, hendOffset, Transaction.frame, if_pos hv, Message.frame, if_pos hv, hlead, henc,
      hcount]
    rfl
  · have hm := ((hm₁.trans hm₂).trans hm₃).trans (Moves.noteStored hm₃.inside .dataLen c₂.offset)
    refine hm.congr ?_ ?_
    · rw [← hlen]
      rfl
    · rw [ho₁, ho₂, Transaction.offsets, if_pos hv, Message.offsets, if_pos hv, henc]
      simp [tx]

theorem tryNewAsLegacyOrV0_complete {tx : Transaction} (hv : tx.message.version ≠ .v1)
    (hp : tx.Parseable) (hfit : tx.LookupsFit b.len) (hend : (tx.encode host).length < 2 ^ 16)
    (h : At b.bytes 0 (tx.encode host)) :
    ∃ c', Returns (tryNewAsLegacyOrV0 b) c (tx.frame host) c' := by
  have hlead : tx.leading = shortU16 tx.signatures.length ++ tx.signatureBytes := if_neg hv
  have htrail : tx.trailing = [] := if_neg hv
  have henc : tx.message.encode host = tx.message.encodeLegacyOrV0 := if_neg hv
  have hlen : tx.leading.length + tx.message.encodeLegacyOrV0.length = (tx.encode host).length := by
    rw [Transaction.encode, htrail, List.append_nil, List.length_append, henc]
  rw [Transaction.encode, htrail, List.append_nil, at_append, henc, Nat.zero_add] at h
  obtain ⟨hpos, hlt⟩ := hp.signatures hv
  obtain ⟨c₁, h₁, ho₁⟩ := SignatureFrame.tryNew_complete (c := c.moveTo 0) (Nat.zero_le _) hpos hlt
    (hlead ▸ h.1)
  have ho₁ : c₁.offset = tx.leading.length := by
    rw [ho₁, hlead, Cursor.moveTo_offset, Nat.zero_add]
    rfl
  have hin := Slice.inside_of_at h.1 (Nat.zero_le _)
  rw [Nat.zero_add] at hin
  obtain ⟨c₂, h₂, -⟩ := MessageFrame.tryNewAsLegacyOrV0_complete (c := c₁) (o := c₁.offset)
    ((if_neg hv).mp hp.message) (ho₁ ▸ hfit) (ho₁ ▸ hin) (by rw [ho₁, hlen]; exact hend)
    (ho₁ ▸ h.2)
  refine ⟨c₂.noteStored .dataLen c₂.offset, ?_⟩
  simp only [tryNewAsLegacyOrV0, returns_bind, returns_modify, returns_get, returns_pure]
  refine ⟨(), _, rfl, _, c₁, h₁, _, _, ⟨rfl, rfl⟩, _, c₂, h₂, (), _, rfl, ?_, rfl⟩
  rw [ho₁, Transaction.frame, if_neg hv, Message.frame, if_neg hv, ← hlen]
  rfl

theorem tryNewAsV1_complete {tx : Transaction} (hv : tx.message.version = .v1)
    (hp : tx.Parseable) (hend : (tx.encode host).length < 2 ^ 16)
    (h : At b.bytes 0 (tx.encode host)) :
    ∃ c', Returns (tryNewAsV1 host b) c (tx.frame host) c' := by
  have hlead : tx.leading = [] := if_pos hv
  have htrail : tx.trailing = tx.signatureBytes := if_pos hv
  have henc : tx.message.encode host = tx.message.encodeV1 host := if_pos hv
  have hframe : tx.message.frame 0 = tx.message.v1Frame 0 := if_pos hv
  have hlen : (tx.message.encodeV1 host).length + tx.signatureBytes.length =
      (tx.encode host).length := by
    rw [Transaction.encode, hlead, htrail, List.nil_append, List.length_append, henc]
  rw [Transaction.encode, hlead, htrail, List.nil_append, at_append, henc, Nat.zero_add] at h
  obtain ⟨c₁, h₁, ho₁⟩ := MessageFrame.tryNewAsV1_complete (c := c) ((if_pos hv).mp hp.message)
    (by omega) h.1
  have hendOffset : (tx.message.v1Frame 0).endOffset =
      UInt16.ofNat (tx.message.encodeV1 host).length := by
    rw [← hframe, Message.frame_endOffset host, henc, Nat.zero_add]
  have hendNat : (tx.message.v1Frame 0).endOffset.toNat = (tx.message.encodeV1 host).length := by
    rw [hendOffset, UInt16.toNat_ofNat']
    omega
  have hcount : UInt8.ofNat tx.signatures.length = tx.message.header.numRequiredSignatures := by
    rw [tx.signatures_v1 hv, UInt8.ofNat_toNat]
  have hin := Slice.inside_of_at h.1 (Nat.zero_le _)
  rw [Nat.zero_add] at hin
  obtain ⟨c₂, h₂, ho₂⟩ := advanceOffsetForArray_complete (b := b) (show 64 ≤ 64 by decide)
    (n := tx.message.header.numRequiredSignatures.toUInt16) (x := tx.signatureBytes)
    (c := (c₁.noteStored .signatures c₁.offset).moveTo (tx.message.encodeV1 host).length) hin
    (by rw [Transaction.signatureBytes, flatMap_toList_length, tx.signatures_v1 hv,
      UInt8.toNat_toUInt16]) h.2
  have ho₂ : c₂.offset = (tx.encode host).length := by
    rw [ho₂, Cursor.moveTo_offset, hlen]
  refine ⟨c₂.noteStored .dataLen c₂.offset, ?_⟩
  simp only [tryNewAsV1, checkedOffset, returns_bind, returns_modify, returns_get,
    returns_checkedOffsetOr, returns_pure]
  refine ⟨_, c₁, h₁, (), _, rfl, (), _, rfl, (), c₂, hendNat ▸ h₂, _, _, ⟨rfl, rfl⟩, _, _,
    ⟨by rw [ho₂]; exact hend, rfl, rfl⟩, ?_, rfl⟩
  rw [ho₂, hendOffset, Transaction.frame, if_pos hv, Message.frame, if_pos hv, hlead, henc, hcount]
  rfl

/-- The first byte of a parseable transaction tells its format. -/
theorem head_encode (host : Endian) {tx : Transaction} (hp : tx.Parseable) :
    ∃ v, (tx.encode host).head? = some v ∧
      ((v &&& messageVersionPrefix == 0) = true ↔ tx.message.version ≠ .v1) := by
  by_cases hv : tx.message.version = .v1
  · refine ⟨v1Prefix, ?_, iff_of_false (by decide) (not_not.mpr hv)⟩
    rw [Transaction.encode, Transaction.leading, if_pos hv, Message.encode, if_pos hv]
    rfl
  · obtain ⟨-, hlt⟩ := hp.signatures hv
    refine ⟨UInt8.ofNat tx.signatures.length, ?_, iff_of_true ?_ hv⟩
    · rw [Transaction.encode, Transaction.leading, if_neg hv, shortU16_of_lt hlt]
      rfl
    · rw [beq_iff_eq]
      apply (and_high_bit _).mpr
      rw [UInt8.toNat_ofNat']
      omega

theorem head_of_prefix {tx : Transaction} (hp : tx.Parseable)
    (h : tx.encode host <+: b.bytes) :
    ∃ v, b.bytes.head? = some v ∧
      ((v &&& messageVersionPrefix == 0) = true ↔ tx.message.version ≠ .v1) := by
  obtain ⟨v, hhead, hv⟩ := head_encode host hp
  obtain ⟨t, ht⟩ := h
  refine ⟨v, ?_, hv⟩
  rw [← ht, List.head?_append, hhead]
  rfl

/-- Every accepted buffer starts with the encoding of a transaction, and the frame is its
frame. -/
theorem tryNewFromPrefix_sound {f : TransactionFrame}
    (h : Returns (tryNewFromPrefix host b) c f c') :
    ∃ tx : Transaction, tx.Parseable ∧ tx.LookupsFit b.len ∧ tx.encode host <+: b.bytes ∧
      (tx.encode host).length < 2 ^ 16 ∧ f = tx.frame host ∧
      Moves b (c.moveTo 0) c' (tx.encode host).length (tx.offsets host) := by
  simp only [tryNewFromPrefix, returns_bind] at h
  obtain ⟨_, c₁, h₁, h⟩ := h
  unfold isLegacyOrV0 at h₁
  split at h₁
  · exact absurd h₁ returns_fail
  · obtain ⟨-, rfl⟩ := returns_pure.mp h₁
    split at h
    · obtain ⟨tx, -, hp, hfit, hat, hlt, rfl, hm⟩ := tryNewAsLegacyOrV0_sound host h
      exact ⟨tx, hp, hfit, at_zero.mp hat, hlt, rfl, hm⟩
    · obtain ⟨tx, -, hp, hfit, hat, hlt, rfl, hm⟩ := tryNewAsV1_sound h
      exact ⟨tx, hp, hfit, at_zero.mp hat, hlt, rfl, hm⟩

theorem tryNewFromPrefix_complete {tx : Transaction} (hp : tx.Parseable)
    (hfit : tx.LookupsFit b.len) (hend : (tx.encode host).length < 2 ^ 16)
    (h : tx.encode host <+: b.bytes) :
    ∃ c', Returns (tryNewFromPrefix host b) c (tx.frame host) c' := by
  obtain ⟨v, hhead, hv⟩ := head_of_prefix hp h
  simp only [tryNewFromPrefix, isLegacyOrV0, hhead, returns_bind, returns_pure]
  by_cases hversion : tx.message.version = .v1
  · obtain ⟨c', hr⟩ := tryNewAsV1_complete (c := c) hversion hp hend (at_zero.mpr h)
    have hbit : ¬ (v &&& messageVersionPrefix == 0) = true := fun hb => hv.mp hb hversion
    exact ⟨c', _, c, ⟨rfl, rfl⟩, by rw [if_neg hbit]; exact hr⟩
  · obtain ⟨c', hr⟩ := tryNewAsLegacyOrV0_complete (c := c) hversion hp hfit hend (at_zero.mpr h)
    exact ⟨c', _, c, ⟨rfl, rfl⟩, by rw [if_pos (hv.mpr hversion)]; exact hr⟩

theorem safe_tryNewFromPrefix : Safe (tryNewFromPrefix host b) c := by
  refine Safe.bind ?_ fun r c₁ h₁ => ?_
  · unfold isLegacyOrV0
    split
    · exact safe_fail
    · exact safe_pure _ _
  · split
    · refine (safe_modify _ _).bind fun _ _ hs => ?_
      obtain rfl := returns_modify.mp hs
      refine SignatureFrame.safe_tryNew.bind fun _ c₂ h₂ => ?_
      obtain ⟨_, -, -, -, -, hm⟩ := SignatureFrame.tryNew_sound (Nat.zero_le _) h₂
      refine (safe_get _).bind fun _ _ hs => ?_
      obtain ⟨rfl, rfl⟩ := returns_get.mp hs
      exact (MessageFrame.safe_tryNewAsLegacyOrV0 hm.inside).bind fun _ _ _ =>
        (safe_modify _ _).bind fun _ _ _ => safe_pure _ _
    · exact MessageFrame.safe_tryNewAsV1.bind fun _ _ _ => (safe_modify _ _).bind fun _ _ _ =>
        (safe_modify _ _).bind fun _ _ _ => (safe_advanceOffsetForArray _ _).bind fun _ _ _ =>
          (safe_get _).bind fun _ _ _ => (safe_checkedOffsetOr _ _ _).bind fun _ _ _ =>
            safe_pure _ _

end TransactionFrame

end AgaveSdk.TxView
