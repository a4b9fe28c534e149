import AgaveSdk.TransactionView.Reading

/-! Frames of the leading parts of a transaction: the signatures of a legacy or v0
transaction, the message header and the static account keys. -/
namespace AgaveSdk.TxView
open FallibleState Segments

abbrev Signature := Vector UInt8 64

abbrev Pubkey := Vector UInt8 32

abbrev Hash := Vector UInt8 32

def packetDataSize : ℕ := 1232

inductive TransactionVersion where
  | legacy
  | v0
  | v1
  deriving DecidableEq, Repr

theorem TransactionVersion.ne_v1_iff {v : TransactionVersion} :
    v ≠ .v1 ↔ v = .legacy ∨ v = .v0 := by
  cases v <;> decide

structure SignatureFrame where
  numSignatures : UInt8
  offset : UInt16
  deriving DecidableEq, Repr

structure MessageHeaderFrame where
  offset : UInt16
  version : TransactionVersion
  numRequiredSignatures : UInt8
  numReadonlySignedAccounts : UInt8
  numReadonlyUnsignedAccounts : UInt8
  deriving DecidableEq, Repr

structure StaticAccountKeysFrame where
  numStaticAccounts : UInt8
  offset : UInt16
  deriving DecidableEq, Repr

def SignatureFrame.tryNew (bytes : Slice) : Reader SignatureFrame := do
  let numSignatures ← readByte bytes
  rejectIf (numSignatures = 0 ∨ numSignatures &&& 0x80 ≠ 0) .parseError
  let signatureOffset ← offsetAsU16 .signatures (← get).offset
  advanceOffsetForArray 64 bytes numSignatures.toUInt16
  return ⟨numSignatures, signatureOffset⟩

/-- The version and the number of required signatures. A v0 message has a version byte in
front, a legacy message starts with the number itself. -/
def MessageHeaderFrame.readVersion (bytes : Slice) (messagePrefix : UInt8) :
    Reader (TransactionVersion × UInt8) :=
  if messagePrefix &&& 0x80 ≠ 0 then
    if messagePrefix &&& ~~~0x80 = 0 then do
      let numRequiredSignatures ← readByte bytes
      return (.v0, numRequiredSignatures)
    else fail
  else return (.legacy, messagePrefix)

def MessageHeaderFrame.tryNew (bytes : Slice) : Reader MessageHeaderFrame := do
  let messageOffset ← offsetAsU16 .message (← get).offset
  let messagePrefix ← readByte bytes
  let version ← readVersion bytes messagePrefix
  let numReadonlySignedAccounts ← readByte bytes
  let numReadonlyUnsignedAccounts ← readByte bytes
  return ⟨messageOffset, version.1, version.2, numReadonlySignedAccounts,
    numReadonlyUnsignedAccounts⟩

def legacyOrV0MaxStaticAccountsPerPacket : UInt8 := UInt8.ofNat (packetDataSize / 32)

def StaticAccountKeysFrame.tryNew (bytes : Slice) : Reader StaticAccountKeysFrame := do
  let numStaticAccounts ← readByte bytes
  rejectIf (numStaticAccounts = 0 ∨ numStaticAccounts > legacyOrV0MaxStaticAccountsPerPacket)
    .parseError
  let staticAccountsOffset ← offsetAsU16 .staticAccountKeys (← get).offset
  advanceOffsetForArray 32 bytes numStaticAccounts.toUInt16
  return ⟨numStaticAccounts, staticAccountsOffset⟩

/-- The three counts of a message header. -/
structure MessageHeader where
  numRequiredSignatures : UInt8
  numReadonlySignedAccounts : UInt8
  numReadonlyUnsignedAccounts : UInt8
  deriving DecidableEq, Repr

def MessageHeader.encode (h : MessageHeader) : List UInt8 :=
  [h.numRequiredSignatures, h.numReadonlySignedAccounts, h.numReadonlyUnsignedAccounts]

/-- The version byte in front of a message. -/
def versionBytes : TransactionVersion → List UInt8
  | .legacy => []
  | .v0 => [0x80]
  | .v1 => [0x81]

def MessageHeader.frame (h : MessageHeader) (version : TransactionVersion) (offset : ℕ) :
    MessageHeaderFrame :=
  ⟨UInt16.ofNat offset, version, h.numRequiredSignatures, h.numReadonlySignedAccounts,
    h.numReadonlyUnsignedAccounts⟩

variable {b : Slice} {c c' : Cursor}

/-- A counted array after a one-byte count, as signatures and account keys are stored. -/
theorem countedArray_sound {size : ℕ} {n : UInt8} {c₁ : Cursor} {field : OffsetField} {u : Unit}
    (hs : size ≤ 64) (hn : n.toNat < 128) (hc : c.offset ≤ b.len)
    (h₁ : Returns (readByte b) c n c₁)
    (h₂ : Returns (advanceOffsetForArray size b n.toUInt16) (c₁.noteStored field c₁.offset) u c') :
    ∃ vs : List (Vector UInt8 size), vs.length = n.toNat ∧
      At b.bytes c.offset (shortU16 vs.length ++ vs.flatMap Vector.toList) ∧
      c₁.offset = c.offset + 1 ∧
      Moves b c c' (shortU16 vs.length ++ vs.flatMap Vector.toList).length
        [(field, c.offset + 1)] := by
  obtain ⟨hat₁, hm₁⟩ := readByte_sound hc h₁
  have hm := hm₁.trans (Moves.noteStored hm₁.inside field c₁.offset)
  obtain ⟨vs, hvs, hat₂, hm₂⟩ := advanceOffsetForArray_sound hs hm.inside h₂
  rw [UInt8.toNat_toUInt16] at hvs
  have hcount : shortU16 vs.length = [n] := by
    rw [hvs, shortU16_of_lt hn, UInt8.ofNat_toNat]
  have ho := hm₁.offset
  refine ⟨vs, hvs, ?_, ho, ?_⟩
  · rw [hcount]
    exact at_append.mpr ⟨hat₁, by simpa [ho] using hat₂⟩
  · have := hm.trans hm₂
    rw [hcount, List.length_append]
    simpa [ho] using this

theorem countedArray_complete {size : ℕ} {vs : List (Vector UInt8 size)} (field : OffsetField)
    (hs : size ≤ 64) (hn : vs.length < 128) (hc : c.offset ≤ b.len)
    (h : At b.bytes c.offset (shortU16 vs.length ++ vs.flatMap Vector.toList)) :
    Returns (readByte b) c (UInt8.ofNat vs.length) (c.moveTo (c.offset + 1)) ∧
      ∃ c', Returns (advanceOffsetForArray size b (UInt8.ofNat vs.length).toUInt16)
        ((c.moveTo (c.offset + 1)).noteStored field (c.offset + 1)) () c' ∧
        c'.offset = c.offset + (shortU16 vs.length ++ vs.flatMap Vector.toList).length := by
  rw [shortU16_of_lt hn] at h ⊢
  obtain ⟨hat₁, hat₂⟩ := at_append.mp h
  have hi := Slice.inside_of_at hat₁ hc
  refine ⟨returns_readByte.mpr ⟨hat₁, rfl⟩, ?_⟩
  have hlen : (vs.flatMap Vector.toList).length =
      (UInt8.ofNat vs.length).toUInt16.toNat * size := by
    rw [flatMap_toList_length, UInt8.toNat_toUInt16, UInt8.toNat_ofNat']
    congr 1
    omega
  obtain ⟨c', hr, ho⟩ := advanceOffsetForArray_complete hs
    (c := (c.moveTo (c.offset + 1)).noteStored field (c.offset + 1)) hi hlen hat₂
  refine ⟨c', hr, ?_⟩
  simp only [ho, Cursor.noteStored_offset, Cursor.moveTo_offset, List.length_append,
    List.length_singleton, Nat.add_assoc]

theorem byte_ne_zero_iff (n : UInt8) : ¬ n = 0 ↔ 1 ≤ n.toNat := by
  rw [← UInt8.toNat_inj]
  change ¬ n.toNat = 0 ↔ _
  omega

theorem SignatureFrame.tryNew_sound {f : SignatureFrame} (hc : c.offset ≤ b.len)
    (h : Returns (SignatureFrame.tryNew b) c f c') :
    ∃ sigs : List Signature, 1 ≤ sigs.length ∧ sigs.length < 128 ∧
      At b.bytes c.offset (shortU16 sigs.length ++ sigs.flatMap Vector.toList) ∧
      f = ⟨UInt8.ofNat sigs.length, UInt16.ofNat (c.offset + 1)⟩ ∧
      Moves b c c' (shortU16 sigs.length ++ sigs.flatMap Vector.toList).length
        [(.signatures, c.offset + 1)] := by
  simp only [SignatureFrame.tryNew, returns_bind, returns_rejectIf, returns_get,
    returns_offsetAsU16, returns_pure] at h
  obtain ⟨n, c₁, h₁, _, _, ⟨hn, rfl⟩, _, _, ⟨rfl, rfl⟩, _, _, ⟨rfl, rfl⟩, _, _, h₂, rfl, rfl⟩ := h
  rw [not_or, not_not, and_high_bit, byte_ne_zero_iff] at hn
  obtain ⟨sigs, hlen, hat, ho, hm⟩ := countedArray_sound (by decide) hn.2 hc h₁ h₂
  refine ⟨sigs, by omega, by omega, hat, ?_, hm⟩
  rw [hlen, UInt8.ofNat_toNat, ho]

theorem SignatureFrame.tryNew_complete {sigs : List Signature} (hc : c.offset ≤ b.len)
    (hpos : 1 ≤ sigs.length) (hlt : sigs.length < 128)
    (h : At b.bytes c.offset (shortU16 sigs.length ++ sigs.flatMap Vector.toList)) :
    ∃ c', Returns (SignatureFrame.tryNew b) c
      ⟨UInt8.ofNat sigs.length, UInt16.ofNat (c.offset + 1)⟩ c' ∧
      c'.offset = c.offset + (shortU16 sigs.length ++ sigs.flatMap Vector.toList).length := by
  obtain ⟨h₁, c', h₂, ho⟩ := countedArray_complete .signatures (by decide) hlt hc h
  have hn : (UInt8.ofNat sigs.length).toNat = sigs.length := by
    rw [UInt8.toNat_ofNat']; omega
  refine ⟨c', ?_, ho⟩
  simp only [SignatureFrame.tryNew, returns_bind, returns_rejectIf, returns_get,
    returns_offsetAsU16, returns_pure]
  refine ⟨_, _, h₁, (), _, ⟨?_, rfl⟩, _, _, ⟨rfl, rfl⟩, _, _, ⟨rfl, rfl⟩, (), c', h₂, rfl, rfl⟩
  rw [not_or, not_not, and_high_bit, byte_ne_zero_iff, hn]
  exact ⟨hpos, hlt⟩

theorem SignatureFrame.safe_tryNew : Safe (SignatureFrame.tryNew b) c :=
  safe_readByte.bind fun _ _ _ => (safe_rejectIf _ _).bind fun _ _ _ =>
    (safe_get _).bind fun _ _ _ => (safe_offsetAsU16 _ _).bind fun _ _ _ =>
      (safe_advanceOffsetForArray _ _).bind fun _ _ _ => safe_pure _ _

theorem StaticAccountKeysFrame.tryNew_sound {f : StaticAccountKeysFrame} (hc : c.offset ≤ b.len)
    (h : Returns (StaticAccountKeysFrame.tryNew b) c f c') :
    ∃ keys : List Pubkey, 1 ≤ keys.length ∧ keys.length ≤ 38 ∧
      At b.bytes c.offset (shortU16 keys.length ++ keys.flatMap Vector.toList) ∧
      f = ⟨UInt8.ofNat keys.length, UInt16.ofNat (c.offset + 1)⟩ ∧
      Moves b c c' (shortU16 keys.length ++ keys.flatMap Vector.toList).length
        [(.staticAccountKeys, c.offset + 1)] := by
  simp only [StaticAccountKeysFrame.tryNew, returns_bind, returns_rejectIf, returns_get,
    returns_offsetAsU16, returns_pure] at h
  obtain ⟨n, c₁, h₁, _, _, ⟨hn, rfl⟩, _, _, ⟨rfl, rfl⟩, _, _, ⟨rfl, rfl⟩, _, _, h₂, rfl, rfl⟩ := h
  rw [not_or, byte_ne_zero_iff] at hn
  have hmax : n.toNat ≤ 38 := UInt8.not_lt.mp hn.2
  obtain ⟨keys, hlen, hat, ho, hm⟩ := countedArray_sound (by decide) (by omega) hc h₁ h₂
  refine ⟨keys, by omega, by omega, hat, ?_, hm⟩
  rw [hlen, UInt8.ofNat_toNat, ho]

theorem StaticAccountKeysFrame.tryNew_complete {keys : List Pubkey} (hc : c.offset ≤ b.len)
    (hpos : 1 ≤ keys.length) (hle : keys.length ≤ 38)
    (h : At b.bytes c.offset (shortU16 keys.length ++ keys.flatMap Vector.toList)) :
    ∃ c', Returns (StaticAccountKeysFrame.tryNew b) c
      ⟨UInt8.ofNat keys.length, UInt16.ofNat (c.offset + 1)⟩ c' ∧
      c'.offset = c.offset + (shortU16 keys.length ++ keys.flatMap Vector.toList).length := by
  obtain ⟨h₁, c', h₂, ho⟩ :=
    countedArray_complete .staticAccountKeys (by decide) (by omega) hc h
  have hn : (UInt8.ofNat keys.length).toNat = keys.length := by
    rw [UInt8.toNat_ofNat']; omega
  refine ⟨c', ?_, ho⟩
  simp only [StaticAccountKeysFrame.tryNew, returns_bind, returns_rejectIf, returns_get,
    returns_offsetAsU16, returns_pure]
  refine ⟨_, _, h₁, (), _, ⟨?_, rfl⟩, _, _, ⟨rfl, rfl⟩, _, _, ⟨rfl, rfl⟩, (), c', h₂, rfl, rfl⟩
  rw [not_or, byte_ne_zero_iff, hn]
  exact ⟨hpos, UInt8.not_lt.mpr (UInt8.le_iff_toNat_le.mpr (by rw [hn]; exact hle))⟩

theorem StaticAccountKeysFrame.safe_tryNew : Safe (StaticAccountKeysFrame.tryNew b) c :=
  safe_readByte.bind fun _ _ _ => (safe_rejectIf _ _).bind fun _ _ _ =>
    (safe_get _).bind fun _ _ _ => (safe_offsetAsU16 _ _).bind fun _ _ _ =>
      (safe_advanceOffsetForArray _ _).bind fun _ _ _ => safe_pure _ _

theorem v0_version_byte {v : UInt8} (h : v &&& 0x80 ≠ 0) :
    v &&& ~~~0x80 = 0 ↔ v = 0x80 := by
  have hk : ∀ i : Fin 256, 128 ≤ i.val → (i.val &&& 127 = 0 ↔ i.val = 128) := by decide +kernel
  rw [ne_eq, and_high_bit, not_lt] at h
  rw [← UInt8.toNat_inj, UInt8.toNat_and, ← UInt8.toNat_inj]
  exact hk ⟨v.toNat, v.toNat_lt⟩ h

/-- The version and the number of required signatures as `readVersion` finds them. -/
theorem MessageHeaderFrame.returns_version {r : TransactionVersion × UInt8} :
    (∃ p c₁, Returns (readByte b) c p c₁ ∧ Returns (readVersion b p) c₁ r c') ↔
      ((r.1 = .legacy ∧ r.2.toNat < 128) ∨ r.1 = .v0) ∧
        At b.bytes c.offset (versionBytes r.1 ++ [r.2]) ∧
        c' = c.moveTo (c.offset + (versionBytes r.1 ++ [r.2]).length) := by
  obtain ⟨version, n⟩ := r
  simp only [readVersion, returns_readByte]
  constructor
  · rintro ⟨p, _, ⟨hp, rfl⟩, h⟩
    split at h
    next hhigh =>
      split at h
      next hv =>
        simp only [returns_bind, returns_readByte, returns_pure, Prod.mk.injEq] at h
        obtain ⟨_, _, ⟨hn, rfl⟩, ⟨rfl, rfl⟩, rfl⟩ := h
        rw [v0_version_byte hhigh] at hv
        subst hv
        exact ⟨.inr rfl, at_append.mpr ⟨hp, hn⟩, rfl⟩
      next => simp at h
    next hlow =>
      rw [not_not, and_high_bit] at hlow
      simp only [returns_pure, Prod.mk.injEq] at h
      obtain ⟨⟨rfl, rfl⟩, rfl⟩ := h
      exact ⟨.inl ⟨rfl, hlow⟩, hp, rfl⟩
  · rintro ⟨⟨rfl, hlow⟩ | rfl, hat, rfl⟩
    · refine ⟨n, _, ⟨hat, rfl⟩, ?_⟩
      have hn : ¬ n &&& 0x80 ≠ 0 := not_not.mpr ((and_high_bit n).mpr hlow)
      rw [if_neg hn]
      exact returns_pure.mpr ⟨rfl, rfl⟩
    · obtain ⟨hp, hn⟩ := at_append.mp hat
      refine ⟨0x80, _, ⟨hp, rfl⟩, ?_⟩
      rw [if_pos (by decide), if_pos (by decide)]
      simp only [returns_bind, returns_readByte, returns_pure]
      exact ⟨n, _, ⟨hn, rfl⟩, rfl, rfl⟩

theorem MessageHeaderFrame.tryNew_sound {f : MessageHeaderFrame} (hc : c.offset ≤ b.len)
    (h : Returns (MessageHeaderFrame.tryNew b) c f c') :
    ∃ (version : TransactionVersion) (header : MessageHeader),
      ((version = .legacy ∧ header.numRequiredSignatures.toNat < 128) ∨ version = .v0) ∧
      At b.bytes c.offset (versionBytes version ++ header.encode) ∧
      f = header.frame version c.offset ∧
      Moves b c c' (versionBytes version ++ header.encode).length [(.message, c.offset)] := by
  simp only [MessageHeaderFrame.tryNew, returns_bind, returns_get, returns_offsetAsU16,
    returns_pure] at h
  obtain ⟨_, _, ⟨rfl, rfl⟩, _, _, ⟨rfl, rfl⟩, p, c₁, h₁, version, c₂, h₂, rs, c₃, h₃, ru, c₄, h₄,
    rfl, rfl⟩ := h
  have hm₀ := Moves.noteStored hc .message c.offset
  obtain ⟨hv, hat₂, rfl⟩ := returns_version.mp ⟨p, c₁, h₁, h₂⟩
  have hm₂ := Moves.moveTo (Slice.inside_of_at hat₂ hc)
  obtain ⟨hat₃, hm₃⟩ := readByte_sound hm₂.inside h₃
  obtain ⟨hat₄, hm₄⟩ := readByte_sound hm₃.inside h₄
  refine ⟨version.1, ⟨version.2, rs, ru⟩, hv, ?_, rfl, ?_⟩
  · change At b.bytes c.offset (versionBytes version.1 ++ ([version.2] ++ [rs] ++ [ru]))
    rw [← List.append_assoc, ← List.append_assoc]
    refine at_append.mpr ⟨at_append.mpr ⟨hat₂, hat₃⟩, ?_⟩
    simpa [hm₃.offset, Nat.add_assoc] using hat₄
  · have hm := ((hm₀.trans hm₂).trans hm₃).trans hm₄
    simpa [MessageHeader.encode, Nat.add_assoc] using hm

theorem MessageHeaderFrame.tryNew_complete {version : TransactionVersion} {header : MessageHeader}
    (hv : (version = .legacy ∧ header.numRequiredSignatures.toNat < 128) ∨ version = .v0)
    (h : At b.bytes c.offset (versionBytes version ++ header.encode)) :
    ∃ c', Returns (MessageHeaderFrame.tryNew b) c (header.frame version c.offset) c' ∧
      c'.offset = c.offset + (versionBytes version ++ header.encode).length := by
  obtain ⟨r, rs, ru⟩ := header
  change At b.bytes c.offset (versionBytes version ++ ([r] ++ [rs] ++ [ru])) at h
  rw [← List.append_assoc, ← List.append_assoc] at h
  obtain ⟨h, hat₄⟩ := at_append.mp h
  obtain ⟨hat₂, hat₃⟩ := at_append.mp h
  obtain ⟨p, c₁, h₁, h₂⟩ := (returns_version (c := c.noteStored .message c.offset)
    (r := (version, r))).mpr ⟨hv, hat₂, rfl⟩
  obtain ⟨c₃, h₃, ho₃⟩ := readByte_complete (c := (c.noteStored .message c.offset).moveTo
    (c.offset + (versionBytes version ++ [r]).length)) hat₃
  obtain ⟨c₄, h₄, ho₄⟩ := readByte_complete (b := b) (c := c₃) (v := ru) (by
    simpa [ho₃, Nat.add_assoc] using hat₄)
  refine ⟨c₄, ?_, by simp [ho₄, ho₃, MessageHeader.encode, Nat.add_assoc]⟩
  simp only [MessageHeaderFrame.tryNew, returns_bind, returns_get, returns_offsetAsU16,
    returns_pure]
  exact ⟨_, _, ⟨rfl, rfl⟩, _, _, ⟨rfl, rfl⟩, p, c₁, h₁, _, _, h₂, rs, _, h₃, ru, _, h₄, rfl, rfl⟩

theorem MessageHeaderFrame.safe_tryNew : Safe (MessageHeaderFrame.tryNew b) c := by
  refine (safe_get _).bind fun _ _ _ => (safe_offsetAsU16 _ _).bind fun _ _ _ =>
    safe_readByte.bind fun p _ _ => Safe.bind ?_ fun _ _ _ => safe_readByte.bind fun _ _ _ =>
      safe_readByte.bind fun _ _ _ => safe_pure _ _
  unfold readVersion
  split
  · split
    · exact safe_readByte.bind fun _ _ _ => safe_pure _ _
    · exact safe_fail
  · exact safe_pure _ _

end AgaveSdk.TxView
