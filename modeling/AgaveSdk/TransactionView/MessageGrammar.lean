import AgaveSdk.TransactionView.MessageFrame
import AgaveSdk.TransactionView.V1InstructionsGrammar

/-! Messages, their wire form in each version, and what the message parsers accept. -/
namespace AgaveSdk.TxView
open FallibleState Segments ByteOrder

/-- A message of any version. Only v0 has lookups, only v1 has a config section, and the counts
of a v1 message fit their bytes. -/
structure Message where
  version : TransactionVersion
  header : MessageHeader
  staticAccountKeys : List Pubkey
  recentBlockhash : Hash
  instructions : List SVMInstruction
  lookups : List SVMMessageAddressTableLookup
  config : TransactionConfig
  lookups_eq_nil : version ≠ .v0 → lookups = []
  config_eq_empty : version ≠ .v1 → config = .empty
  fits_v1 : version = .v1 → staticAccountKeys.length < 256 ∧ instructions.length < 256 ∧
    ∀ ix ∈ instructions, ix.FitsV1

/-- The lookup section, which only a v0 message has. -/
def lookupBytes (lookups : List SVMMessageAddressTableLookup) : TransactionVersion → List UInt8
  | .v0 => encodeLookups lookups
  | _ => []

/-- The fixed-size front of a v1 message. -/
def encodeV1Front (host : Endian) (header : MessageHeader) (mask : UInt32) (recentBlockhash : Hash)
    (numInstructions numAddresses : UInt8) : List UInt8 :=
  ([v1Prefix] ++ header.encode) ++ (hostBytes host 4 mask.toNat ++
    (recentBlockhash.toList ++ ([numInstructions] ++ [numAddresses])))

namespace Message

def headerBytes (m : Message) : List UInt8 := versionBytes m.version ++ m.header.encode

def keyBytes (m : Message) : List UInt8 := m.staticAccountKeys.flatMap Vector.toList

def countedKeyBytes (m : Message) : List UInt8 :=
  shortU16 m.staticAccountKeys.length ++ m.keyBytes

def encodeLegacyOrV0 (m : Message) : List UInt8 :=
  m.headerBytes ++ (m.countedKeyBytes ++ (m.recentBlockhash.toList ++
    (encodeInstructions m.instructions ++ lookupBytes m.lookups m.version)))

def v1FrontBytes (host : Endian) (m : Message) : List UInt8 :=
  encodeV1Front host m.header m.config.mask m.recentBlockhash
    (UInt8.ofNat m.instructions.length) (UInt8.ofNat m.staticAccountKeys.length)

def encodeV1 (host : Endian) (m : Message) : List UInt8 :=
  m.v1FrontBytes host ++ (m.keyBytes ++
    (m.config.words.flatMap Vector.toList ++ encodeV1Instructions m.instructions))

/-- The wire form of a message. The host only matters to the mask of a v1 message. -/
def encode (host : Endian) (m : Message) : List UInt8 :=
  if m.version = .v1 then m.encodeV1 host else m.encodeLegacyOrV0

/-- What the parser asks of a legacy or v0 message, besides its size. -/
structure ParseableLegacyOrV0 (m : Message) : Prop where
  version : (m.version = .legacy ∧ m.header.numRequiredSignatures.toNat < 128) ∨ m.version = .v0
  keys_pos : 1 ≤ m.staticAccountKeys.length
  keys_le : m.staticAccountKeys.length ≤ 38
  instructions_lt : m.instructions.length < 16384
  instructions_compact : ∀ ix ∈ m.instructions, ix.Compact
  lookups_le : m.lookups.length ≤ 31
  lookups_compact : ∀ l ∈ m.lookups, l.Compact

theorem ParseableLegacyOrV0.version_ne {m : Message} (h : m.ParseableLegacyOrV0) :
    m.version ≠ .v1 :=
  TransactionVersion.ne_v1_iff.mpr (h.version.imp_left And.left)

def keysOffset (m : Message) (o : ℕ) : ℕ := o + m.headerBytes.length

def blockhashOffset (m : Message) (o : ℕ) : ℕ := m.keysOffset o + m.countedKeyBytes.length

def instructionsOffset (m : Message) (o : ℕ) : ℕ :=
  m.blockhashOffset o + m.recentBlockhash.toList.length

def lookupsOffset (m : Message) (o : ℕ) : ℕ :=
  m.instructionsOffset o + (encodeInstructions m.instructions).length

theorem lookupsOffset_add (m : Message) (o : ℕ) :
    m.lookupsOffset o + (lookupBytes m.lookups m.version).length =
      o + m.encodeLegacyOrV0.length := by
  simp only [lookupsOffset, instructionsOffset, blockhashOffset, keysOffset, encodeLegacyOrV0,
    List.length_append]
  omega

theorem at_encodeLegacyOrV0 {m : Message} {l : List UInt8} {o : ℕ} :
    At l o m.encodeLegacyOrV0 ↔ At l o m.headerBytes ∧ At l (m.keysOffset o) m.countedKeyBytes ∧
      At l (m.blockhashOffset o) m.recentBlockhash.toList ∧
      At l (m.instructionsOffset o) (encodeInstructions m.instructions) ∧
      At l (m.lookupsOffset o) (lookupBytes m.lookups m.version) := by
  simp only [encodeLegacyOrV0, at_append]
  rfl

def lookupFrame (m : Message) (o : ℕ) : AddressTableLookupFrame :=
  if m.version = .v0 then .ofLookups m.lookups (m.lookupsOffset o) else .empty

/-- The frame of a legacy or v0 message that starts at an offset. -/
def legacyOrV0Frame (m : Message) (o : ℕ) : MessageFrame where
  messageHeader := m.header.frame m.version o
  staticAccountKeys := ⟨UInt8.ofNat m.staticAccountKeys.length, UInt16.ofNat (m.keysOffset o + 1)⟩
  recentBlockhashOffset := UInt16.ofNat (m.blockhashOffset o)
  instructions := .ofInstructions m.instructions (m.instructionsOffset o)
  addressTableLookup := m.lookupFrame o
  transactionConfigFrame := .notApplicable
  endOffset := UInt16.ofNat (o + m.encodeLegacyOrV0.length)

/-- The bytes left behind the lookup count hold what the parser expects for each lookup. -/
def LookupsFit (m : Message) (o len : ℕ) : Prop :=
  m.version = .v0 → m.lookupsOffset o + 1 + 35 * m.lookups.length ≤ len

def legacyOrV0Offsets (m : Message) (o : ℕ) : List (OffsetField × ℕ) :=
  [(.message, o), (.staticAccountKeys, m.keysOffset o + 1),
    (.recentBlockhash, m.blockhashOffset o),
    (.instructions, m.instructionsOffset o + (shortU16 m.instructions.length).length)] ++
  (if m.version = .v0 then [(.addressTableLookups, m.lookupsOffset o + 1)] else []) ++
  [(.messageEnd, o + m.encodeLegacyOrV0.length)]

end Message

/-- The index totals are bounded by the bytes the lookups take. -/
theorem totals_le_lookupBytes {lookups : List SVMMessageAddressTableLookup}
    {version : TransactionVersion} (hnil : version ≠ .v0 → lookups = []) :
    totalWritable lookups + totalReadonly lookups ≤ (lookupBytes lookups version).length := by
  by_cases hv : version = .v0
  · have h := totals_add_le lookups
    rw [hv, lookupBytes, encodeLookups, List.length_append]
    omega
  · rw [hnil hv]
    exact Nat.zero_le _

variable {b : Slice} {c c' : Cursor} {host : Endian} {o : ℕ}

namespace MessageFrame

theorem readLookups_sound {version : TransactionVersion} {f : AddressTableLookupFrame}
    (hc : c.offset ≤ b.len) (h : Returns (readLookups b version) c f c') :
    ∃ lookups : List SVMMessageAddressTableLookup, (version ≠ .v0 → lookups = []) ∧
      lookups.length ≤ 31 ∧ (∀ l ∈ lookups, l.Compact) ∧
      (version = .v0 → c.offset + 1 + 35 * lookups.length ≤ b.len) ∧
      At b.bytes c.offset (lookupBytes lookups version) ∧
      f = (if version = .v0 then .ofLookups lookups c.offset else .empty) ∧
      Moves b c c' (lookupBytes lookups version).length
        (if version = .v0 then [(.addressTableLookups, c.offset + 1)] else []) := by
  cases version with
  | legacy =>
    obtain ⟨rfl, rfl⟩ := returns_pure.mp h
    exact ⟨[], fun _ => rfl, by simp, by simp, by simp, at_nil .., rfl, Moves.refl hc⟩
  | v0 =>
    obtain ⟨lookups, hle, hx, hfit, hat, rfl, hm⟩ := AddressTableLookupFrame.tryNew_sound hc h
    exact ⟨lookups, by simp, hle, hx, fun _ => hfit, hat, rfl, hm⟩
  | v1 => exact absurd h returns_throw

theorem readLookups_complete {version : TransactionVersion} (hv : version ≠ .v1)
    {lookups : List SVMMessageAddressTableLookup} (hle : lookups.length ≤ 31)
    (hx : ∀ l ∈ lookups, l.Compact) (hw : totalWritable lookups < 2 ^ 16)
    (hr : totalReadonly lookups < 2 ^ 16)
    (hfit : version = .v0 → c.offset + 1 + 35 * lookups.length ≤ b.len)
    (h : At b.bytes c.offset (lookupBytes lookups version)) :
    ∃ c', Returns (readLookups b version) c
        (if version = .v0 then .ofLookups lookups c.offset else .empty) c' ∧
      c'.offset = c.offset + (lookupBytes lookups version).length := by
  cases version with
  | legacy => exact ⟨c, returns_pure.mpr ⟨rfl, rfl⟩, rfl⟩
  | v0 => exact AddressTableLookupFrame.tryNew_complete hle hx hw hr (hfit rfl) h
  | v1 => exact absurd rfl hv

theorem safe_readLookups {version : TransactionVersion} (hv : version ≠ .v1) :
    Safe (readLookups b version) c := by
  cases version with
  | legacy => exact safe_pure _ _
  | v0 => exact AddressTableLookupFrame.safe_tryNew
  | v1 => exact absurd rfl hv

theorem tryNewAsLegacyOrV0_sound {f : MessageFrame} (ho : o ≤ b.len)
    (h : Returns (tryNewAsLegacyOrV0 b o) c f c') :
    ∃ m : Message, m.ParseableLegacyOrV0 ∧ m.LookupsFit o b.len ∧
      At b.bytes o m.encodeLegacyOrV0 ∧ o + m.encodeLegacyOrV0.length < 2 ^ 16 ∧
      f = m.legacyOrV0Frame o ∧
      Moves b (c.moveTo o) c' m.encodeLegacyOrV0.length (m.legacyOrV0Offsets o) := by
  simp only [tryNewAsLegacyOrV0, checkedOffset, returns_bind, returns_modify, returns_get,
    returns_checkedOffsetOr, returns_pure] at h
  obtain ⟨_, _, rfl, hf, c₁, h₁, kf, c₂, h₂, _, _, ⟨rfl, rfl⟩, _, _, ⟨-, rfl, rfl⟩, _, c₃, h₃,
    ixf, c₄, h₄, lf, c₅, h₅, _, _, ⟨rfl, rfl⟩, _, _, ⟨hend, rfl, rfl⟩, rfl, rfl⟩ := h
  obtain ⟨version, header, hv, hat₁, rfl, hm₁⟩ := MessageHeaderFrame.tryNew_sound ho h₁
  obtain ⟨keys, hpos, hle, hat₂, rfl, hm₂⟩ := StaticAccountKeysFrame.tryNew_sound hm₁.inside h₂
  have hm₂' := Moves.noteStored hm₂.inside .recentBlockhash c₂.offset
  obtain ⟨hash, hat₃, hm₃⟩ := advanceOffsetForType_sound hm₂'.inside h₃
  obtain ⟨ixs, hlt, hx, hat₄, rfl, hm₄⟩ :=
    InstructionsFrame.tryNewForLegacyAndV0_sound hm₃.inside h₄
  obtain ⟨lookups, hnil, hl, hlx, hfit, hat₅, rfl, hm₅⟩ := readLookups_sound hm₄.inside h₅
  have hm₆ := Moves.noteStored hm₅.inside .messageEnd c₅.offset
  have hv1 : version ≠ .v1 := TransactionVersion.ne_v1_iff.mpr (hv.imp_left And.left)
  let m : Message := ⟨version, header, keys, hash, ixs, lookups, .empty, hnil, fun _ => rfl,
    fun h => absurd h hv1⟩
  have ho₁ : c₁.offset = m.keysOffset o := hm₁.offset
  have ho₂ : c₂.offset = m.blockhashOffset o := by rw [hm₂.offset, ho₁]; rfl
  have ho₃ : c₃.offset = m.instructionsOffset o := by
    rw [hm₃.offset, Cursor.noteStored_offset, ho₂]; rfl
  have ho₄ : c₄.offset = m.lookupsOffset o := by rw [hm₄.offset, ho₃]; rfl
  have ho₅ : c₅.offset = o + m.encodeLegacyOrV0.length := by
    rw [hm₅.offset, ho₄]
    exact m.lookupsOffset_add o
  rw [Cursor.noteStored_offset, ho₂] at hat₃
  rw [ho₁] at hat₂
  rw [ho₃] at hat₄
  rw [ho₄] at hat₅ hfit
  refine ⟨m, ⟨hv, hpos, hle, hlt, hx, hl, hlx⟩, hfit, ?_, ho₅ ▸ hend, ?_, ?_⟩
  · exact Message.at_encodeLegacyOrV0.mpr ⟨hat₁, hat₂, hat₃, hat₄, hat₅⟩
  · rw [ho₁, ho₂, ho₃, ho₄, ho₅]
    rfl
  · have hm := ((((hm₁.trans hm₂).trans hm₂').trans hm₃).trans hm₄).trans hm₅ |>.trans hm₆
    have hlen : o + m.encodeLegacyOrV0.length = (c.moveTo o).offset + _ := ho₅ ▸ hm.offset
    refine hm.congr ?_ ?_
    · exact (Nat.add_left_cancel hlen).symm
    · rw [ho₁, ho₂, ho₃, ho₄, ho₅]
      rfl

theorem tryNewAsLegacyOrV0_complete {m : Message} (hp : m.ParseableLegacyOrV0)
    (hfit : m.LookupsFit o b.len) (ho : o ≤ b.len)
    (hend : o + m.encodeLegacyOrV0.length < 2 ^ 16) (h : At b.bytes o m.encodeLegacyOrV0) :
    ∃ c', Returns (tryNewAsLegacyOrV0 b o) c (m.legacyOrV0Frame o) c' ∧
      c'.offset = o + m.encodeLegacyOrV0.length := by
  obtain ⟨hat₁, hat₂, hat₃, hat₄, hat₅⟩ := Message.at_encodeLegacyOrV0.mp h
  have hi₁ : m.keysOffset o ≤ b.len := Slice.inside_of_at hat₁ ho
  have hi₂ : m.blockhashOffset o ≤ b.len := Slice.inside_of_at hat₂ hi₁
  have hi₃ : m.instructionsOffset o ≤ b.len := Slice.inside_of_at hat₃ hi₂
  have htot := totals_le_lookupBytes m.lookups_eq_nil
  have hlen := m.lookupsOffset_add o
  have hblock : m.blockhashOffset o < 2 ^ 16 := by
    unfold Message.lookupsOffset Message.instructionsOffset at hlen
    omega
  obtain ⟨c₁, h₁, ho₁⟩ := MessageHeaderFrame.tryNew_complete (c := c.moveTo o) hp.version hat₁
  have ho₁ : c₁.offset = m.keysOffset o := ho₁
  obtain ⟨c₂, h₂, ho₂⟩ := StaticAccountKeysFrame.tryNew_complete (c := c₁) (ho₁ ▸ hi₁) hp.keys_pos
    hp.keys_le (ho₁ ▸ hat₂)
  have ho₂ : c₂.offset = m.blockhashOffset o := by rw [ho₂, ho₁]; rfl
  obtain ⟨c₃, h₃, ho₃⟩ := advanceOffsetForType_complete
    (c := c₂.noteStored .recentBlockhash c₂.offset) (v := m.recentBlockhash)
    (ho₂ ▸ hi₂) (ho₂ ▸ hat₃)
  have ho₃ : c₃.offset = m.instructionsOffset o := by
    rw [ho₃, Cursor.noteStored_offset, ho₂]; rfl
  obtain ⟨c₄, h₄, ho₄⟩ := InstructionsFrame.tryNewForLegacyAndV0_complete (c := c₃)
    hp.instructions_lt hp.instructions_compact (ho₃ ▸ hi₃) (ho₃ ▸ hat₄)
  have ho₄ : c₄.offset = m.lookupsOffset o := by rw [ho₄, ho₃]; rfl
  obtain ⟨c₅, h₅, ho₅⟩ :=
    readLookups_complete (c := c₄) hp.version_ne hp.lookups_le hp.lookups_compact
    (by omega) (by omega) (by rw [ho₄]; exact hfit) (ho₄ ▸ hat₅)
  have ho₅ : c₅.offset = o + m.encodeLegacyOrV0.length := by
    rw [ho₅, ho₄]
    exact hlen
  refine ⟨c₅.noteStored .messageEnd c₅.offset, ?_, by rw [Cursor.noteStored_offset, ho₅]⟩
  simp only [tryNewAsLegacyOrV0, checkedOffset, returns_bind, returns_modify, returns_get,
    returns_checkedOffsetOr, returns_pure]
  refine ⟨(), _, rfl, _, c₁, h₁, _, c₂, h₂, _, _, ⟨rfl, rfl⟩, _, _, ⟨ho₂ ▸ hblock, rfl, rfl⟩,
    (), c₃, h₃, _, c₄, h₄, _, c₅, h₅, _, _, ⟨rfl, rfl⟩, _, _, ⟨ho₅ ▸ hend, rfl, rfl⟩, ?_, rfl⟩
  rw [ho₁, ho₂, ho₃, ho₄, ho₅]
  rfl

theorem safe_tryNewAsLegacyOrV0 (ho : o ≤ b.len) : Safe (tryNewAsLegacyOrV0 b o) c := by
  refine (safe_modify _ _).bind fun _ _ hs => ?_
  obtain rfl := returns_modify.mp hs
  refine MessageHeaderFrame.safe_tryNew.bind fun hf c₁ h₁ => ?_
  obtain ⟨version, header, hv, -, rfl, -⟩ := MessageHeaderFrame.tryNew_sound ho h₁
  have hv1 : version ≠ .v1 := TransactionVersion.ne_v1_iff.mpr (hv.imp_left And.left)
  exact StaticAccountKeysFrame.safe_tryNew.bind fun _ _ _ => (safe_get _).bind fun _ _ _ =>
    (safe_checkedOffsetOr _ _ _).bind fun _ _ _ => (safe_advanceOffsetForType _).bind fun _ _ _ =>
      InstructionsFrame.safe_tryNewForLegacyAndV0.bind fun _ _ _ =>
        (safe_readLookups hv1).bind fun _ _ _ => (safe_get _).bind fun _ _ _ =>
          (safe_checkedOffsetOr _ _ _).bind fun _ _ _ => safe_pure _ _

end MessageFrame

end AgaveSdk.TxView
