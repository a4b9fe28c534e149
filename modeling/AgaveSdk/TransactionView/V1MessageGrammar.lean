import AgaveSdk.TransactionView.MessageGrammar

/-! What the parser of v1 messages accepts. -/
namespace AgaveSdk.TxView
open FallibleState Segments ByteOrder

variable {b : Slice} {c c' : Cursor} {host : Endian} {header : MessageHeader} {mask : UInt32}
  {hash : Hash} {numInstructions numAddresses : UInt8}

theorem encodeV1Front_length :
    (encodeV1Front host header mask hash numInstructions numAddresses).length = 42 := by
  simp [encodeV1Front, MessageHeader.encode]

theorem at_encodeV1Front {l : List UInt8} {o : ℕ} :
    At l o (encodeV1Front host header mask hash numInstructions numAddresses) ↔
      At l o ([v1Prefix] ++ header.encode) ∧ At l (o + 4) (hostBytes host 4 mask.toNat) ∧
      At l (o + 8) hash.toList ∧ At l (o + 40) [numInstructions] ∧
      At l (o + 41) [numAddresses] := by
  have he : ([v1Prefix] ++ header.encode).length = 4 := rfl
  simp only [encodeV1Front, at_append, he, List.length_singleton, hostBytes_length,
    Vector.length_toList]

namespace MessageFrame

/-- What `readV1Front` returns on the front of a message at an offset. -/
def v1Front (header : MessageHeader) (mask : UInt32) (numInstructions numAddresses : UInt8)
    (o : ℕ) : V1Front :=
  ⟨header.frame .v1 o, o + 4, mask, UInt16.ofNat (o + 8), numInstructions, numAddresses⟩

theorem readV1MessageHeader_sound {f : MessageHeaderFrame} (hc : c.offset ≤ b.len)
    (h : Returns (readV1MessageHeader b) c f c') :
    ∃ header : MessageHeader, c.offset + 42 ≤ b.len ∧
      At b.bytes c.offset ([v1Prefix] ++ header.encode) ∧ f = header.frame .v1 c.offset ∧
      Moves b c c' 4 [(.message, c.offset)] := by
  simp only [readV1MessageHeader, returns_bind, returns_get, returns_offsetAsU16, returns_rejectIf,
    returns_pure, ne_eq, not_not] at h
  obtain ⟨_, _, ⟨rfl, rfl⟩, _, c₁, h₁, _, _, ⟨rfl, rfl⟩, _, _, ⟨rfl, rfl⟩, _, c₂, h₂, _, _,
    ⟨rfl, rfl⟩, r, c₃, h₃, rs, c₄, h₄, ru, c₅, h₅, rfl, rfl⟩ := h
  obtain ⟨hfit, rfl⟩ := (returns_checkRemaining hc).mp h₁
  have hm₁ := (Moves.noteCheck hc fixedV1PrefixLen).trans
    (Moves.noteStored (c := c.noteCheck c.offset fixedV1PrefixLen) hc .message c.offset)
  obtain ⟨hat₂, hm₂⟩ := uncheckedReadByte_sound hm₁.inside h₂
  obtain ⟨hat₃, hm₃⟩ := uncheckedReadByte_sound hm₂.inside h₃
  obtain ⟨hat₄, hm₄⟩ := uncheckedReadByte_sound hm₃.inside h₄
  obtain ⟨hat₅, hm₅⟩ := uncheckedReadByte_sound hm₄.inside h₅
  have hm := (((hm₁.trans hm₂).trans hm₃).trans hm₄).trans hm₅
  refine ⟨⟨r, rs, ru⟩, hfit, ?_, rfl, hm.congr (by omega) rfl⟩
  change At b.bytes c.offset ([v1Prefix] ++ ([r] ++ ([rs] ++ [ru])))
  have ho₂ : c₂.offset = c.offset + 1 := hm₂.offset
  rw [hm₄.offset, hm₃.offset, ho₂] at hat₅
  rw [hm₃.offset, ho₂] at hat₄
  rw [ho₂] at hat₃
  exact at_append.mpr ⟨hat₂, at_append.mpr ⟨hat₃, at_append.mpr ⟨hat₄, hat₅⟩⟩⟩

theorem readV1Front_sound {front : V1Front} (hc : c.offset ≤ b.len)
    (h : Returns (readV1Front host b) c front c') :
    ∃ (header : MessageHeader) (hash : Hash),
      At b.bytes c.offset (encodeV1Front host header front.mask hash front.numInstructions
        front.numAddresses) ∧
      front = v1Front header front.mask front.numInstructions front.numAddresses c.offset ∧
      Moves b c c' 42 [(.message, c.offset), (.recentBlockhash, c.offset + 8)] := by
  simp only [readV1Front, checkedOffset, returns_bind, returns_get, returns_ofOutcome,
    returns_modify, returns_checkedOffsetOr, returns_pure] at h
  obtain ⟨_, c₁, h₁, _, _, ⟨rfl, rfl⟩, loaded, _, ⟨h₂, rfl⟩, _, _, rfl, _, _, ⟨rfl, rfl⟩, _, _,
    ⟨-, rfl, rfl⟩, _, _, rfl, n, c₃, h₃, k, c₄, h₄, rfl, rfl⟩ := h
  obtain ⟨header, hfit, hat₁, rfl, hm₁⟩ := readV1MessageHeader_sound hc h₁
  obtain ⟨hlt, hat₂⟩ := uncheckedCopyValue_sound h₂
  have ho₁ := hm₁.offset
  have hm₂ := Moves.skipUnchecked (b := b) (c := c₁) (n := 4) (by omega)
  have ho₂ : wrappingAdd c₁.offset 4 = c.offset + 8 := by
    have hin : c₁.offset + 4 ≤ b.len := by omega
    rw [wrappingAdd_eq hin, ho₁]
  rw [Cursor.moveTo_offset, ho₂] at h₃ ⊢
  have hm₃ := Moves.noteStored hm₂.inside .recentBlockhash (c.offset + 8)
  rw [ho₂] at hm₂ hm₃
  have hm₄ := Moves.skipUnchecked (n := 32) (b := b)
    (c := (c₁.moveTo (c.offset + 8)).noteStored .recentBlockhash (c.offset + 8)) (by
      rw [Cursor.noteStored_offset, Cursor.moveTo_offset]; omega)
  obtain ⟨hat₃, hm₅⟩ := uncheckedReadByte_sound hm₄.inside h₃
  obtain ⟨hat₄, hm₆⟩ := uncheckedReadByte_sound hm₅.inside h₄
  obtain ⟨hash, hat⟩ : ∃ hash : Hash, At b.bytes (c.offset + 8) hash.toList :=
    exists_vector (by omega) (by omega)
  have ho₃ : c₃.offset = c.offset + 41 := by
    rw [hm₅.offset, hm₄.offset]
    rfl
  have hn : (UInt32.ofNat loaded).toNat = loaded := UInt32.toNat_ofNat_of_lt hlt
  refine ⟨header, hash, at_encodeV1Front.mpr ⟨hat₁, ?_, hat, ?_, ho₃ ▸ hat₄⟩, ?_, ?_⟩
  · rw [hn, ← ho₁]
    exact hat₂
  · rwa [hm₄.offset] at hat₃
  · rw [v1Front, ho₁]
  · exact ((((hm₁.trans hm₂).trans hm₃).trans hm₄).trans hm₅ |>.trans hm₆).congr rfl rfl

theorem returns_of_uncheckedReadByte {v : UInt8} {o : ℕ} (ho : c.offset = o)
    (h : At b.bytes o [v]) : Returns (uncheckedReadByte b) c v (c.moveTo (o + 1)) :=
  returns_uncheckedReadByte.mpr ⟨ho ▸ h, by rw [ho]⟩

theorem readV1MessageHeader_complete (hfit : c.offset + 42 ≤ b.len)
    (h : At b.bytes c.offset ([v1Prefix] ++ header.encode)) :
    ∃ c', Returns (readV1MessageHeader b) c (header.frame .v1 c.offset) c' ∧
      c'.offset = c.offset + 4 := by
  obtain ⟨r, rs, ru⟩ := header
  change At b.bytes c.offset ([v1Prefix] ++ ([r] ++ ([rs] ++ [ru]))) at h
  simp only [at_append, List.length_singleton] at h
  obtain ⟨hat₁, hat₂, hat₃, hat₄⟩ := h
  have hcheck := (returns_checkRemaining (c := c) (n := fixedV1PrefixLen) (u := ())
    (by omega)).mpr ⟨hfit, rfl⟩
  refine ⟨c.noteCheck c.offset fixedV1PrefixLen |>.noteStored .message c.offset
    |>.moveTo (c.offset + 1 + 1 + 1 + 1), ?_, rfl⟩
  simp only [readV1MessageHeader, returns_bind, returns_get, returns_offsetAsU16, returns_rejectIf,
    returns_pure, ne_eq, not_not]
  exact ⟨_, _, ⟨rfl, rfl⟩, (), _, hcheck, _, _, ⟨rfl, rfl⟩, _, _, ⟨rfl, rfl⟩, _, _,
    returns_of_uncheckedReadByte rfl hat₁, (), _, ⟨rfl, rfl⟩, _, _,
    returns_of_uncheckedReadByte rfl hat₂, _, _, returns_of_uncheckedReadByte rfl hat₃, _, _,
    returns_of_uncheckedReadByte rfl hat₄, rfl, rfl⟩

theorem readV1Front_complete (hc : c.offset ≤ b.len) (hlt : c.offset + 8 < 2 ^ 16)
    (h : At b.bytes c.offset (encodeV1Front host header mask hash numInstructions numAddresses)) :
    ∃ c', Returns (readV1Front host b) c
        (v1Front header mask numInstructions numAddresses c.offset) c' ∧
      c'.offset = c.offset + 42 := by
  have hfit := Slice.inside_of_at h hc
  rw [encodeV1Front_length] at hfit
  obtain ⟨hat₁, hat₂, -, hat₃, hat₄⟩ := at_encodeV1Front.mp h
  obtain ⟨c₁, h₁, ho₁⟩ := readV1MessageHeader_complete hfit hat₁
  have hload : uncheckedCopyValue host 4 b c₁.offset = .ok mask.toNat := by
    have hv := uncheckedCopyValue_eq host (b := b) (by omega) hat₂
    rwa [hostBytes_length, load_hostBytes host (by simpa using mask.toNat_lt), ← ho₁] at hv
  have hw₁ : wrappingAdd c₁.offset 4 = c.offset + 8 := by
    have hin : c₁.offset + 4 ≤ b.len := by omega
    rw [wrappingAdd_eq hin, ho₁]
  have hw₂ : wrappingAdd (c.offset + 8) 32 = c.offset + 40 := by
    have hin : c.offset + 8 + 32 ≤ b.len := by omega
    rw [wrappingAdd_eq hin]
  refine ⟨c₁.moveTo (c.offset + 8) |>.noteStored .recentBlockhash (c.offset + 8)
    |>.moveTo (c.offset + 42), ?_, rfl⟩
  simp only [readV1Front, checkedOffset, returns_bind, returns_get, returns_ofOutcome,
    returns_modify, returns_checkedOffsetOr, returns_pure]
  refine ⟨_, c₁, h₁, _, _, ⟨rfl, rfl⟩, _, _, ⟨hload, rfl⟩, (), _, rfl, _, _, ⟨rfl, rfl⟩, ?_⟩
  rw [hw₁]
  refine ⟨_, _, ⟨hlt, rfl, rfl⟩, (), _, rfl, ?_⟩
  rw [Cursor.noteStored_offset, Cursor.moveTo_offset, hw₂]
  refine ⟨_, _, returns_of_uncheckedReadByte rfl hat₃, _, _, returns_of_uncheckedReadByte rfl hat₄,
    ?_, rfl⟩
  rw [v1Front, ho₁, UInt32.ofNat_toNat]

theorem safe_of_uncheckedReadByte {α : Type} {k : UInt8 → Reader α} (h : c.offset < b.len)
    (hk : ∀ v, Safe (k v) (c.moveTo (c.offset + 1))) : Safe (uncheckedReadByte b >>= k) c :=
  (safe_uncheckedReadByte h).bind fun v _ hs => by
    obtain ⟨-, rfl⟩ := returns_uncheckedReadByte.mp hs
    exact hk v

theorem safe_readV1MessageHeader (hc : c.offset ≤ b.len) : Safe (readV1MessageHeader b) c := by
  refine (safe_get _).bind fun _ _ hs => ?_
  obtain ⟨rfl, rfl⟩ := returns_get.mp hs
  refine (safe_checkRemaining _ _).bind fun _ _ hs => ?_
  obtain ⟨hfit, rfl⟩ := (returns_checkRemaining hc).mp hs
  change c.offset + 42 ≤ b.len at hfit
  refine (safe_get _).bind fun _ _ hs => ?_
  obtain ⟨rfl, rfl⟩ := returns_get.mp hs
  refine (safe_offsetAsU16 _ _).bind fun _ _ hs => ?_
  obtain ⟨-, rfl⟩ := returns_offsetAsU16.mp hs
  refine safe_of_uncheckedReadByte ?_ fun v => (safe_rejectIf _ _).bind fun _ _ hs => ?_
  · change c.offset < b.len
    omega
  obtain ⟨-, rfl⟩ := returns_rejectIf.mp hs
  refine safe_of_uncheckedReadByte ?_ fun r => ?_
  · change c.offset + 1 < b.len
    omega
  refine safe_of_uncheckedReadByte ?_ fun rs => ?_
  · change c.offset + 1 + 1 < b.len
    omega
  refine safe_of_uncheckedReadByte ?_ fun ru => safe_pure _ _
  change c.offset + 1 + 1 + 1 < b.len
  omega

theorem safe_readV1Front (hc : c.offset ≤ b.len) : Safe (readV1Front host b) c := by
  refine (safe_readV1MessageHeader hc).bind fun _ c₁ hs => ?_
  obtain ⟨_, hfit, -, -, hm⟩ := readV1MessageHeader_sound hc hs
  have ho := hm.offset
  refine (safe_get _).bind fun _ _ hs => ?_
  obtain ⟨rfl, rfl⟩ := returns_get.mp hs
  refine (safe_ofOutcome ?_ _).bind fun _ _ hs => ?_
  · rw [uncheckedCopyValue, rawRegion, if_pos (by omega)]
    exact noFault_ok _
  obtain ⟨-, rfl⟩ := returns_ofOutcome.mp hs
  have hw₁ : wrappingAdd c₁.offset 4 = c.offset + 8 := by
    have hin : c₁.offset + 4 ≤ b.len := by omega
    rw [wrappingAdd_eq hin, ho]
  have hw₂ : wrappingAdd (c.offset + 8) 32 = c.offset + 40 := by
    have hin : c.offset + 8 + 32 ≤ b.len := by omega
    rw [wrappingAdd_eq hin]
  refine (safe_modify _ _).bind fun _ _ hs => (safe_get _).bind fun _ _ hg =>
    (safe_checkedOffsetOr _ _ _).bind fun _ _ hk => (safe_modify _ _).bind fun _ _ ht => ?_
  obtain rfl := returns_modify.mp hs
  obtain ⟨rfl, rfl⟩ := returns_get.mp hg
  obtain ⟨-, -, rfl⟩ := returns_checkedOffsetOr.mp hk
  obtain rfl := returns_modify.mp ht
  rw [Cursor.noteStored_offset, Cursor.moveTo_offset, hw₁, hw₂]
  refine safe_of_uncheckedReadByte ?_ fun n => safe_of_uncheckedReadByte ?_ fun k => safe_pure _ _
  · change c.offset + 40 < b.len
    omega
  · change c.offset + 40 + 1 < b.len
    omega

end MessageFrame

namespace Message

def v1WordsOffset (m : Message) (o : ℕ) : ℕ := o + 42 + m.keyBytes.length

def v1InstructionsOffset (m : Message) (o : ℕ) : ℕ :=
  m.v1WordsOffset o + (m.config.words.flatMap Vector.toList).length

theorem v1FrontBytes_length (host : Endian) (m : Message) : (m.v1FrontBytes host).length = 42 :=
  encodeV1Front_length

theorem v1InstructionsOffset_add (host : Endian) (m : Message) (o : ℕ) :
    m.v1InstructionsOffset o + (encodeV1Instructions m.instructions).length =
      o + (m.encodeV1 host).length := by
  simp only [v1InstructionsOffset, v1WordsOffset, encodeV1, List.length_append,
    v1FrontBytes_length]
  omega

theorem at_encodeV1 {m : Message} {l : List UInt8} {o : ℕ} :
    At l o (m.encodeV1 host) ↔ At l o (m.v1FrontBytes host) ∧ At l (o + 42) m.keyBytes ∧
      At l (m.v1WordsOffset o) (m.config.words.flatMap Vector.toList) ∧
      At l (m.v1InstructionsOffset o) (encodeV1Instructions m.instructions) := by
  simp only [encodeV1, at_append, v1FrontBytes_length]
  rfl

/-- The frame of a v1 message that starts at an offset. -/
def v1Frame (m : Message) (o : ℕ) : MessageFrame where
  messageHeader := m.header.frame .v1 o
  staticAccountKeys := ⟨UInt8.ofNat m.staticAccountKeys.length, UInt16.ofNat (o + 42)⟩
  recentBlockhashOffset := UInt16.ofNat (o + 8)
  instructions := .ofV1Instructions m.instructions (m.v1InstructionsOffset o)
  addressTableLookup := .empty
  transactionConfigFrame := .ofConfig m.config (o + 4) (m.v1WordsOffset o)
  endOffset := UInt16.ofNat
    (m.v1InstructionsOffset o + (encodeV1Instructions m.instructions).length)

def v1Offsets (m : Message) (o : ℕ) : List (OffsetField × ℕ) :=
  [(.message, o), (.recentBlockhash, o + 8), (.staticAccountKeys, o + 42), (.configMask, o + 4),
    (.configValues, m.v1WordsOffset o), (.v1Headers, m.v1InstructionsOffset o),
    (.v1Payloads, m.v1InstructionsOffset o + 4 * m.instructions.length),
    (.messageEnd, m.v1InstructionsOffset o + (encodeV1Instructions m.instructions).length)]

/-- What the parser asks of a v1 message, besides its size. -/
structure ParseableV1 (m : Message) : Prop where
  version : m.version = .v1
  mask : TransactionConfig.MaskValid m.config.mask

end Message

namespace MessageFrame

theorem tryNewAsV1_sound {f : MessageFrame} (h : Returns (tryNewAsV1 host b) c f c') :
    ∃ m : Message, m.ParseableV1 ∧ At b.bytes 0 (m.encodeV1 host) ∧
      (m.encodeV1 host).length < 2 ^ 16 ∧ f = m.v1Frame 0 ∧
      Moves b (c.moveTo 0) c' (m.encodeV1 host).length (m.v1Offsets 0) := by
  simp only [tryNewAsV1, checkedOffset, returns_bind, returns_modify, returns_get,
    returns_checkedOffsetOr, returns_pure] at h
  obtain ⟨_, _, rfl, front, c₁, h₁, _, _, ⟨rfl, rfl⟩, _, _, ⟨-, rfl, rfl⟩, _, c₂, h₂, cf, c₃, h₃,
    ixf, c₄, h₄, _, _, ⟨rfl, rfl⟩, _, _, ⟨hend, rfl, rfl⟩, rfl, rfl⟩ := h
  obtain ⟨header, hash, hat₁, hfront, hm₁⟩ := readV1Front_sound (Nat.zero_le _) h₁
  have hm₁' := Moves.noteStored hm₁.inside .staticAccountKeys c₁.offset
  obtain ⟨keys, hk, hat₂, hm₂⟩ := advanceOffsetForArray_sound (by decide) hm₁'.inside h₂
  obtain ⟨config, hmask, hvalid, hat₃, rfl, hm₃⟩ :=
    TransactionConfigFrame.tryNew_sound hm₂.inside h₃
  obtain ⟨ixs, hn, hfit, hat₄, rfl, hm₄⟩ := InstructionsFrame.tryNewForV1_sound hm₃.inside h₄
  have hm₅ := Moves.noteStored hm₄.inside .messageEnd c₄.offset
  rw [UInt8.toNat_toUInt16] at hk
  let m : Message := ⟨.v1, header, keys, hash, ixs, [], config, fun _ => rfl,
    fun h => absurd rfl h, fun _ => ⟨hk ▸ front.numAddresses.toNat_lt,
      hn ▸ front.numInstructions.toNat_lt, hfit⟩⟩
  have ho₁ : c₁.offset = 0 + 42 := hm₁.offset
  have ho₂ : c₂.offset = m.v1WordsOffset 0 := by
    rw [hm₂.offset, Cursor.noteStored_offset, ho₁]; rfl
  have ho₃ : c₃.offset = m.v1InstructionsOffset 0 := by rw [hm₃.offset, ho₂]; rfl
  have ho₄ : c₄.offset =
      m.v1InstructionsOffset 0 + (encodeV1Instructions m.instructions).length := by
    rw [hm₄.offset, ho₃]
  have hlen := m.v1InstructionsOffset_add host 0
  have hcounts : m.v1FrontBytes host = encodeV1Front host header front.mask hash
      front.numInstructions front.numAddresses := by
    simp only [Message.v1FrontBytes, m, hn, hk, hmask, UInt8.ofNat_toNat]
  rw [Cursor.noteStored_offset, ho₁] at hat₂
  rw [ho₂] at hat₃
  rw [ho₃] at hat₄
  refine ⟨m, ⟨rfl, hmask ▸ hvalid⟩, ?_, ?_, ?_, ?_⟩
  · exact Message.at_encodeV1.mpr ⟨hcounts ▸ hat₁, hat₂, hat₃, hat₄⟩
  · rw [ho₄, hlen, Nat.zero_add] at hend
    exact hend
  · rw [hfront, ho₁, ho₂, ho₃, ho₄]
    simp only [v1Front, Message.v1Frame, m, hk, UInt8.ofNat_toNat]
    rfl
  · have hm := ((((hm₁.trans hm₁').trans hm₂).trans hm₃).trans hm₄).trans hm₅
    refine hm.congr ?_ ?_
    · have htotal : c₄.offset = 0 + _ := hm.offset
      rw [ho₄, hlen] at htotal
      omega
    · rw [hfront, ho₁, ho₂, ho₃, ho₄]
      rfl

theorem tryNewAsV1_complete {m : Message} (hp : m.ParseableV1)
    (hend : (m.encodeV1 host).length < 2 ^ 16) (h : At b.bytes 0 (m.encodeV1 host)) :
    ∃ c', Returns (tryNewAsV1 host b) c (m.v1Frame 0) c' ∧
      c'.offset = (m.encodeV1 host).length := by
  obtain ⟨hat₁, hat₂, hat₃, hat₄⟩ := Message.at_encodeV1.mp h
  obtain ⟨hkeys, hixs, hfit⟩ := m.fits_v1 hp.version
  have hk : (UInt8.ofNat m.staticAccountKeys.length).toNat = m.staticAccountKeys.length :=
    UInt8.toNat_ofNat_of_lt hkeys
  have hn : (UInt8.ofNat m.instructions.length).toNat = m.instructions.length :=
    UInt8.toNat_ofNat_of_lt hixs
  have hi₁ : 0 + 42 ≤ b.len := by
    have hi := Slice.inside_of_at hat₁ (Nat.zero_le _)
    rwa [m.v1FrontBytes_length] at hi
  have hi₂ : m.v1WordsOffset 0 ≤ b.len := Slice.inside_of_at hat₂ hi₁
  have hi₃ : m.v1InstructionsOffset 0 ≤ b.len := Slice.inside_of_at hat₃ hi₂
  have hlen := m.v1InstructionsOffset_add host 0
  have hwords : m.v1WordsOffset 0 < 2 ^ 16 := by
    unfold Message.v1InstructionsOffset at hlen
    omega
  obtain ⟨c₁, h₁, ho₁⟩ := readV1Front_complete (c := c.moveTo 0) (Nat.zero_le _)
    (by rw [Cursor.moveTo_offset]; decide) hat₁
  have ho₁ : c₁.offset = 0 + 42 := ho₁
  obtain ⟨c₂, h₂, ho₂⟩ := advanceOffsetForArray_complete (show 32 ≤ 64 by decide)
    (n := (UInt8.ofNat m.staticAccountKeys.length).toUInt16) (x := m.keyBytes)
    (c := c₁.noteStored .staticAccountKeys c₁.offset) (ho₁ ▸ hi₁)
    (by rw [UInt8.toNat_toUInt16, hk, Message.keyBytes, flatMap_toList_length]) (ho₁ ▸ hat₂)
  have ho₂ : c₂.offset = m.v1WordsOffset 0 := by rw [ho₂, Cursor.noteStored_offset, ho₁]; rfl
  obtain ⟨c₃, h₃, ho₃⟩ := TransactionConfigFrame.tryNew_complete hp.mask (show 0 < 0 + 4 by decide)
    (by decide) (ho₂ ▸ hwords) (ho₂ ▸ hi₂) (ho₂ ▸ hat₃)
  have ho₃ : c₃.offset = m.v1InstructionsOffset 0 := by rw [ho₃, ho₂]; rfl
  obtain ⟨c₄, h₄, ho₄⟩ := InstructionsFrame.tryNewForV1_complete hn.symm hfit (ho₃ ▸ hi₃)
    (ho₃ ▸ hat₄)
  have ho₄ : c₄.offset = m.v1InstructionsOffset 0 +
      (encodeV1Instructions m.instructions).length := by rw [ho₄, ho₃]
  refine ⟨c₄.noteStored .messageEnd c₄.offset, ?_, by rw [Cursor.noteStored_offset]; omega⟩
  simp only [tryNewAsV1, checkedOffset, returns_bind, returns_modify, returns_get,
    returns_checkedOffsetOr, returns_pure]
  refine ⟨(), _, rfl, _, c₁, h₁, _, _, ⟨rfl, rfl⟩, _, _, ⟨by rw [ho₁]; decide, rfl, rfl⟩,
    (), c₂, h₂, _, c₃, h₃, _, c₄, h₄, _, _, ⟨rfl, rfl⟩, _, _, ⟨by omega, rfl, rfl⟩, ?_, rfl⟩
  rw [ho₁, ho₂, ho₃, ho₄]
  rfl

theorem safe_tryNewAsV1 : Safe (tryNewAsV1 host b) c := by
  refine (safe_modify _ _).bind fun _ _ hs => ?_
  obtain rfl := returns_modify.mp hs
  refine (safe_readV1Front (Nat.zero_le _)).bind fun front c₁ h₁ => ?_
  obtain ⟨_, _, -, hfront, hm₁⟩ := readV1Front_sound (Nat.zero_le _) h₁
  refine (safe_get _).bind fun _ _ hs => (safe_checkedOffsetOr _ _ _).bind fun _ _ hk =>
    (safe_advanceOffsetForArray _ _).bind fun _ c₂ h₂ => ?_
  obtain ⟨rfl, rfl⟩ := returns_get.mp hs
  obtain ⟨-, -, rfl⟩ := returns_checkedOffsetOr.mp hk
  obtain ⟨_, -, -, hm₂⟩ := advanceOffsetForArray_sound (c := c₁.noteStored _ _) (by decide)
    hm₁.inside h₂
  have hpos : 0 < front.maskOffset := by
    rw [hfront]
    exact Nat.succ_pos _
  refine (TransactionConfigFrame.safe_tryNew hpos _).bind fun _ c₃ h₃ => ?_
  obtain ⟨_, -, -, -, -, hm₃⟩ := TransactionConfigFrame.tryNew_sound hm₂.inside h₃
  exact (InstructionsFrame.safe_tryNewForV1 hm₃.inside).bind fun _ _ _ => (safe_get _).bind
    fun _ _ _ => (safe_checkedOffsetOr _ _ _).bind fun _ _ _ => safe_pure _ _

end MessageFrame

end AgaveSdk.TxView
