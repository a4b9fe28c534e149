import AgaveSdk.TransactionView.PrefixParsing

/-! A message by itself and the same message inside a transaction. -/
namespace AgaveSdk.TxView
open FallibleState Segments ByteOrder

variable {host : Endian} {b s : Slice} {tx : Transaction} {m : Message}
  {signatures : List Signature}

theorem Encodes.version_eq {view : MessageView false}
    (h : MessageView.tryNewUnsanitized host b = .ok view) :
    ∃ m, Encodes host b m ∧ view = ⟨b, m.frame 0⟩ ∧ view.version = m.version ∧
      view.numRequiredSignatures = m.header.numRequiredSignatures := by
  obtain ⟨m, henc, rfl⟩ := MessageView.tryNewUnsanitized_ok.mp h
  have hr := henc.stands.reads false
  exact ⟨m, henc, rfl, hr.version, hr.numRequiredSignatures⟩

/-- The bytes of a message determine what its accessors return. -/
theorem Encodes.contents_unique {m' : Message} (h : Encodes host b m) (h' : Encodes host b m') :
    m'.contents = m.contents := by
  have hview : MessageView.tryNewUnsanitized host b = .ok ⟨b, m.frame 0⟩ :=
    MessageView.tryNewUnsanitized_ok.mpr ⟨m, h, rfl⟩
  have hview' : MessageView.tryNewUnsanitized host b = .ok ⟨b, m'.frame 0⟩ :=
    MessageView.tryNewUnsanitized_ok.mpr ⟨m', h', rfl⟩
  have heq : (⟨b, m'.frame 0⟩ : MessageView false) = ⟨b, m.frame 0⟩ :=
    Except.ok.inj (hview'.symm.trans hview)
  have hc : (⟨b, m'.frame 0⟩ : MessageView false).contents host = .ok m'.contents :=
    MessageView.contents_eq h'
  rw [heq, MessageView.contents_eq h] at hc
  exact (Except.ok.inj hc).symm

theorem Encodes.header_unique {m' : Message} (h : Encodes host b m) (h' : Encodes host b m') :
    m'.version = m.version ∧ m'.header.numRequiredSignatures = m.header.numRequiredSignatures := by
  have hcontents := h.contents_unique h'
  constructor
  · exact congrArg MessageContents.version hcontents
  · exact congrArg MessageContents.numRequiredSignatures hcontents

theorem encode_of_not_v1 (hv : tx.message.version ≠ .v1) (hlt : tx.signatures.length < 128) :
    tx.encode host =
      UInt8.ofNat tx.signatures.length :: (tx.signatureBytes ++ tx.message.encode host) := by
  rw [Transaction.encode, Transaction.leading, if_neg hv, Transaction.trailing, if_neg hv,
    List.append_nil, shortU16_of_lt hlt]
  rfl

theorem encode_of_v1 (hv : tx.message.version = .v1) :
    tx.encode host = tx.message.encode host ++ tx.signatureBytes := by
  rw [Transaction.encode, Transaction.leading, if_pos hv, Transaction.trailing, if_pos hv,
    List.nil_append]

/-- Behind a count below 128 and as many signatures stands the message of the transaction. -/
theorem message_behind_signatures (hp : tx.Parseable) (hlt : signatures.length < 128)
    (h : UInt8.ofNat signatures.length :: (signatures.flatMap Vector.toList ++ b.bytes) =
      tx.encode host) :
    tx.message.version ≠ .v1 ∧ signatures.length = tx.signatures.length ∧
      b.bytes = tx.message.encode host := by
  have hcount : (UInt8.ofNat signatures.length).toNat = signatures.length :=
    UInt8.toNat_ofNat_of_lt (show signatures.length < 256 by omega)
  have hv : tx.message.version ≠ .v1 := by
    obtain ⟨v, hhead, hv⟩ := TransactionFrame.head_encode host hp
    rw [← h] at hhead
    apply hv.mp
    rw [beq_iff_eq, ← Option.some.inj hhead]
    apply (and_high_bit _).mpr
    rw [hcount]
    exact hlt
  have hlt' := (hp.signatures hv).2
  rw [encode_of_not_v1 hv hlt'] at h
  obtain ⟨hfirst, hrest⟩ := List.cons.inj h
  have hcount' : (UInt8.ofNat tx.signatures.length).toNat = tx.signatures.length :=
    UInt8.toNat_ofNat_of_lt (show tx.signatures.length < 256 by omega)
  have hlen : signatures.length = tx.signatures.length := by
    rw [← hcount, hfirst, hcount']
  have hbytes : (signatures.flatMap Vector.toList).length = tx.signatureBytes.length := by
    rw [Transaction.signatureBytes, flatMap_toList_length, flatMap_toList_length, hlen]
  exact ⟨hv, hlen, (List.append_inj hrest hbytes).2⟩

/-- The transaction that signs a legacy or v0 message passes when the message does, and the other
way around. -/
theorem sanitized_signed_iff (hv : m.version ≠ .v1) (henc : Encodes host b m)
    (hlt : signatures.length < 128)
    (hlen : signatures.length = m.header.numRequiredSignatures.toNat)
    (hs : s.bytes = UInt8.ofNat signatures.length ::
      (signatures.flatMap Vector.toList ++ b.bytes)) :
    (∃ view, MessageView.tryNewSanitized host b = .ok view) ↔
      ∃ view, TransactionView.tryNewSanitized host s = .ok view := by
  constructor
  · rintro ⟨view, h⟩
    obtain ⟨m', henc', hvalid, rfl⟩ := MessageView.tryNewSanitized_ok.mp h
    obtain ⟨hversion, hcount⟩ := henc.header_unique henc'
    rw [← hversion] at hv
    rw [← hcount] at hlen
    let tx : Transaction := ⟨signatures, m', fun h => absurd h hv⟩
    have hsenc : s.bytes = tx.encode host := by
      rw [hs, encode_of_not_v1 hv hlt, ← henc'.bytes]
      rfl
    have hsize : (tx.encode host).length ≤ packetDataSize := by
      have hsize := hvalid.size hv
      rw [encode_of_not_v1 hv hlt, List.length_cons, List.length_append,
        Transaction.signatureBytes, flatMap_toList_length]
      change signatures.length * 64 + (m'.encode host).length + 1 ≤ packetDataSize
      omega
    have htx : tx.Valid host := ⟨fun _ => hsize, hlen, hvalid.body⟩
    have hlt' : (tx.encode host).length < 2 ^ 16 := by
      rw [packetDataSize] at hsize
      omega
    obtain ⟨view, hview, -⟩ := sanitized_of_valid (htx.parseable hv) htx hlt' hsenc
    exact ⟨view, hview⟩
  · rintro ⟨view, h⟩
    obtain ⟨tx, hstart, hs', hvalid, -⟩ := valid_of_sanitized h
    obtain ⟨hv', hlen', hb⟩ := message_behind_signatures hstart.parseable hlt (hs.symm.trans hs')
    have hlt' := hstart.length_lt
    have hsize := hvalid.size hv'
    rw [encode_of_not_v1 hv' (hlen' ▸ hlt), List.length_cons, List.length_append,
      Transaction.signatureBytes, flatMap_toList_length, hvalid.signatures] at hlt' hsize
    have hvalid' : tx.message.Valid host := ⟨fun _ => by omega, hvalid.body⟩
    have hle : 0 + (tx.message.encode host).length ≤ b.len := by
      rw [Slice.len, hb, Nat.zero_add]
    have henc' : Encodes host b tx.message :=
      ⟨hstart.parseable.message, hvalid.body.lookupsFit hle, hb, by omega⟩
    exact ⟨_, MessageView.tryNewSanitized_ok.mpr ⟨tx.message, henc', hvalid', rfl⟩⟩

/-- Sanitizing a legacy or v0 message agrees with sanitizing the transaction that signs it. -/
theorem legacyOrV0_message_sanitized_iff_signed (host : Endian) (b : Slice)
    (view : MessageView false) (h : MessageView.tryNewUnsanitized host b = .ok view)
    (hv : view.version = .legacy ∨ view.version = .v0) :
    ((view.numRequiredSignatures.toNat = 0 ∨ 128 ≤ view.numRequiredSignatures.toNat) →
      ∃ e, MessageView.tryNewSanitized host b = .error (.err e)) ∧
    (1 ≤ view.numRequiredSignatures.toNat → view.numRequiredSignatures.toNat ≤ 127 →
      ∀ (signatures : List Signature) (s : Slice),
        signatures.length = view.numRequiredSignatures.toNat →
        s.bytes = view.numRequiredSignatures ::
          (signatures.flatMap Vector.toList ++ b.bytes) →
        ((∃ view', MessageView.tryNewSanitized host b = .ok view') ↔
          ∃ view', TransactionView.tryNewSanitized host s = .ok view')) := by
  obtain ⟨m, henc, rfl, hversion, hcount⟩ := Encodes.version_eq h
  rw [hversion] at hv
  rw [hcount]
  have hne := TransactionVersion.ne_v1_iff.mpr hv
  constructor
  · intro hbad
    rcases MessageView.noFault_tryNewSanitized.cases with ⟨view, hview⟩ | herr
    · obtain ⟨m', henc', hvalid, rfl⟩ := MessageView.tryNewSanitized_ok.mp hview
      obtain ⟨hversion', hcount'⟩ := henc.header_unique henc'
      rw [← hversion'] at hne
      have hsize := hvalid.size hne
      have hpos := hvalid.body.signatures_pos
      rw [hcount'] at hsize hpos
      rw [packetDataSize] at hsize
      omega
    · exact herr
  · intro _ hle signatures s hlen hs
    apply sanitized_signed_iff hne henc (by omega) hlen
    rw [hs, hlen, UInt8.ofNat_toNat]

def sampleMessageBytes : Slice := ⟨sampleTransaction.message.encode .little, by decide +kernel⟩

theorem sampleMessage_encodes :
    Encodes .little sampleMessageBytes sampleTransaction.message where
  parseable := sample_startsWith.parseable.message
  fit := fun h => absurd h (by decide)
  bytes := rfl
  length_lt := by decide +kernel

theorem sampleMessage_sanitized_iff_signed :
    (∃ view, MessageView.tryNewSanitized .little sampleMessageBytes = .ok view) ↔
      ∃ view, TransactionView.tryNewSanitized .little sampleBytes = .ok view := by
  have h := MessageView.tryNewUnsanitized_ok.mpr ⟨_, sampleMessage_encodes, rfl⟩
  exact (legacyOrV0_message_sanitized_iff_signed .little sampleMessageBytes _ h (.inl rfl)).2
    (by decide) (by decide) sampleTransaction.signatures sampleBytes rfl (by decide +kernel)

/-- In front of as many signatures as a v1 message requires stands the message of the
transaction. -/
theorem message_before_signatures (hv : m.version = .v1) (henc : Encodes host b m)
    (hp : tx.Parseable) (hlen : signatures.length = m.header.numRequiredSignatures.toNat)
    (h : b.bytes ++ signatures.flatMap Vector.toList = tx.encode host) :
    tx.message.version = .v1 ∧ b.bytes = tx.message.encode host := by
  have hfirst (x : Message) (hx : x.version = .v1) (t : List UInt8) :
      (x.encode host ++ t).head? = some v1Prefix ∧
        (x.encode host ++ t)[1]? = some x.header.numRequiredSignatures := by
    rw [Message.encode, if_pos hx]
    exact ⟨rfl, rfl⟩
  obtain ⟨hhead, hcount⟩ := hfirst m hv (signatures.flatMap Vector.toList)
  rw [← henc.bytes, h] at hhead hcount
  have hv' : tx.message.version = .v1 := by
    obtain ⟨v, hhead', hbit⟩ := TransactionFrame.head_encode host hp
    rw [hhead] at hhead'
    by_contra hne
    have hzero := hbit.mpr hne
    rw [← Option.some.inj hhead'] at hzero
    exact absurd hzero (by decide)
  obtain ⟨-, hcount'⟩ := hfirst tx.message hv' tx.signatureBytes
  rw [encode_of_v1 hv'] at h hcount
  have hr : m.header.numRequiredSignatures = tx.message.header.numRequiredSignatures :=
    Option.some.inj (hcount.symm.trans hcount')
  have hbytes : (signatures.flatMap Vector.toList).length = tx.signatureBytes.length := by
    rw [Transaction.signatureBytes, flatMap_toList_length, flatMap_toList_length,
      tx.signatures_v1 hv', hlen, hr]
  exact ⟨hv', (List.append_inj' h hbytes).1⟩

/-- A v1 message passes exactly when it obeys the rules. -/
theorem sanitized_v1_message_iff (hv : m.version = .v1) (henc : Encodes host b m) :
    (∃ view, MessageView.tryNewSanitized host b = .ok view) ↔
      ∃ m', Encodes host b m' ∧ m'.BodyValid := by
  constructor
  · rintro ⟨view, h⟩
    obtain ⟨m', henc', hvalid, -⟩ := MessageView.tryNewSanitized_ok.mp h
    exact ⟨m', henc', hvalid.body⟩
  · rintro ⟨m', henc', hbody⟩
    have hvalid : m'.Valid host := by
      refine ⟨fun hne => absurd ?_ hne, hbody⟩
      exact (henc.header_unique henc').1.trans hv
    exact ⟨_, MessageView.tryNewSanitized_ok.mpr ⟨m', henc', hvalid, rfl⟩⟩

/-- The transaction that signs a v1 message passes when the message does and both together take
less than 65536 bytes. -/
theorem sanitized_v1_signed_iff (hv : m.version = .v1) (henc : Encodes host b m)
    (hlen : signatures.length = m.header.numRequiredSignatures.toNat)
    (hs : s.bytes = b.bytes ++ signatures.flatMap Vector.toList) :
    (∃ view, TransactionView.tryNewSanitized host s = .ok view) ↔
      b.len + 64 * signatures.length ≤ 65535 ∧ ∃ m', Encodes host b m' ∧ m'.BodyValid := by
  have hslen : s.bytes.length = b.len + 64 * signatures.length := by
    rw [hs, List.length_append, flatMap_toList_length, Slice.len, Nat.mul_comm]
  constructor
  · rintro ⟨view, h⟩
    obtain ⟨tx, hstart, hs', hvalid, -⟩ := valid_of_sanitized h
    obtain ⟨hv', hb⟩ := message_before_signatures hv henc hstart.parseable hlen
      (hs.symm.trans hs')
    have hlt := hstart.length_lt
    rw [← hs', hslen] at hlt
    have hle : 0 + (tx.message.encode host).length ≤ b.len := by
      rw [Slice.len, hb, Nat.zero_add]
    have hlt' : (tx.message.encode host).length < 2 ^ 16 := by
      rw [← hb, ← Slice.len]
      omega
    exact ⟨by omega, tx.message, ⟨hstart.parseable.message, hvalid.body.lookupsFit hle, hb, hlt'⟩,
      hvalid.body⟩
  · rintro ⟨hsize, m', henc', hbody⟩
    obtain ⟨hversion, hcount⟩ := henc.header_unique henc'
    rw [← hversion] at hv
    rw [← hcount] at hlen
    let tx : Transaction := ⟨signatures, m', fun _ => hlen⟩
    have hsenc : s.bytes = tx.encode host := by
      rw [hs, encode_of_v1 hv, henc'.bytes]
      rfl
    have htx : tx.Valid host := ⟨fun hne => absurd hv hne, hlen, hbody⟩
    have hp : tx.Parseable := ⟨henc'.parseable, fun hne => absurd hv hne⟩
    have hlt : (tx.encode host).length < 2 ^ 16 := by
      rw [← hsenc, hslen]
      omega
    obtain ⟨view, hview, -⟩ := sanitized_of_valid hp htx hlt hsenc
    exact ⟨view, hview⟩

/-- Sanitizing a v1 message agrees with sanitizing the transaction that signs it exactly when the
signed message takes less than 65536 bytes or the message breaks a rule. -/
theorem v1_message_sanitized_iff_signed (host : Endian) (b : Slice) (view : MessageView false)
    (h : MessageView.tryNewUnsanitized host b = .ok view) (hv : view.version = .v1)
    (signatures : List Signature) (s : Slice)
    (hlen : signatures.length = view.numRequiredSignatures.toNat)
    (hs : s.bytes = b.bytes ++ signatures.flatMap Vector.toList) :
    ((∃ view', MessageView.tryNewSanitized host b = .ok view') ↔
      ∃ view', TransactionView.tryNewSanitized host s = .ok view') ↔
    (b.len + 64 * view.numRequiredSignatures.toNat ≤ 65535 ∨
      ¬ ∃ m, Encodes host b m ∧ m.BodyValid) := by
  obtain ⟨m, henc, rfl, hversion, hcount⟩ := Encodes.version_eq h
  rw [hversion] at hv
  rw [hcount] at hlen ⊢
  rw [sanitized_v1_message_iff hv henc, sanitized_v1_signed_iff hv henc hlen hs, hlen,
    iff_and_self, imp_iff_or_not]

def sampleV1MessageBytes : Slice :=
  ⟨sampleV1Transaction.message.encode .little, by decide +kernel⟩

theorem sampleV1Message_encodes :
    Encodes .little sampleV1MessageBytes sampleV1Transaction.message where
  parseable := sampleV1_startsWith.parseable.message
  fit := fun h => absurd h (by decide)
  bytes := rfl
  length_lt := by decide +kernel

theorem sampleV1Message_sanitized_iff_signed :
    (∃ view, MessageView.tryNewSanitized .little sampleV1MessageBytes = .ok view) ↔
      ∃ view, TransactionView.tryNewSanitized .little sampleV1Bytes = .ok view := by
  have h := MessageView.tryNewUnsanitized_ok.mpr ⟨_, sampleV1Message_encodes, rfl⟩
  apply (v1_message_sanitized_iff_signed .little sampleV1MessageBytes _ h rfl
    sampleV1Transaction.signatures sampleV1Bytes rfl (encode_of_v1 rfl)).mpr
  exact .inl (by decide +kernel)

theorem dataInstruction_fits {data : List UInt8} (hdata : data.length < 65536) :
    2 < 256 ∧ 1 < 256 ∧ ∀ ix ∈ [(⟨1, [], data⟩ : SVMInstruction)], ix.FitsV1 := by
  refine ⟨by decide, by decide, ?_⟩
  intro ix hix
  rw [List.mem_singleton.mp hix]
  exact ⟨Nat.zero_lt_succ _, hdata⟩

/-- The v1 message above without config words, whose one instruction carries the data. -/
def dataMessage (data : List UInt8) (hdata : data.length < 65536) : Message :=
  { sampleV1Transaction.message with
    instructions := [⟨1, [], data⟩]
    config := .empty
    config_eq_empty := fun _ => rfl
    fits_v1 := fun _ => dataInstruction_fits hdata }

section DataMessage

variable {data : List UInt8} (hdata : data.length < 65536)

theorem dataMessage_length (host : Endian) :
    ((dataMessage data hdata).encode host).length = 110 + data.length := by
  have hlen := (dataMessage data hdata).v1InstructionsOffset_add host 0
  have hixs := encodeV1Instructions_length (dataMessage data hdata).instructions
  have hpayload : (((dataMessage data hdata).instructions).flatMap
      SVMInstruction.v1Payload).length = data.length := by
    simp [dataMessage, SVMInstruction.v1Payload]
  have hfront : (dataMessage data hdata).v1InstructionsOffset 0 = 106 := by
    simp [Message.v1InstructionsOffset, Message.v1WordsOffset, Message.keyBytes, dataMessage,
      sampleV1Transaction, TransactionConfig.empty]
  have hcount : (dataMessage data hdata).instructions.length = 1 := rfl
  have hversion : (dataMessage data hdata).version = .v1 := rfl
  rw [Message.encode, if_pos hversion]
  omega

theorem dataMessage_bodyValid : (dataMessage data hdata).BodyValid where
  signatures_pos := le_refl _
  readonlySigned_lt := Nat.zero_lt_one
  unsigned_le := le_refl _
  accounts_le h := absurd rfl h
  programs ix hix := by
    rw [List.mem_singleton.mp hix]
    exact ⟨le_refl _, Nat.lt_succ_self _⟩
  accounts ix hix := by
    rw [List.mem_singleton.mp hix]
    exact fun i hi => absurd hi List.not_mem_nil
  lookups l hl := absurd hl List.not_mem_nil

theorem dataMessage_encodes (hb : b.bytes = (dataMessage data hdata).encode host)
    (hlen : data.length ≤ 65425) : Encodes host b (dataMessage data hdata) where
  parseable := ⟨rfl, show TransactionConfig.MaskValid 0 by decide +kernel⟩
  fit h := TransactionVersion.noConfusion h
  bytes := hb
  length_lt := by
    rw [dataMessage_length]
    omega

end DataMessage

/-- The instruction data of a message that is 26 bytes short of the limit of its own. -/
def largeData : List UInt8 := List.replicate 65400 0

theorem largeData_length : largeData.length = 65400 := List.length_replicate

theorem largeData_lt : largeData.length < 65536 := by
  rw [largeData_length]
  decide

def largeMessageBytes : Slice where
  bytes := (dataMessage largeData largeData_lt).encode .little
  length_le := by
    rw [dataMessage_length, largeData_length]
    decide

theorem largeMessageBytes_len : largeMessageBytes.len = 65510 := by
  rw [Slice.len, largeMessageBytes, dataMessage_length, largeData_length]

def largeSignature : Signature := Vector.replicate 64 0

def largeSignedBytes : Slice where
  bytes := largeMessageBytes.bytes ++ [largeSignature].flatMap Vector.toList
  length_le := by
    rw [List.length_append, flatMap_toList_length, ← Slice.len, largeMessageBytes_len]
    decide

/-- The message passes, the transaction that signs it has more bytes than a frame can hold. -/
theorem large_message_sanitized_signed_rejected :
    ∃ view, MessageView.tryNewUnsanitized .little largeMessageBytes = .ok view ∧
      view.version = .v1 ∧ view.numRequiredSignatures = 1 ∧
      ¬ ((∃ view', MessageView.tryNewSanitized .little largeMessageBytes = .ok view') ↔
        ∃ view', TransactionView.tryNewSanitized .little largeSignedBytes = .ok view') := by
  have henc : Encodes .little largeMessageBytes (dataMessage largeData largeData_lt) :=
    dataMessage_encodes largeData_lt rfl (by rw [largeData_length]; decide)
  refine ⟨_, MessageView.tryNewUnsanitized_ok.mpr ⟨_, henc, rfl⟩, rfl, rfl, ?_⟩
  intro hagree
  have hmessage := (sanitized_v1_message_iff rfl henc).mpr
    ⟨_, henc, dataMessage_bodyValid largeData_lt⟩
  have hsigned : (∃ view', TransactionView.tryNewSanitized .little largeSignedBytes = .ok view') ↔
      largeMessageBytes.len + 64 * [largeSignature].length ≤ 65535 ∧
        ∃ m, Encodes .little largeMessageBytes m ∧ m.BodyValid :=
    sanitized_v1_signed_iff rfl henc rfl rfl
  have hsize := (hsigned.mp (hagree.mp hmessage)).1
  rw [largeMessageBytes_len, List.length_singleton] at hsize
  omega

/-- The estimate of the parser does not depend on where the message starts. -/
theorem Message.LookupsFit.shift {o len : ℕ} (h : m.LookupsFit o (o + len)) :
    m.LookupsFit 0 len := by
  intro hv
  have hfit := h hv
  simp only [lookupsOffset, instructionsOffset, blockhashOffset, keysOffset] at hfit ⊢
  omega

/-- The message of an accepted transaction, by itself, is accepted by the message parser. -/
theorem embedded_encodes (hstart : StartsWith host b tx) (hfit : tx.LookupsFit b.len)
    (hb : b.bytes = tx.encode host) (hs : s.bytes = tx.message.encode host) :
    Encodes host s tx.message := by
  have hlt := hstart.length_lt
  have hlen : b.len = tx.leading.length + ((tx.message.encode host).length +
      tx.trailing.length) := by
    rw [Slice.len, hb, Transaction.encode, List.length_append, List.length_append]
  rw [← hb, ← Slice.len] at hlt
  refine ⟨hstart.parseable.message, ?_, hs, by omega⟩
  intro hv
  have htrail : tx.trailing = [] := if_neg (by rw [hv]; decide)
  rw [htrail, List.length_nil, Nat.add_zero] at hlen
  rw [Slice.len, hs]
  rw [hlen] at hfit
  exact Message.LookupsFit.shift hfit hv

/-- The message inside an accepted transaction is what the message parser sees, and together with
the signatures it makes up all of the bytes. -/
theorem embedded_message_seen (host : Endian) (b : Slice) (view : TransactionView false)
    (h : TransactionView.tryNewUnsanitized host b = .ok view) :
    ∃ s signatures messageView contents, view.messageData = .ok s ∧
      MessageView.tryNewUnsanitized host s = .ok messageView ∧
      messageView.contents host = .ok contents ∧ view.contents host = .ok contents ∧
      view.signatures = .ok signatures ∧ signatures.length = view.numSignatures.toNat ∧
      (view.version = .v1 → b.bytes = s.bytes ++ signatures.flatMap Vector.toList) ∧
      (view.version ≠ .v1 →
        b.bytes = view.numSignatures :: (signatures.flatMap Vector.toList ++ s.bytes)) := by
  obtain ⟨tx, hstart, hfit, hb, rfl⟩ := TransactionView.tryNewUnsanitized_ok.mp h
  obtain ⟨d, hshows⟩ := hstart.shows false
  obtain ⟨s, hs, hdata⟩ := hshows.messageData_eq
  have henc := embedded_encodes hstart hfit hb hs
  have hcount := hshows.counts_eq.1
  refine ⟨s, tx.signatures, _, tx.message.contents, hdata,
    MessageView.tryNewUnsanitized_ok.mpr ⟨_, henc, rfl⟩, MessageView.contents_eq henc,
    hshows.contents_eq, hshows.signatures, ?_, ?_, ?_⟩
  · rw [hcount]
    exact (UInt8.toNat_ofNat_of_lt hstart.parseable.signatures_lt).symm
  · intro hv
    rw [hshows.version_eq] at hv
    rw [hb, hs, encode_of_v1 hv]
    rfl
  · intro hv
    rw [hshows.version_eq] at hv
    rw [hb, hs, hcount, encode_of_not_v1 hv (hstart.parseable.signatures hv).2]
    rfl

theorem sample_embedded_message_seen :
    ∃ view s messageView, TransactionView.tryNewUnsanitized .little sampleBytes = .ok view ∧
      view.messageData = .ok s ∧ MessageView.tryNewUnsanitized .little s = .ok messageView := by
  have h := TransactionView.tryNewUnsanitized_ok.mpr
    ⟨_, sample_startsWith, sample_lookupsFit _, rfl, rfl⟩
  obtain ⟨s, _, messageView, _, hdata, hparse, -⟩ :=
    embedded_message_seen .little sampleBytes _ h
  exact ⟨_, s, messageView, h, hdata, hparse⟩

end AgaveSdk.TxView
