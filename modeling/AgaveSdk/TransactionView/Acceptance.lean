import AgaveSdk.TransactionView.SanitizeSpec

/-! Which buffers each constructor of a view accepts, and what the view shows then. -/
namespace AgaveSdk.TxView
open FallibleState Segments ByteOrder Draining

variable {sanitized : Bool} {host : Endian} {b d : Slice} {tx : Transaction} {m : Message}

/-- The accessors of a transaction view, for the transaction it was parsed from. -/
structure TransactionView.Shows (host : Endian) (view : TransactionView sanitized)
    (tx : Transaction) (d : Slice) : Prop where
  bytes : d.bytes = tx.encode host
  frame : view.frame = tx.frame host
  data : view.data = .ok d
  message : view.message = .ok ⟨d, tx.message.frame tx.leading.length⟩
  stands : Stands host d tx.message tx.leading.length
  signatures : view.signatures = .ok tx.signatures

/-- The rules for transactions: the message obeys its rules, there are as many signatures as it
requires, and a legacy or v0 transaction fits one packet. -/
structure Transaction.Valid (host : Endian) (tx : Transaction) : Prop where
  size : tx.message.version ≠ .v1 → (tx.encode host).length ≤ packetDataSize
  signatures : tx.signatures.length = tx.message.header.numRequiredSignatures.toNat
  body : tx.message.BodyValid

/-- The rules for messages: signing a legacy or v0 message gives a transaction of at most one
packet. -/
structure Message.Valid (host : Endian) (m : Message) : Prop where
  size : m.version ≠ .v1 →
    1 + 64 * m.header.numRequiredSignatures.toNat + (m.encode host).length ≤ packetDataSize
  body : m.BodyValid

/-- The buffer starts with the encoding of a parseable transaction. -/
structure StartsWith (host : Endian) (b : Slice) (tx : Transaction) : Prop where
  parseable : tx.Parseable
  encoded : tx.encode host <+: b.bytes
  length_lt : (tx.encode host).length < 2 ^ 16

theorem Transaction.Parseable.signatures_lt (hp : tx.Parseable) : tx.signatures.length < 256 := by
  by_cases hv : tx.message.version = .v1
  · rw [tx.signatures_v1 hv]
    exact UInt8.toNat_lt _
  · have h := (hp.signatures hv).2
    omega

theorem Slice.upTo_eq {n : ℕ} {x : List UInt8} (hn : n = x.length) (h : x <+: b.bytes) :
    ∃ d : Slice, d.bytes = x ∧ b.upTo n = .ok d := by
  subst hn
  have htake : b.bytes.take x.length = x := (List.prefix_iff_eq_take.mp h).symm
  refine ⟨⟨b.bytes.take x.length, (List.length_take_le' _ _).trans b.length_le⟩, htake, ?_⟩
  exact if_pos h.length_le

/-- The signatures stand where the frame says, before or after the message. -/
theorem signatures_at (hd : d.bytes = tx.encode host) (hp : tx.Parseable) :
    At d.bytes (if tx.message.version = .v1 then (tx.message.encode host).length else 1)
      tx.signatureBytes := by
  rw [hd]
  by_cases hv : tx.message.version = .v1
  · rw [if_pos hv, Transaction.encode, Transaction.leading, Transaction.trailing, if_pos hv,
      if_pos hv, List.nil_append]
    exact ⟨[], by rw [List.append_nil, List.drop_left]⟩
  · rw [if_neg hv, Transaction.encode, Transaction.leading, if_neg hv,
      shortU16_of_lt (hp.signatures hv).2, List.append_assoc]
    exact ⟨_, rfl⟩

theorem StartsWith.dataLen_eq (h : StartsWith host b tx) :
    (tx.frame host).dataLen.toNat = (tx.encode host).length :=
  UInt16.toNat_ofNat_of_lt h.length_lt

theorem StartsWith.shows (h : StartsWith host b tx) (sanitized : Bool) :
    ∃ d, TransactionView.Shows host (⟨b, tx.frame host⟩ : TransactionView sanitized) tx d := by
  obtain ⟨d, hd, hdata⟩ := Slice.upTo_eq (b := b) h.dataLen_eq h.encoded
  have hview : (⟨b, tx.frame host⟩ : TransactionView sanitized).data = .ok d := hdata
  have hdlen : d.len =
      tx.leading.length + ((tx.message.encode host).length + tx.trailing.length) := by
    rw [Slice.len, hd, Transaction.encode, List.length_append, List.length_append]
  have hlt : d.len < 2 ^ 16 := by
    rw [Slice.len, hd]
    exact h.length_lt
  have hstands : Stands host d tx.message tx.leading.length := by
    refine ⟨h.parseable.message, by omega, ?_, by omega⟩
    rw [hd, Transaction.encode, ← List.append_assoc]
    exact at_length_append _ _ _
  have hsig := signatures_at hd h.parseable
  have hcount : (UInt8.ofNat tx.signatures.length).toNat = tx.signatures.length :=
    UInt8.toNat_ofNat_of_lt h.parseable.signatures_lt
  have hoff :
      (if tx.message.version = .v1 then (tx.message.encode host).length else 1) ≤ d.len := by
    by_cases hv : tx.message.version = .v1
    · rw [if_pos hv]
      omega
    · rw [if_neg hv, hdlen, Transaction.leading, if_neg hv, List.length_append]
      have := shortU16_length_pos tx.signatures.length
      omega
  refine ⟨d, hd, rfl, hview, ?_, hstands, ?_⟩
  · rw [TransactionView.message, hview]
    rfl
  · rw [TransactionView.signatures, hview]
    change fromRawParts 64 d (UInt16.ofNat _).toNat (UInt8.ofNat _).toNat = _
    rw [hcount, UInt16.toNat_ofNat', Nat.mod_eq_of_lt (by omega)]
    exact fromRawParts_eq hoff hsig

theorem TransactionView.Shows.contents_eq {view : TransactionView sanitized}
    (h : view.Shows host tx d) : view.contents host = .ok tx.message.contents := by
  rw [contents, h.message]
  exact (h.stands.reads sanitized).contents_eq h.stands.parseable

theorem Slice.range_eq {x pre t : List UInt8} (h : d.bytes = pre ++ (x ++ t)) :
    ∃ s : Slice, s.bytes = x ∧ d.range pre.length (pre.length + x.length) = .ok s := by
  have hlen : pre.length + x.length ≤ d.len := by
    rw [Slice.len, h, List.length_append, List.length_append]
    omega
  have htake : (d.bytes.take (pre.length + x.length)).drop pre.length = x := by
    rw [h, ← List.append_assoc, List.take_left' List.length_append, List.drop_left]
  have hr : d.range pre.length (pre.length + x.length) = .ok _ :=
    if_pos ⟨Nat.le_add_right _ _, hlen⟩
  exact ⟨_, htake, hr⟩

/-- The range of a message is the range its encoding takes. -/
theorem MessageViewRef.data_eq {pre t : List UInt8} {o : ℕ} (ho : pre.length = o)
    (hd : d.bytes = pre ++ (m.encode host ++ t)) (hend : o + (m.encode host).length < 2 ^ 16) :
    ∃ s : Slice, s.bytes = m.encode host ∧
      (⟨d, m.frame o⟩ : MessageViewRef sanitized).data = .ok s := by
  subst ho
  obtain ⟨s, hs, hrange⟩ := Slice.range_eq hd
  have hstart : (m.frame pre.length).messageHeader.offset = UInt16.ofNat pre.length := by
    by_cases hv : m.version = .v1
    · rw [Message.frame, if_pos hv]
      rfl
    · rw [Message.frame, if_neg hv]
      rfl
  refine ⟨s, hs, ?_⟩
  change d.range (m.frame pre.length).messageHeader.offset.toNat
    (m.frame pre.length).endOffset.toNat = _
  rw [hstart, Message.frame_endOffset host, UInt16.toNat_ofNat', UInt16.toNat_ofNat',
    Nat.mod_eq_of_lt (by omega), Nat.mod_eq_of_lt hend]
  exact hrange

/-- The message of a transaction view starts behind the leading bytes. -/
theorem TransactionView.Shows.messageData_eq {view : TransactionView sanitized}
    (h : view.Shows host tx d) :
    ∃ s : Slice, s.bytes = tx.message.encode host ∧ view.messageData = .ok s := by
  rw [messageData, h.message]
  exact MessageViewRef.data_eq rfl h.bytes h.stands.end_lt

namespace TransactionFrame

/-- The frame of the transaction in front of the bytes, parsed from the start. -/
def parsePrefix (host : Endian) (bytes : Slice) : Outcome TransactionViewError TransactionFrame :=
  (exec (tryNewFromPrefix host bytes) { offset := 0 }).1

/-- The frame of the transaction that takes all of the bytes. -/
def parse (host : Endian) (bytes : Slice) : Outcome TransactionViewError TransactionFrame :=
  (exec (tryNew host bytes) { offset := 0 }).1

theorem parsePrefix_ok {f : TransactionFrame} : parsePrefix host b = .ok f ↔
    ∃ tx, StartsWith host b tx ∧ tx.LookupsFit b.len ∧ f = tx.frame host := by
  constructor
  · intro h
    have hr : Returns (tryNewFromPrefix host b) { offset := 0 } f _ := returns_of_value h
    obtain ⟨tx, hp, hfit, henc, hlt, rfl, -⟩ := tryNewFromPrefix_sound hr
    exact ⟨tx, ⟨hp, henc, hlt⟩, hfit, rfl⟩
  · rintro ⟨tx, ⟨hp, henc, hlt⟩, hfit, rfl⟩
    obtain ⟨c', hr⟩ := tryNewFromPrefix_complete hp hfit hlt henc
    exact hr.value

theorem parse_ok {f : TransactionFrame} :
    parse host b = .ok f ↔ parsePrefix host b = .ok f ∧ f.dataLen.toNat = b.len := by
  constructor
  · intro h
    have hr : Returns (tryNew host b) { offset := 0 } f _ := returns_of_value h
    simp only [tryNew, returns_bind, returns_rejectIf, returns_pure, ne_eq, not_not] at hr
    obtain ⟨_, _, hr, _, _, ⟨hlen, -⟩, rfl, -⟩ := hr
    exact ⟨hr.value, hlen⟩
  · rintro ⟨h, hlen⟩
    have hr : Returns (tryNew host b) { offset := 0 } f
        (exec (tryNewFromPrefix host b) { offset := 0 }).2 := by
      simp only [tryNew, returns_bind, returns_rejectIf, returns_pure, ne_eq, not_not]
      exact ⟨_, _, returns_of_value h, (), _, ⟨hlen, rfl⟩, rfl, rfl⟩
    exact hr.value

theorem noFault_parsePrefix : NoFault (parsePrefix host b) := safe_tryNewFromPrefix

theorem noFault_parse : NoFault (parse host b) :=
  safe_tryNewFromPrefix.bind fun _ _ _ => (safe_rejectIf _ _).bind fun _ _ _ => safe_pure _ _

end TransactionFrame

namespace TransactionView

theorem tryNewUnsanitizedFromPrefix_ok {p : TransactionView false × ℕ} :
    tryNewUnsanitizedFromPrefix host b = .ok p ↔ ∃ tx, StartsWith host b tx ∧
      tx.LookupsFit b.len ∧ p = (⟨b, tx.frame host⟩, (tx.encode host).length) := by
  rw [tryNewUnsanitizedFromPrefix, outcome_bind_ok]
  constructor
  · rintro ⟨f, hf, hp⟩
    obtain ⟨tx, hstart, hfit, rfl⟩ := TransactionFrame.parsePrefix_ok.mp hf
    cases hp
    exact ⟨tx, hstart, hfit, by rw [hstart.dataLen_eq]⟩
  · rintro ⟨tx, hstart, hfit, rfl⟩
    exact ⟨_, TransactionFrame.parsePrefix_ok.mpr ⟨tx, hstart, hfit, rfl⟩, by
      rw [hstart.dataLen_eq]; rfl⟩

theorem tryNewUnsanitized_ok {view : TransactionView false} :
    tryNewUnsanitized host b = .ok view ↔ ∃ tx, StartsWith host b tx ∧
      tx.LookupsFit b.len ∧ b.bytes = tx.encode host ∧ view = ⟨b, tx.frame host⟩ := by
  rw [tryNewUnsanitized, outcome_bind_ok]
  constructor
  · rintro ⟨f, hf, hp⟩
    cases hp
    obtain ⟨hfront, hlen⟩ := TransactionFrame.parse_ok.mp hf
    obtain ⟨tx, hstart, hfit, rfl⟩ := TransactionFrame.parsePrefix_ok.mp hfront
    rw [hstart.dataLen_eq] at hlen
    exact ⟨tx, hstart, hfit, (hstart.encoded.eq_of_length hlen).symm, rfl⟩
  · rintro ⟨tx, hstart, hfit, hb, rfl⟩
    have hlen : (tx.frame host).dataLen.toNat = b.len := by
      rw [hstart.dataLen_eq, Slice.len, hb]
    exact ⟨_, TransactionFrame.parse_ok.mpr
      ⟨TransactionFrame.parsePrefix_ok.mpr ⟨tx, hstart, hfit, rfl⟩, hlen⟩, rfl⟩

theorem Shows.version_eq {view : TransactionView sanitized} (h : view.Shows host tx d) :
    view.version = tx.message.version := by
  rw [version, h.frame]
  exact (h.stands.reads sanitized).version

theorem Shows.counts_eq {view : TransactionView sanitized} (h : view.Shows host tx d) :
    view.numSignatures = UInt8.ofNat tx.signatures.length ∧
      view.numRequiredSignatures = tx.message.header.numRequiredSignatures := by
  have hr := h.stands.reads sanitized
  rw [numSignatures, numRequiredSignatures, h.frame]
  exact ⟨rfl, hr.numRequiredSignatures⟩

/-- The sanitize checks of a transaction view are the rules for the transaction it shows. -/
theorem Shows.sanitize_ok {view : TransactionView false} (h : view.Shows host tx d)
    (hp : tx.Parseable) : TxView.sanitize host view = .ok () ↔ tx.Valid host := by
  have hr := h.stands.reads false
  have hbody := sanitizeMessageBody_ok hr hp.message h.stands.totals_lt
  have hsig : sanitizeSignatures view = .ok () ↔
      tx.signatures.length = tx.message.header.numRequiredSignatures.toNat := by
    obtain ⟨h₁, h₂⟩ := h.counts_eq
    have hn : (UInt8.ofNat tx.signatures.length).toNat = tx.signatures.length :=
      UInt8.toNat_ofNat_of_lt hp.signatures_lt
    rw [sanitizeSignatures, rejectInsane_ok, not_not, h₁, h₂, ← UInt8.toNat_inj, hn]
  have hsize : sanitizeTransactionSize view = .ok () ↔
      (tx.encode host).length ≤ packetDataSize := by
    rw [sanitizeTransactionSize, h.data]
    change rejectInsane (d.len > packetDataSize) = .ok () ↔ _
    rw [rejectInsane_ok, Slice.len, h.bytes, not_lt]
  by_cases hv : tx.message.version = .v1
  · have hflag : ¬ TxView.isLegacyOrV0 view.version = true := by
      rw [isLegacyOrV0_iff, h.version_eq, not_not]
      exact hv
    simp only [TxView.sanitize, if_neg hflag, outcome_bind_ok, h.message]
    constructor
    · rintro ⟨_, h₁, _, h₂, h₃⟩
      cases h₂
      exact ⟨fun h => absurd hv h, hsig.mp h₁, hbody.mp h₃⟩
    · intro hvalid
      exact ⟨(), hsig.mpr hvalid.signatures, _, rfl, hbody.mpr hvalid.body⟩
  · have hflag : TxView.isLegacyOrV0 view.version = true := by
      rw [isLegacyOrV0_iff, h.version_eq]
      exact hv
    simp only [TxView.sanitize, if_pos hflag, outcome_bind_ok, h.message]
    constructor
    · rintro ⟨_, h₀, _, h₁, _, h₂, h₃⟩
      cases h₂
      exact ⟨fun _ => hsize.mp h₀, hsig.mp h₁, hbody.mp h₃⟩
    · intro hvalid
      exact ⟨(), hsize.mpr (hvalid.size hv), (), hsig.mpr hvalid.signatures, _, rfl,
        hbody.mpr hvalid.body⟩

/-- Sanitizing after parsing adds the rules for transactions. -/
theorem sanitize_frame_ok (h : StartsWith host b tx) {view : TransactionView true} :
    (⟨b, tx.frame host⟩ : TransactionView false).sanitize host = .ok view ↔
      tx.Valid host ∧ view = ⟨b, tx.frame host⟩ := by
  obtain ⟨d, hs⟩ := h.shows false
  rw [sanitize, outcome_bind_ok]
  constructor
  · rintro ⟨_, h₁, h₂⟩
    cases h₂
    exact ⟨(hs.sanitize_ok h.parseable).mp h₁, rfl⟩
  · rintro ⟨hvalid, rfl⟩
    exact ⟨(), (hs.sanitize_ok h.parseable).mpr hvalid, rfl⟩

theorem tryNewSanitized_ok {view : TransactionView true} :
    tryNewSanitized host b = .ok view ↔ ∃ tx, StartsWith host b tx ∧ tx.LookupsFit b.len ∧
      b.bytes = tx.encode host ∧ tx.Valid host ∧ view = ⟨b, tx.frame host⟩ := by
  rw [tryNewSanitized, outcome_bind_ok]
  constructor
  · rintro ⟨u, hu, hview⟩
    obtain ⟨tx, hstart, hfit, hb, rfl⟩ := tryNewUnsanitized_ok.mp hu
    obtain ⟨hvalid, rfl⟩ := (sanitize_frame_ok hstart).mp hview
    exact ⟨tx, hstart, hfit, hb, hvalid, rfl⟩
  · rintro ⟨tx, hstart, hfit, hb, hvalid, rfl⟩
    exact ⟨_, tryNewUnsanitized_ok.mpr ⟨tx, hstart, hfit, hb, rfl⟩,
      (sanitize_frame_ok hstart).mpr ⟨hvalid, rfl⟩⟩

theorem tryNewSanitizedFromPrefix_ok {p : TransactionView true × ℕ} :
    tryNewSanitizedFromPrefix host b = .ok p ↔ ∃ tx, StartsWith host b tx ∧ tx.LookupsFit b.len ∧
      tx.Valid host ∧ p = (⟨b, tx.frame host⟩, (tx.encode host).length) := by
  simp only [tryNewSanitizedFromPrefix, outcome_bind_ok]
  constructor
  · rintro ⟨u, hu, view, hview, hp⟩
    obtain ⟨tx, hstart, hfit, rfl⟩ := tryNewUnsanitizedFromPrefix_ok.mp hu
    obtain ⟨hvalid, rfl⟩ := (sanitize_frame_ok hstart).mp hview
    cases hp
    exact ⟨tx, hstart, hfit, hvalid, rfl⟩
  · rintro ⟨tx, hstart, hfit, hvalid, rfl⟩
    exact ⟨_, tryNewUnsanitizedFromPrefix_ok.mpr ⟨tx, hstart, hfit, rfl⟩, _,
      (sanitize_frame_ok hstart).mpr ⟨hvalid, rfl⟩, rfl⟩

end TransactionView

/-- The buffer is the encoding of a parseable message. -/
structure Encodes (host : Endian) (b : Slice) (m : Message) : Prop where
  parseable : m.Parseable
  fit : m.LookupsFit 0 b.len
  bytes : b.bytes = m.encode host
  length_lt : (m.encode host).length < 2 ^ 16

theorem Encodes.stands (h : Encodes host b m) : Stands host b m 0 where
  parseable := h.parseable
  inside := Nat.zero_le _
  at_ := at_zero.mpr (h.bytes ▸ List.prefix_refl _)
  end_lt := by rw [Nat.zero_add]; exact h.length_lt

namespace MessageView

theorem tryNewUnsanitized_ok {view : MessageView false} :
    tryNewUnsanitized host b = .ok view ↔ ∃ m, Encodes host b m ∧ view = ⟨b, m.frame 0⟩ := by
  rw [tryNewUnsanitized, outcome_bind_ok]
  constructor
  · rintro ⟨f, hf, hview⟩
    obtain ⟨m, hp, hfit, hb, hlt, rfl, -⟩ := MessageFrame.tryNew_sound (returns_of_value hf)
    cases hview
    exact ⟨m, ⟨hp, hfit, hb, hlt⟩, rfl⟩
  · rintro ⟨m, ⟨hp, hfit, hb, hlt⟩, rfl⟩
    obtain ⟨c', hr⟩ := MessageFrame.tryNew_complete hp hfit hlt hb
    exact ⟨_, hr.value, rfl⟩

theorem message_eq (h : Encodes host b m) :
    (⟨b, m.frame 0⟩ : MessageView sanitized).message = .ok ⟨b, m.frame 0⟩ := by
  have hend : (m.frame 0).endOffset.toNat = b.bytes.length := by
    rw [m.frame_endOffset host, Nat.zero_add, UInt16.toNat_ofNat', Nat.mod_eq_of_lt h.length_lt,
      h.bytes]
  obtain ⟨d, hd, hup⟩ := Slice.upTo_eq (b := b) hend (List.prefix_refl _)
  rw [message]
  change (b.upTo (m.frame 0).endOffset.toNat >>= _) = _
  rw [hup, Slice.ext hd]
  rfl

theorem contents_eq (h : Encodes host b m) :
    (⟨b, m.frame 0⟩ : MessageView sanitized).contents host = .ok m.contents := by
  rw [contents, message_eq h]
  exact (h.stands.reads sanitized).contents_eq h.parseable

theorem data_eq (h : Encodes host b m) :
    (⟨b, m.frame 0⟩ : MessageView sanitized).data = .ok b := by
  have hd : b.bytes = [] ++ (m.encode host ++ []) := by
    rw [List.nil_append, List.append_nil]
    exact h.bytes
  obtain ⟨s, hs, hdata⟩ : ∃ s : Slice, s.bytes = m.encode host ∧
      (⟨b, m.frame 0⟩ : MessageViewRef sanitized).data = .ok s :=
    MessageViewRef.data_eq rfl hd h.stands.end_lt
  rw [data, message_eq h]
  change (⟨b, m.frame 0⟩ : MessageViewRef sanitized).data = _
  rw [hdata, Slice.ext (hs.trans h.bytes.symm)]

end MessageView

theorem Encodes.data_eq (h : Encodes host b m) :
    (⟨b, m.frame 0⟩ : UnsanitizedMessageViewRef).data = .ok b := by
  have hview : (⟨b, m.frame 0⟩ : MessageView false).data = .ok b := MessageView.data_eq h
  rwa [MessageView.data, MessageView.message_eq h] at hview

/-- The sanitize checks of a message view are the rules for the message it shows. -/
theorem Encodes.sanitizeMessage_ok (h : Encodes host b m) :
    sanitizeMessage host ⟨b, m.frame 0⟩ = .ok () ↔ m.Valid host := by
  have hr := h.stands.reads false
  have hbody := sanitizeMessageBody_ok hr h.parseable h.stands.totals_lt
  have hsize : sanitizeMessageSize ⟨b, m.frame 0⟩ = .ok () ↔
      1 + 64 * m.header.numRequiredSignatures.toNat + (m.encode host).length ≤ packetDataSize := by
    have hlen : b.len < 65536 := by
      rw [Slice.len, h.bytes]
      exact h.length_lt
    have hr' := m.header.numRequiredSignatures.toNat_lt
    rw [sanitizeMessageSize, h.data_eq, hr.numRequiredSignatures]
    change rejectInsane (wrappingAdd (wrappingAdd (wrappingMul
      m.header.numRequiredSignatures.toNat 64) b.len) 1 > packetDataSize) = .ok () ↔ _
    rw [rejectInsane_ok, ← h.bytes, not_lt]
    change wrappingAdd _ _ ≤ _ ↔ _ + b.len ≤ _
    simp only [wrappingAdd, wrappingMul, usizeRange]
    omega
  by_cases hv : m.version = .v1
  · have hflag : ¬ isLegacyOrV0 (m.frame 0).version = true := by
      rw [isLegacyOrV0_iff, not_not]
      exact hr.version.trans hv
    have hunfold : sanitizeMessage host ⟨b, m.frame 0⟩ =
        sanitizeMessageBody host ⟨b, m.frame 0⟩ := by
      rw [sanitizeMessage, MessageViewRef.version, if_neg hflag]
    rw [hunfold, hbody]
    constructor
    · intro hvalid
      exact ⟨fun hne => absurd hv hne, hvalid⟩
    · intro hvalid
      exact hvalid.body
  · have hflag : isLegacyOrV0 (m.frame 0).version = true := by
      rw [isLegacyOrV0_iff]
      exact fun hv' => hv (hr.version.symm.trans hv')
    rw [sanitizeMessage, MessageViewRef.version, if_pos hflag, outcome_bind_ok]
    constructor
    · rintro ⟨_, h₁, h₂⟩
      exact ⟨fun _ => hsize.mp h₁, hbody.mp h₂⟩
    · intro hvalid
      exact ⟨(), hsize.mpr (hvalid.size hv), hbody.mpr hvalid.body⟩

namespace MessageView

theorem tryNewSanitized_ok {view : MessageView true} :
    tryNewSanitized host b = .ok view ↔
      ∃ m, Encodes host b m ∧ m.Valid host ∧ view = ⟨b, m.frame 0⟩ := by
  have hsan {m : Message} (h : Encodes host b m) {v : MessageView true} :
      (⟨b, m.frame 0⟩ : MessageView false).sanitize host = .ok v ↔
        m.Valid host ∧ v = ⟨b, m.frame 0⟩ := by
    rw [sanitize, message_eq h]
    change (sanitizeMessage host ⟨b, m.frame 0⟩ >>= _) = _ ↔ _
    rw [outcome_bind_ok, ← h.sanitizeMessage_ok]
    constructor
    · rintro ⟨_, h₁, h₂⟩
      cases h₂
      exact ⟨h₁, rfl⟩
    · rintro ⟨h₁, rfl⟩
      exact ⟨(), h₁, rfl⟩
  rw [tryNewSanitized, outcome_bind_ok]
  constructor
  · rintro ⟨u, hu, hview⟩
    obtain ⟨m, henc, rfl⟩ := tryNewUnsanitized_ok.mp hu
    obtain ⟨hvalid, rfl⟩ := (hsan henc).mp hview
    exact ⟨m, henc, hvalid, rfl⟩
  · rintro ⟨m, henc, hvalid, rfl⟩
    exact ⟨_, tryNewUnsanitized_ok.mpr ⟨m, henc, rfl⟩, (hsan henc).mpr ⟨hvalid, rfl⟩⟩

theorem noFault_tryNewUnsanitized : NoFault (tryNewUnsanitized host b) := by
  apply NoFault.bind
  · exact MessageFrame.safe_tryNew
  · intro _ _
    exact noFault_ok _

theorem noFault_tryNewSanitized : NoFault (tryNewSanitized host b) := by
  apply noFault_tryNewUnsanitized.bind
  intro view hview
  obtain ⟨m, henc, rfl⟩ := tryNewUnsanitized_ok.mp hview
  have hr := henc.stands.reads false
  have hbody := noFault_sanitizeMessageBody hr henc.parseable
  have hcheck : NoFault (sanitizeMessage host ⟨b, m.frame 0⟩) := by
    unfold sanitizeMessage
    split
    · apply NoFault.bind
      · rw [sanitizeMessageSize, henc.data_eq]
        exact noFault_rejectInsane _
      · intro _ _
        exact hbody
    · exact hbody
  rw [sanitize, message_eq henc]
  apply NoFault.bind hcheck
  intro _ _
  exact noFault_ok _

end MessageView

end AgaveSdk.TxView
