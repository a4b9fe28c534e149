import AgaveSdk.TransactionView.SanitizedGrammar

/-! Parsing on hosts of either byte order. Every load is converted, except that of the mask. -/
namespace AgaveSdk.TxView
open FallibleState Segments ByteOrder

variable {sanitized : Bool} {b : Slice} {tx : Transaction}

theorem rawRegion_length {o n : ℕ} {region : List UInt8} (h : rawRegion b o n = .ok region) :
    region.length = n := by
  unfold rawRegion at h
  split at h
  next hfit =>
    cases h
    rw [List.length_take, List.length_drop]
    unfold Slice.len at hfit
    omega
  next => cases h

theorem fromLe_load_of_length (host : Endian) {n : ℕ} {bs : List UInt8} (h : bs.length = n) :
    fromLe host n (load host bs) = leNat bs := h ▸ fromLe_load host bs

theorem InstructionsFrame.readV1Header_host (host host' : Endian) (b : Slice) :
    readV1Header host b = readV1Header host' b := by
  apply bind_congr
  intro c
  apply ofOutcome_bind_congr
  intro region hregion
  have hlen : (region.drop 2).length = 2 := by
    rw [List.length_drop, rawRegion_length hregion]
  dsimp only
  rw [fromLe_load_of_length host hlen, fromLe_load_of_length host' hlen]

theorem InstructionsIterator.next_host (host host' : Endian) : next host = next host' := by
  funext it
  cases it with
  | legacyAndV0 => rfl
  | v1 => rw [next, next, InstructionsFrame.readV1Header_host host host']

theorem TransactionConfigView.value_host (host host' : Endian) (size : ℕ)
    (view : TransactionConfigView) (bit : UInt8) :
    view.value host size bit = view.value host' size bit := by
  unfold value
  cases view.transactionConfigFrame.wordOffset bit with
  | none => rfl
  | some offset =>
    simp only [uncheckedCopyValue]
    rcases h : rawRegion view.bytes offset size with e | region
    · rfl
    · have hlen := rawRegion_length h
      change (.ok (some (fromLe host size (load host region))) : Outcome _ _) =
        .ok (some (fromLe host' size (load host' region)))
      rw [fromLe_load_of_length host hlen, fromLe_load_of_length host' hlen]

theorem TransactionConfigView.contents_host (host host' : Endian) (view : TransactionConfigView) :
    view.contents host = view.contents host' := by
  simp only [contents, priorityFeeLamports, computeUnitLimit, loadedAccountsDataSizeLimit,
    requestedHeapSize, value_host host host']

theorem MessageViewRef.contents_host (host host' : Endian) (view : MessageViewRef sanitized) :
    view.contents host = view.contents host' := by
  simp only [contents, InstructionsIterator.collect, InstructionsIterator.next_host host host',
    configContents, TransactionConfigView.contents_host host host']

/-- For every view, the instructions and the getters are the same on both hosts. -/
theorem TransactionView.contents_host (host host' : Endian) (view : TransactionView sanitized) :
    view.contents host = view.contents host' := by
  simp only [contents, MessageViewRef.contents_host host host']

/-- The buffer is a v1 transaction with a config section, its mask in the byte order of the host. -/
def SpellsConfig (host : Endian) (b : Slice) : Prop :=
  ∃ tx, StartsWith host b tx ∧ b.bytes = tx.encode host ∧ tx.message.version = .v1 ∧
    tx.message.config.mask ≠ 0

/-- Both hosts accept the buffer as the same view or reject it, and read the same out of it. -/
structure HostIndependent (b : Slice) : Prop where
  accepted : ∀ view, TransactionView.tryNewUnsanitized .little b = .ok view ↔
    TransactionView.tryNewUnsanitized .big b = .ok view
  contents : ∀ view, TransactionView.tryNewUnsanitized .little b = .ok view →
    view.contents .little = view.contents .big

theorem hostBytes_zero (host host' : Endian) : hostBytes host 4 0 = hostBytes host' 4 0 := by
  cases host <;> cases host' <;> rfl

theorem Transaction.encode_host (host host' : Endian)
    (h : tx.message.version = .v1 → tx.message.config.mask = 0) :
    tx.encode host = tx.encode host' := by
  have hmessage : tx.message.encode host = tx.message.encode host' := by
    by_cases hv : tx.message.version = .v1
    · rw [Message.encode, Message.encode, if_pos hv, if_pos hv, Message.encodeV1, Message.encodeV1,
        Message.v1FrontBytes, Message.v1FrontBytes, encodeV1Front, encodeV1Front, h hv,
        UInt32.toNat_zero, hostBytes_zero host host']
    · rw [Message.encode, Message.encode, if_neg hv, if_neg hv]
  rw [encode, encode, hmessage]

/-- The size of a transaction, and so its frame, is the same on both hosts. -/
theorem Transaction.frame_host (host host' : Endian) (tx : Transaction) :
    tx.frame host = tx.frame host' := by
  have hmessage : (tx.message.encode host).length = (tx.message.encode host').length := by
    by_cases hv : tx.message.version = .v1
    · simp only [Message.encode, if_pos hv, Message.encodeV1, List.length_append,
        Message.v1FrontBytes_length]
    · rw [Message.encode, Message.encode, if_neg hv, if_neg hv]
  have hlength : (tx.encode host).length = (tx.encode host').length := by
    rw [encode, encode, List.length_append, List.length_append, List.length_append,
      List.length_append, hmessage]
  rw [frame, frame, hmessage, hlength]

theorem mask_at {host : Endian} (hv : tx.message.version = .v1) (hb : b.bytes = tx.encode host) :
    At b.bytes 4 (hostBytes host 4 tx.message.config.mask.toNat) := by
  have hat : At b.bytes 0 (tx.message.encodeV1 host) := by
    rw [hb, Transaction.encode, Transaction.leading, if_pos hv, List.nil_append, Message.encode,
      if_pos hv]
    exact at_zero.mpr (List.prefix_append _ _)
  exact (at_encodeV1Front.mp (Message.at_encodeV1.mp hat).1).2.1

/-- A mask of known bits that reads the same in both byte orders is empty. -/
theorem eq_zero_of_hostBytes {mask : UInt32} (hmask : mask.toNat < 32) {host host' : Endian}
    (hne : host ≠ host') (h : hostBytes host 4 mask.toNat = hostBytes host' 4 mask.toNat) :
    mask = 0 := by
  have hswap : leBytes 4 mask.toNat = (leBytes 4 mask.toNat).reverse := by
    cases host <;> cases host'
    · exact absurd rfl hne
    · exact h
    · exact h.symm
    · exact absurd rfl hne
  have hfirst : UInt8.ofNat (mask.toNat % 256) = UInt8.ofNat (mask.toNat / 256 / 256 / 256 % 256) :=
    (List.cons.inj hswap).1
  have hhigh : mask.toNat / 256 / 256 / 256 % 256 = 0 := by omega
  rw [hhigh, Nat.mod_eq_of_lt (by omega)] at hfirst
  have hlow := congrArg UInt8.toNat hfirst
  rw [UInt8.toNat_ofNat', Nat.mod_eq_of_lt (by omega)] at hlow
  rw [← UInt32.toNat_inj, hlow]
  rfl

theorem accepted_on_other_host {host : Endian} (host' : Endian) (h : ¬ SpellsConfig host b)
    {view : TransactionView false} (hview : TransactionView.tryNewUnsanitized host b = .ok view) :
    TransactionView.tryNewUnsanitized host' b = .ok view := by
  obtain ⟨tx, hstart, hfit, hb, rfl⟩ := TransactionView.tryNewUnsanitized_ok.mp hview
  have hmask : tx.message.version = .v1 → tx.message.config.mask = 0 :=
    fun hv => not_not.mp fun hne => h ⟨tx, hstart, hb, hv, hne⟩
  have henc := tx.encode_host host host' hmask
  refine TransactionView.tryNewUnsanitized_ok.mpr ⟨tx, ?_, hfit, hb.trans henc, ?_⟩
  · exact ⟨hstart.parseable, henc ▸ hstart.encoded, henc ▸ hstart.length_lt⟩
  · rw [tx.frame_host host host']

/-- The other host does not see the config section that one host sees. -/
theorem misread_on_other_host {host host' : Endian} (hne : host ≠ host')
    (h : SpellsConfig host b) : ∃ view, TransactionView.tryNewUnsanitized host b = .ok view ∧
      TransactionView.tryNewUnsanitized host' b ≠ .ok view := by
  obtain ⟨tx, hstart, hb, hv, hmask⟩ := h
  have hfit : tx.LookupsFit b.len := fun h0 => absurd (hv.symm.trans h0) (by decide)
  refine ⟨_, TransactionView.tryNewUnsanitized_ok.mpr ⟨tx, hstart, hfit, hb, rfl⟩, fun hother => ?_⟩
  obtain ⟨tx', hstart', -, hb', hframe⟩ := TransactionView.tryNewUnsanitized_ok.mp hother
  -- the view shows both transactions, so they have the same contents
  obtain ⟨_, hshows⟩ := hstart.shows false
  obtain ⟨_, hshows'⟩ := hstart'.shows false
  have hcontents := hshows.contents_eq
  rw [hframe, TransactionView.contents_host host host', hshows'.contents_eq] at hcontents
  have hcontents : tx'.message.contents = tx.message.contents := Except.ok.inj hcontents
  have hv' : tx'.message.version = .v1 := (congrArg MessageContents.version hcontents).trans hv
  have hconfig : some tx'.message.config.contents = some tx.message.config.contents := by
    have h := congrArg MessageContents.transactionConfig hcontents
    rwa [Message.contents, Message.contents, if_pos hv, if_pos hv'] at h
  have hmask' : tx'.message.config.mask = tx.message.config.mask :=
    congrArg ConfigContents.mask (Option.some.inj hconfig)
  have hbytes := (mask_at hv hb).take_eq
  have hbytes' := (mask_at hv' hb').take_eq
  rw [hostBytes_length] at hbytes hbytes'
  rw [hmask', hbytes] at hbytes'
  have hvalid := ((if_pos hv).mp hstart.parseable.message).mask
  exact hmask (eq_zero_of_hostBytes (toNat_lt_of_bits hvalid.1) hne hbytes')

/-- The two hosts agree on a buffer exactly if neither sees a config section in it. -/
theorem hostIndependent_iff (b : Slice) : HostIndependent b ↔ ∀ host, ¬ SpellsConfig host b := by
  constructor
  · intro h host hspells
    cases host with
    | little =>
      obtain ⟨view, hlittle, hbig⟩ :=
        misread_on_other_host (by decide : Endian.little ≠ .big) hspells
      exact hbig ((h.accepted view).mp hlittle)
    | big =>
      obtain ⟨view, hbig, hlittle⟩ :=
        misread_on_other_host (by decide : Endian.big ≠ .little) hspells
      exact hlittle ((h.accepted view).mpr hbig)
  · intro h
    refine ⟨fun view => ⟨?_, ?_⟩, fun view _ => view.contents_host .little .big⟩
    · exact accepted_on_other_host .big (h .little)
    · exact accepted_on_other_host .little (h .big)

theorem sampleV1_depends_on_host :
    (∃ view, TransactionView.tryNewUnsanitized .little sampleV1Bytes = .ok view ∧
      view.frame.message.transactionConfigFrame.mask = 7) ∧
    TransactionView.tryNewUnsanitized .big sampleV1Bytes = .error (.err .sanitizeError) := by
  have hmask : TransactionConfig.MaskValid sampleV1Transaction.message.config.mask := by decide
  have hparseable : sampleV1Transaction.Parseable :=
    ⟨(if_pos rfl).mpr ⟨rfl, hmask⟩, fun h => absurd rfl h⟩
  have hstart : StartsWith .little sampleV1Bytes sampleV1Transaction :=
    ⟨hparseable, List.prefix_refl _, by decide +kernel⟩
  refine ⟨⟨_, TransactionView.tryNewUnsanitized_ok.mpr
    ⟨sampleV1Transaction, hstart, fun h => absurd h (by decide), rfl, rfl⟩, rfl⟩, ?_⟩
  decide +kernel

end AgaveSdk.TxView
