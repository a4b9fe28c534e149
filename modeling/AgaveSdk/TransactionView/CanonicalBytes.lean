import AgaveSdk.TransactionView.PrefixParsing

/-! What the accessors of a view return determines the bytes that the view was made for, so no
accepted transaction has a second wire form. -/
namespace AgaveSdk.TxView
open ByteOrder

namespace TransactionConfig

variable {config config' : TransactionConfig} {bit : ℕ}

theorem word_of_mem (config : TransactionConfig) (h : bit ∈ setBits config.mask) :
    ∃ w, config.word bit = some w := by
  have hlt : (setBits config.mask).idxOf bit < config.words.length := by
    rw [config.words_length]
    exact List.idxOf_lt_length_of_mem h
  rw [TransactionConfigView.word_eq, if_pos h]
  exact ⟨_, List.getElem?_eq_getElem hlt⟩

/-- The number of a word gives back its bytes. -/
theorem word_of_u32 (hbit : bit ∈ setBits config.mask) (hbit' : bit ∈ setBits config'.mask)
    (h : config.u32 bit = config'.u32 bit) : config.word bit = config'.word bit := by
  obtain ⟨w, hw⟩ := config.word_of_mem hbit
  obtain ⟨w', hw'⟩ := config'.word_of_mem hbit'
  have hlt := leNat_lt w.toList
  have hlt' := leNat_lt w'.toList
  rw [Vector.length_toList] at hlt hlt'
  simp only [u32, hw, hw', Option.map_some, Option.some.injEq] at h
  have hnat := congrArg UInt32.toNat h
  rw [UInt32.toNat_ofNat_of_lt' hlt, UInt32.toNat_ofNat_of_lt' hlt'] at hnat
  have hbytes := leNat_inj (by rw [Vector.length_toList, Vector.length_toList]) hnat
  rw [hw, hw', Vector.toList_inj.mp hbytes]

theorem words_of_priorityFee (hlow : 0 ∈ setBits config.mask) (hhigh : 1 ∈ setBits config.mask)
    (hmask : config'.mask = config.mask) (h : config.priorityFee = config'.priorityFee) :
    config.word 0 = config'.word 0 ∧ config.word 1 = config'.word 1 := by
  obtain ⟨low, hl⟩ := config.word_of_mem hlow
  obtain ⟨high, hh⟩ := config.word_of_mem hhigh
  obtain ⟨low', hl'⟩ := config'.word_of_mem (hmask ▸ hlow)
  obtain ⟨high', hh'⟩ := config'.word_of_mem (hmask ▸ hhigh)
  have hlen (x y : Vector UInt8 4) : (x.toList ++ y.toList).length = 8 := by
    rw [List.length_append, Vector.length_toList, Vector.length_toList]
  have hlt := leNat_lt (low.toList ++ high.toList)
  have hlt' := leNat_lt (low'.toList ++ high'.toList)
  rw [hlen] at hlt hlt'
  simp only [priorityFee, hl, hh, hl', hh', Option.some.injEq] at h
  have hnat := congrArg UInt64.toNat h
  rw [UInt64.toNat_ofNat_of_lt' hlt, UInt64.toNat_ofNat_of_lt' hlt'] at hnat
  have hbytes := leNat_inj ((hlen low high).trans (hlen low' high').symm) hnat
  obtain ⟨hfirst, hsecond⟩ := List.append_inj hbytes (by
    rw [Vector.length_toList, Vector.length_toList])
  rw [hl, hh, hl', hh', Vector.toList_inj.mp hfirst, Vector.toList_inj.mp hsecond]
  exact ⟨rfl, rfl⟩

/-- The getters of a config section tell all its words, as all its bits are known. -/
theorem eq_of_contents (hmask : MaskValid config.mask) (h : config.contents = config'.contents) :
    config = config' := by
  obtain ⟨hm, hfee, h₂, h₃, h₄⟩ := ConfigContents.mk.inj h
  have hword (bit : ℕ) (hbit : bit ∈ setBits config.mask) :
      config.word bit = config'.word bit := by
    have hbit' : bit ∈ setBits config'.mask := hm ▸ hbit
    have hlt := hmask.1 bit hbit
    obtain rfl | rfl | rfl | rfl | rfl :
        bit = 0 ∨ bit = 1 ∨ bit = 2 ∨ bit = 3 ∨ bit = 4 := by
      omega
    · exact (words_of_priorityFee hbit (hmask.2.mp hbit) hm.symm hfee).1
    · exact (words_of_priorityFee (hmask.2.mpr hbit) hbit hm.symm hfee).2
    · exact word_of_u32 hbit hbit' h₂
    · exact word_of_u32 hbit hbit' h₃
    · exact word_of_u32 hbit hbit' h₄
  have hwords : config.words = config'.words := by
    apply List.ext_getElem?
    intro j
    rcases Nat.lt_or_ge j (setBits config.mask).length with hj | hj
    · have hnodup : (setBits config.mask).Nodup := List.nodup_range.filter _
      have hj' := hword _ (List.getElem_mem hj)
      rw [TransactionConfigView.word_eq, TransactionConfigView.word_eq, ← hm,
        if_pos (List.getElem_mem hj), if_pos (List.getElem_mem hj),
        hnodup.idxOf_getElem j hj] at hj'
      exact hj'
    · rw [List.getElem?_eq_none (config.words_length.trans_le hj),
        List.getElem?_eq_none (config'.words_length.trans_le (hm ▸ hj))]
  cases config
  cases config'
  cases hm
  cases hwords
  rfl

end TransactionConfig

variable {host : Endian} {b b' : Slice} {m m' : Message} {tx tx' : Transaction}

/-- Different messages never look the same. -/
theorem Message.eq_of_contents (hp : m.Parseable) (h : m.contents = m'.contents) : m = m' := by
  simp only [Message.contents, MessageContents.mk.injEq] at h
  obtain ⟨hversion, hsigned, hreadonly, hunsigned, -, -, -, -, -, hkeys, hhash, hixs, hlookups,
    hcontents⟩ := h
  have hconfig : m.config = m'.config := by
    by_cases hv : m.version = .v1
    · rw [if_pos hv, if_pos (hversion ▸ hv), Option.some.injEq] at hcontents
      exact TransactionConfig.eq_of_contents ((if_pos hv).mp hp : m.ParseableV1).mask hcontents
    · rw [m.config_eq_empty hv, m'.config_eq_empty (hversion ▸ hv)]
  have hheader : m.header = m'.header := by
    cases hm : m.header
    cases hm' : m'.header
    rw [hm, hm'] at hsigned hreadonly hunsigned
    cases hsigned
    cases hreadonly
    cases hunsigned
    rfl
  cases m
  cases m'
  cases hversion
  cases hheader
  cases hkeys
  cases hhash
  cases hixs
  cases hlookups
  cases hconfig
  rfl

theorem StartsWith.eq_of_shows (h : StartsWith host b tx) (h' : StartsWith host b' tx')
    (hcontents : (⟨b, tx.frame host⟩ : TransactionView false).contents host =
      (⟨b', tx'.frame host⟩ : TransactionView false).contents host)
    (hsignatures : (⟨b, tx.frame host⟩ : TransactionView false).signatures =
      (⟨b', tx'.frame host⟩ : TransactionView false).signatures) : tx = tx' := by
  obtain ⟨d, hs⟩ := h.shows false
  obtain ⟨d', hs'⟩ := h'.shows false
  rw [hs.contents_eq, hs'.contents_eq] at hcontents
  rw [hs.signatures, hs'.signatures] at hsignatures
  have hmessage := Message.eq_of_contents h.parseable.message (Except.ok.inj hcontents)
  have hlist := Except.ok.inj hsignatures
  cases tx
  cases tx'
  cases hmessage
  cases hlist
  rfl

/-- Two buffers whose views have the same signatures and show the same message are one, from every
constructor, of transactions and of messages. -/
theorem accessors_determine_bytes (host : Endian) (b b' : Slice) :
    (∀ view view' : TransactionView false, TransactionView.tryNewUnsanitized host b = .ok view →
      TransactionView.tryNewUnsanitized host b' = .ok view' →
      view.contents host = view'.contents host → view.signatures = view'.signatures → b = b') ∧
    (∀ (view view' : TransactionView false) (n n' : ℕ),
      TransactionView.tryNewUnsanitizedFromPrefix host b = .ok (view, n) →
      TransactionView.tryNewUnsanitizedFromPrefix host b' = .ok (view', n') →
      view.contents host = view'.contents host → view.signatures = view'.signatures →
      view.data = view'.data ∧ n = n') ∧
    ∀ view view' : MessageView false, MessageView.tryNewUnsanitized host b = .ok view →
      MessageView.tryNewUnsanitized host b' = .ok view' →
      view.contents host = view'.contents host → b = b' := by
  refine ⟨fun view view' h h' hcontents hsignatures => ?_,
    fun view view' n n' h h' hcontents hsignatures => ?_, fun view view' h h' hcontents => ?_⟩
  · obtain ⟨tx, hstart, -, hb, rfl⟩ := TransactionView.tryNewUnsanitized_ok.mp h
    obtain ⟨tx', hstart', -, hb', rfl⟩ := TransactionView.tryNewUnsanitized_ok.mp h'
    obtain rfl := hstart.eq_of_shows hstart' hcontents hsignatures
    exact Slice.ext (hb.trans hb'.symm)
  · obtain ⟨tx, hstart, -, hview⟩ := TransactionView.tryNewUnsanitizedFromPrefix_ok.mp h
    obtain ⟨tx', hstart', -, hview'⟩ := TransactionView.tryNewUnsanitizedFromPrefix_ok.mp h'
    cases hview
    cases hview'
    obtain rfl := hstart.eq_of_shows hstart' hcontents hsignatures
    obtain ⟨d, hs⟩ := hstart.shows false
    obtain ⟨d', hs'⟩ := hstart'.shows false
    refine ⟨?_, rfl⟩
    rw [hs.data, hs'.data, Slice.ext (hs.bytes.trans hs'.bytes.symm)]
  · obtain ⟨m, henc, rfl⟩ := MessageView.tryNewUnsanitized_ok.mp h
    obtain ⟨m', henc', rfl⟩ := MessageView.tryNewUnsanitized_ok.mp h'
    rw [MessageView.contents_eq henc, MessageView.contents_eq henc'] at hcontents
    obtain rfl := Message.eq_of_contents henc.parseable (Except.ok.inj hcontents)
    exact Slice.ext (henc.bytes.trans henc'.bytes.symm)

/-- The two transactions of the stream differ in what their accessors return. The first one alone
and at the front of the stream looks the same, and it is the same there. -/
theorem sample_bytes_determined :
    (∃ view view' : TransactionView false,
      TransactionView.tryNewUnsanitized .little sampleBytes = .ok view ∧
        TransactionView.tryNewUnsanitized .little sampleV1Bytes = .ok view' ∧
        ¬ (view.contents .little = view'.contents .little ∧
          view.signatures = view'.signatures)) ∧
      ∃ (view view' : TransactionView false) (n n' : ℕ),
        TransactionView.tryNewUnsanitizedFromPrefix .little sampleStream = .ok (view, n) ∧
          TransactionView.tryNewUnsanitizedFromPrefix .little sampleBytes = .ok (view', n') ∧
          view.data = view'.data ∧ n = n' := by
  have hstream : StartsWith .little sampleStream sampleTransaction :=
    sample_startsWith.extend (List.prefix_append _ _)
  refine ⟨?_, ?_⟩
  · have h := TransactionView.tryNewUnsanitized_ok.mpr
      ⟨_, sample_startsWith, sample_lookupsFit _, rfl, rfl⟩
    have h' := TransactionView.tryNewUnsanitized_ok.mpr
      ⟨_, sampleV1_startsWith, fun hv => absurd hv (by decide), rfl, rfl⟩
    refine ⟨_, _, h, h', fun ⟨hcontents, hsignatures⟩ => ?_⟩
    have hsame : sampleBytes = sampleV1Bytes :=
      (accessors_determine_bytes .little _ _).1 _ _ h h' hcontents hsignatures
    exact absurd (congrArg Slice.len hsame) (by decide +kernel)
  · have h := TransactionView.tryNewUnsanitizedFromPrefix_ok.mpr
      ⟨_, hstream, sample_lookupsFit _, rfl⟩
    have h' := TransactionView.tryNewUnsanitizedFromPrefix_ok.mpr
      ⟨_, sample_startsWith, sample_lookupsFit _, rfl⟩
    obtain ⟨d, hs⟩ := hstream.shows false
    obtain ⟨d', hs'⟩ := sample_startsWith.shows false
    refine ⟨_, _, _, _, h, h', (accessors_determine_bytes .little _ _).2.1 _ _ _ _ h h' ?_ ?_⟩
    · rw [hs.contents_eq, hs'.contents_eq]
    · rw [hs.signatures, hs'.signatures]

end AgaveSdk.TxView
