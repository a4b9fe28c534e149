import AgaveSdk.TransactionView.SanitizedGrammar

/-! Parsing a transaction in front of other bytes: what the bytes behind it can change. -/
namespace AgaveSdk.TxView
open FallibleState Segments ByteOrder

variable {host : Endian} {b d p t : Slice} {tx : Transaction} {f : TransactionFrame} {n : ℕ}

theorem Transaction.LookupsFit.mono {len len' : ℕ} (h : tx.LookupsFit len) (hle : len ≤ len') :
    tx.LookupsFit len' := by
  intro hv
  exact (h hv).trans hle

theorem StartsWith.extend (h : StartsWith host p tx) (hb : p.bytes <+: b.bytes) :
    StartsWith host b tx :=
  ⟨h.parseable, h.encoded.trans hb, h.length_lt⟩

namespace TransactionFrame

/-- More bytes behind an accepted transaction do not change its frame. -/
theorem parsePrefix_extend (h : parsePrefix host p = .ok f) (hb : p.bytes <+: b.bytes) :
    parsePrefix host b = .ok f := by
  obtain ⟨tx, hstart, hfit, rfl⟩ := parsePrefix_ok.mp h
  exact parsePrefix_ok.mpr ⟨tx, hstart.extend hb, hfit.mono hb.length_le, rfl⟩

theorem dataLen_le (h : parsePrefix host p = .ok f) : f.dataLen.toNat ≤ p.len := by
  obtain ⟨tx, hstart, -, rfl⟩ := parsePrefix_ok.mp h
  rw [hstart.dataLen_eq]
  exact hstart.encoded.length_le

theorem dataLen_pos (h : parsePrefix host p = .ok f) : 1 ≤ f.dataLen.toNat := by
  obtain ⟨tx, hstart, -, rfl⟩ := parsePrefix_ok.mp h
  obtain ⟨v, hhead, -⟩ := head_encode host hstart.parseable
  rw [hstart.dataLen_eq]
  cases henc : tx.encode host with
  | nil => simp [henc] at hhead
  | cons => simp

/-- Cut short, an accepted transaction is rejected with an error. -/
theorem parsePrefix_cut (h : parsePrefix host b = .ok f) (hp : p.bytes <+: b.bytes)
    (hlt : p.len < f.dataLen.toNat) : ∃ e, parsePrefix host p = .error (.err e) := by
  rcases noFault_parsePrefix.cases with ⟨f', hf'⟩ | herr
  · have heq : f' = f := Except.ok.inj ((parsePrefix_extend hf' hp).symm.trans h)
    have hle := dataLen_le hf'
    rw [heq] at hle
    omega
  · exact herr

theorem parse_cut (h : parsePrefix host b = .ok f) (hp : p.bytes <+: b.bytes)
    (hlt : p.len < f.dataLen.toNat) : ∃ e, parse host p = .error (.err e) := by
  rcases noFault_parse.cases with ⟨f', hf'⟩ | herr
  · obtain ⟨e, he⟩ := parsePrefix_cut h hp hlt
    rw [(parse_ok.mp hf').1] at he
    cases he
  · exact herr

end TransactionFrame

/-- The range `[n..]`, which panics past the end. -/
def Slice.startingAt (s : Slice) (n : ℕ) : Outcome TransactionViewError Slice :=
  if n ≤ s.len then .ok ⟨s.bytes.drop n, (List.drop_sublist n _).length_le.trans s.length_le⟩
  else .error (.fault .panic)

/-- Takes transactions from the front of the data until nothing is left. The fuel only bounds the
recursion. -/
def splitTransactions (host : Endian) : ℕ → Slice →
    Outcome TransactionViewError (List (Slice × TransactionFrame))
  | 0, _ => .error (.fault .exhausted)
  | fuel + 1, data =>
      if data.len = 0 then return []
      else do
        let parsed ← TransactionView.tryNewUnsanitizedFromPrefix host data
        let item ← parsed.1.data
        let rest ← data.startingAt parsed.2
        return (item, parsed.1.frame) :: (← splitTransactions host fuel rest)

/-- One round of the loop takes the first transaction off. -/
theorem splitTransactions_cons {fuel : ℕ} {rest : Slice} {items : List (Slice × TransactionFrame)}
    (hp : TransactionFrame.parse host p = .ok f) (hb : b.bytes = p.bytes ++ rest.bytes)
    (hrest : splitTransactions host fuel rest = .ok items) :
    splitTransactions host (fuel + 1) b = .ok ((p, f) :: items) := by
  obtain ⟨hfront, hlen⟩ := TransactionFrame.parse_ok.mp hp
  have hpos := TransactionFrame.dataLen_pos hfront
  have hpre : p.bytes <+: b.bytes := ⟨rest.bytes, hb.symm⟩
  have hparse : TransactionView.tryNewUnsanitizedFromPrefix host b = .ok (⟨b, f⟩, p.len) := by
    have hf := TransactionFrame.parsePrefix_extend hfront hpre
    rw [← hlen]
    exact outcome_bind_ok.mpr ⟨f, hf, rfl⟩
  have hle : p.len ≤ b.len := hpre.length_le
  have hne : ¬ b.len = 0 := by
    omega
  have hdata : (⟨b, f⟩ : TransactionView false).data = .ok p := by
    obtain ⟨s, hs, hup⟩ := Slice.upTo_eq hlen hpre
    rw [TransactionView.data, hup, Slice.ext hs]
  have hstart : b.startingAt p.len = .ok rest := by
    rw [Slice.startingAt, if_pos hle]
    refine congrArg Except.ok (Slice.ext ?_)
    change b.bytes.drop p.bytes.length = rest.bytes
    rw [hb, List.drop_left]
  rw [splitTransactions, if_neg hne, hparse]
  change ((⟨b, f⟩ : TransactionView false).data >>= _) = _
  rw [hdata]
  change (b.startingAt p.len >>= _) = _
  rw [hstart]
  change (splitTransactions host fuel rest >>= _) = _
  rw [hrest]
  rfl

/-- The loop gives back the transactions that were concatenated. -/
theorem splitTransactions_eq {items : List (Slice × TransactionFrame)} {fuel : ℕ}
    (hitems : ∀ item ∈ items, TransactionFrame.parse host item.1 = .ok item.2)
    (hb : b.bytes = items.flatMap fun item => item.1.bytes) (hfuel : items.length < fuel) :
    splitTransactions host fuel b = .ok items := by
  induction items generalizing b fuel with
  | nil =>
    obtain ⟨k, rfl⟩ : ∃ k, fuel = k + 1 := ⟨fuel - 1, by simp at hfuel; omega⟩
    have hlen : b.len = 0 := by
      rw [Slice.len, hb]
      rfl
    rw [splitTransactions, if_pos hlen]
    rfl
  | cons item items ih =>
    obtain ⟨k, rfl⟩ : ∃ k, fuel = k + 1 := ⟨fuel - 1, by simp at hfuel; omega⟩
    have hlen : (items.flatMap fun item => item.1.bytes).length ≤ isizeMax := by
      have := b.length_le
      rw [hb, List.flatMap_cons, List.length_append] at this
      omega
    have hrest : splitTransactions host k ⟨items.flatMap fun item => item.1.bytes, hlen⟩ =
        .ok items :=
      ih (fun x hx => hitems x (List.mem_cons_of_mem _ hx)) rfl (by simp at hfuel; omega)
    rw [List.flatMap_cons] at hb
    exact splitTransactions_cons (hitems item List.mem_cons_self) hb hrest

theorem items_length_le {items : List (Slice × TransactionFrame)}
    (hitems : ∀ item ∈ items, TransactionFrame.parse host item.1 = .ok item.2) :
    items.length ≤ (items.flatMap fun item => item.1.bytes).length := by
  induction items with
  | nil => exact Nat.zero_le _
  | cons item items ih =>
    obtain ⟨hfront, hlen⟩ := TransactionFrame.parse_ok.mp (hitems item List.mem_cons_self)
    have hpos := TransactionFrame.dataLen_pos hfront
    have ih := ih fun x hx => hitems x (List.mem_cons_of_mem _ hx)
    rw [hlen, Slice.len] at hpos
    rw [List.flatMap_cons, List.length_append, List.length_cons]
    omega

/-- Prefix parsing is stable under extension, accepts no strict prefix of what it accepts, and
splits concatenated transactions. -/
theorem parsePrefix_stable_and_splits (host : Endian) :
    (∀ (p t b : Slice) (f : TransactionFrame), b.bytes = p.bytes ++ t.bytes →
      TransactionFrame.parsePrefix host p = .ok f → TransactionFrame.parsePrefix host b = .ok f) ∧
    (∀ (p t b : Slice) (f : TransactionFrame), b.bytes = p.bytes ++ t.bytes →
      TransactionFrame.parse host p = .ok f →
      ∃ f', TransactionFrame.parsePrefix host b = .ok f' ∧ f'.dataLen.toNat = p.len) ∧
    (∀ (b : Slice) (f : TransactionFrame), TransactionFrame.parsePrefix host b = .ok f →
      ∀ n < f.dataLen.toNat, ∃ p e e', b.upTo n = .ok p ∧
        TransactionFrame.parsePrefix host p = .error (.err e) ∧
        TransactionFrame.parse host p = .error (.err e')) ∧
    (∀ (items : List (Slice × TransactionFrame)) (b : Slice),
      (∀ item ∈ items, TransactionFrame.parse host item.1 = .ok item.2) →
      b.bytes = (items.flatMap fun item => item.1.bytes) →
      splitTransactions host (b.len + 1) b = .ok items) := by
  refine ⟨?_, ?_, ?_, ?_⟩
  · intro p t b f hb h
    exact TransactionFrame.parsePrefix_extend h ⟨t.bytes, hb.symm⟩
  · intro p t b f hb h
    obtain ⟨hfront, hlen⟩ := TransactionFrame.parse_ok.mp h
    exact ⟨f, TransactionFrame.parsePrefix_extend hfront ⟨t.bytes, hb.symm⟩, hlen⟩
  · intro b f h n hn
    have hle := TransactionFrame.dataLen_le h
    have hlen : n = (b.bytes.take n).length := by
      rw [List.length_take_of_le]
      exact hn.le.trans hle
    obtain ⟨p, hp, hup⟩ := Slice.upTo_eq hlen (List.take_prefix n b.bytes)
    have hpre : p.bytes <+: b.bytes := by
      rw [hp]
      exact List.take_prefix n b.bytes
    have hplen : p.len < f.dataLen.toNat := by
      rw [Slice.len, hp, ← hlen]
      exact hn
    obtain ⟨e, he⟩ := TransactionFrame.parsePrefix_cut h hpre hplen
    obtain ⟨e', he'⟩ := TransactionFrame.parse_cut h hpre hplen
    exact ⟨p, e, e', hup, he, he'⟩
  · intro items b hitems hb
    apply splitTransactions_eq hitems hb
    have hle := items_length_le hitems
    rw [← hb] at hle
    exact Nat.lt_succ_of_le hle

theorem sampleV1_startsWith : StartsWith .little sampleV1Bytes sampleV1Transaction where
  parseable := ⟨⟨rfl, by decide +kernel⟩, fun h => absurd rfl h⟩
  encoded := List.prefix_refl _
  length_lt := by decide +kernel

/-- A legacy transaction followed by a v1 transaction. -/
def sampleStream : Slice := ⟨sampleBytes.bytes ++ sampleV1Bytes.bytes, by decide +kernel⟩

theorem sampleStream_splits : splitTransactions .little (sampleStream.len + 1) sampleStream =
    .ok [(sampleBytes, sampleTransaction.frame .little),
      (sampleV1Bytes, sampleV1Transaction.frame .little)] := by
  apply (parsePrefix_stable_and_splits .little).2.2.2
  · intro item hitem
    rcases List.mem_pair.mp hitem with rfl | rfl
    · have hfront := TransactionFrame.parsePrefix_ok.mpr
        ⟨_, sample_startsWith, sample_lookupsFit _, rfl⟩
      exact TransactionFrame.parse_ok.mpr ⟨hfront, sample_startsWith.dataLen_eq⟩
    · have hfront := TransactionFrame.parsePrefix_ok.mpr
        ⟨_, sampleV1_startsWith, fun h => absurd h (by decide), rfl⟩
      exact TransactionFrame.parse_ok.mpr ⟨hfront, sampleV1_startsWith.dataLen_eq⟩
  · simp [sampleStream]

/-- The bytes of the lookups behind their count. -/
def Transaction.lookupsLength (tx : Transaction) : ℕ :=
  (tx.message.lookups.flatMap SVMMessageAddressTableLookup.encode).length

/-- The estimate of the parser in terms of the bytes the lookups really take. -/
theorem Transaction.lookupsFit_iff (host : Endian) (hp : tx.Parseable)
    (hv : tx.message.version = .v0) {len : ℕ} : tx.LookupsFit len ↔
      (tx.encode host).length + 35 * tx.message.lookups.length ≤ len + tx.lookupsLength := by
  have hne : tx.message.version ≠ .v1 := TransactionVersion.ne_v1_iff.mpr (.inr hv)
  have hle := ((if_neg hne).mp hp.message : tx.message.ParseableLegacyOrV0).lookups_le
  have hcount : (shortU16 tx.message.lookups.length).length = 1 := by
    rw [shortU16_of_lt (by omega)]
    rfl
  have hoff := tx.message.lookupsOffset_add tx.leading.length
  rw [hv, lookupBytes, encodeLookups, List.length_append, hcount] at hoff
  rw [encode, trailing, if_neg hne, List.append_nil, List.length_append, Message.encode,
    if_neg hne, lookupsLength, LookupsFit, Message.LookupsFit]
  constructor
  · intro h
    have := h hv
    omega
  · intro h _
    omega

/-- The transaction that was found in front of the data parses by itself, with the same frame. -/
def TrailingIgnored (host : Endian) (b : Slice) : Prop :=
  ∀ view n, TransactionView.tryNewUnsanitizedFromPrefix host b = .ok (view, n) →
    ∃ d view', b.upTo n = .ok d ∧ view.data = .ok d ∧
      TransactionView.tryNewUnsanitized host d = .ok view' ∧ view'.frame = view.frame

/-- A v0 transaction in front of the data has lookups of fewer than 35 bytes on average, and the
bytes behind it make up for what is missing. -/
def UndersizedLookups (host : Endian) (b : Slice) : Prop :=
  ∃ tx : Transaction, StartsWith host b tx ∧ tx.message.version = .v0 ∧
    tx.lookupsLength < 35 * tx.message.lookups.length ∧
    35 * tx.message.lookups.length ≤ tx.lookupsLength + (b.len - (tx.encode host).length)

theorem StartsWith.upTo_eq (h : StartsWith host b tx) :
    ∃ d : Slice, d.bytes = tx.encode host ∧ b.upTo (tx.encode host).length = .ok d ∧
      StartsWith host d tx := by
  obtain ⟨d, hd, hup⟩ := Slice.upTo_eq rfl h.encoded
  exact ⟨d, hd, hup, h.parseable, hd ▸ List.prefix_refl _, h.length_lt⟩

/-- Two transactions with the same frame over the same bytes have the same message contents. -/
theorem contents_eq_of_frame_eq {tx' : Transaction} (h : StartsWith host d tx)
    (h' : StartsWith host d tx') (hf : tx'.frame host = tx.frame host) :
    tx'.message.contents = tx.message.contents := by
  obtain ⟨_, hs⟩ := h.shows false
  obtain ⟨_, hs'⟩ := h'.shows false
  have hc := hs'.contents_eq
  rw [hf, hs.contents_eq] at hc
  exact (Except.ok.inj hc).symm

theorem not_trailingIgnored (h : UndersizedLookups host b) : ¬ TrailingIgnored host b := by
  obtain ⟨tx, hstart, hv, hsmall, hroom⟩ := h
  intro hignored
  have hle : (tx.encode host).length ≤ b.len := hstart.encoded.length_le
  have hfit : tx.LookupsFit b.len := by
    apply (Transaction.lookupsFit_iff host hstart.parseable hv).mpr
    omega
  obtain ⟨d, view', hup, -, hparse, hframe⟩ := hignored _ _
    (TransactionView.tryNewUnsanitizedFromPrefix_ok.mpr ⟨tx, hstart, hfit, rfl⟩)
  obtain ⟨d', hd', hup', hstart'⟩ := hstart.upTo_eq
  obtain rfl : d' = d := Except.ok.inj (hup'.symm.trans hup)
  obtain ⟨tx', hstart'', hfit', hd, rfl⟩ := TransactionView.tryNewUnsanitized_ok.mp hparse
  have hcontents := contents_eq_of_frame_eq hstart' hstart'' hframe
  have hversion : tx'.message.version = tx.message.version :=
    congrArg MessageContents.version hcontents
  have hlookups : tx'.message.lookups = tx.message.lookups :=
    congrArg MessageContents.addressTableLookups hcontents
  have hge := (Transaction.lookupsFit_iff host hstart''.parseable (hversion.trans hv)).mp hfit'
  rw [Transaction.lookupsLength] at hsmall
  rw [Slice.len, hd, Transaction.lookupsLength, hlookups] at hge
  omega

/-- Trailing bytes are ignored exactly on the buffers without a v0 transaction in front that needs
them for its undersized lookups. -/
theorem trailingIgnored_iff (host : Endian) (b : Slice) :
    TrailingIgnored host b ↔ ¬ UndersizedLookups host b := by
  constructor
  · intro hignored hsmall
    exact not_trailingIgnored hsmall hignored
  · intro hsmall view n h
    obtain ⟨tx, hstart, hfit, hview⟩ := TransactionView.tryNewUnsanitizedFromPrefix_ok.mp h
    cases hview
    obtain ⟨d, hd, hup, hstart'⟩ := hstart.upTo_eq
    have hfit' : tx.LookupsFit d.len := by
      by_cases hv : tx.message.version = .v0
      · have hle : (tx.encode host).length ≤ b.len := hstart.encoded.length_le
        have hroom := (Transaction.lookupsFit_iff host hstart.parseable hv).mp hfit
        apply (Transaction.lookupsFit_iff host hstart.parseable hv).mpr
        rw [Slice.len, hd]
        by_contra hlt
        exact hsmall ⟨tx, hstart, hv, by omega, by omega⟩
      · intro h0
        exact absurd h0 hv
    refine ⟨d, _, hup, ?_, TransactionView.tryNewUnsanitized_ok.mpr
      ⟨tx, hstart', hfit', hd, rfl⟩, rfl⟩
    change b.upTo (tx.frame host).dataLen.toNat = _
    rw [hstart.dataLen_eq]
    exact hup

/-- A v0 transaction with a lookup that names no account. -/
def emptyLookupTransaction : Transaction where
  signatures := [Vector.replicate 64 1]
  message := {
    version := .v0
    header := ⟨1, 0, 0⟩
    staticAccountKeys := [Vector.replicate 32 2]
    recentBlockhash := Vector.replicate 32 3
    instructions := []
    lookups := [⟨Vector.replicate 32 4, [], []⟩]
    config := .empty
    lookups_eq_nil := fun h => absurd rfl h
    config_eq_empty := fun _ => rfl
    fits_v1 := fun h => absurd h (by decide) }
  signatures_v1 := fun h => absurd h (by decide)

/-- The transaction with one byte behind it. -/
def emptyLookupBytes : Slice := ⟨emptyLookupTransaction.encode .little ++ [0], by decide +kernel⟩

theorem emptyLookup_startsWith : StartsWith .little emptyLookupBytes emptyLookupTransaction where
  parseable := {
    message := {
      version := .inr rfl
      keys_pos := by decide
      keys_le := by decide
      instructions_lt := by decide
      instructions_compact := by decide
      lookups_le := by decide
      lookups_compact := by decide }
    signatures := fun _ => by decide }
  encoded := List.prefix_append _ _
  length_lt := by decide +kernel

/-- One byte behind the transaction decides whether it parses. -/
theorem emptyLookup_trailing_byte_decides : ¬ TrailingIgnored .little emptyLookupBytes :=
  not_trailingIgnored ⟨_, emptyLookup_startsWith, rfl, by decide +kernel, by decide +kernel⟩

/-- What a view shows depends only on its data and its frame. -/
theorem TransactionView.accessors_eq {sanitized : Bool} {view view' : TransactionView sanitized}
    (hdata : view'.data = view.data) (hframe : view'.frame = view.frame) :
    view'.signatures = view.signatures ∧ view'.messageData = view.messageData ∧
      view'.contents host = view.contents host := by
  have hmessage : view'.message = view.message := by
    rw [message, message, hdata, hframe]
  refine ⟨?_, ?_, ?_⟩
  · rw [signatures, signatures, hdata, hframe]
  · rw [messageData, messageData, hmessage]
  · rw [contents, contents, hmessage]

theorem Slice.upTo_ok (h : b.upTo n = .ok d) : n = d.len ∧ d.bytes <+: b.bytes := by
  unfold Slice.upTo at h
  split at h
  · next hle =>
    cases h
    exact ⟨(List.length_take_of_le hle).symm, List.take_prefix n b.bytes⟩
  · cases h

/-- What the sanitized parser accepts, the sanitized prefix parser finds in front of other bytes. -/
theorem sanitizedFromPrefix_of_sanitized {view : TransactionView true} (hup : b.upTo n = .ok d)
    (h : TransactionView.tryNewSanitized host d = .ok view) :
    TransactionView.tryNewSanitizedFromPrefix host b = .ok (⟨b, view.frame⟩, n) := by
  obtain ⟨rfl, hpre⟩ := Slice.upTo_ok hup
  obtain ⟨tx, hstart, -, hd, hvalid, rfl⟩ := TransactionView.tryNewSanitized_ok.mp h
  have hle : (tx.encode host).length ≤ b.len := by
    rw [← hd]
    exact hpre.length_le
  apply TransactionView.tryNewSanitizedFromPrefix_ok.mpr
  refine ⟨tx, hstart.extend hpre, hvalid.lookupsFit hle, hvalid, ?_⟩
  rw [Slice.len, hd]

/-- Sanitized parsing of a prefix is sanitized parsing of the bytes that it consumes. -/
theorem sanitizedFromPrefix_eq_sanitized (host : Endian) (b : Slice) :
    (∀ view n, TransactionView.tryNewSanitizedFromPrefix host b = .ok (view, n) →
      n ≤ b.len ∧ ∃ d view', b.upTo n = .ok d ∧ view.data = .ok d ∧
        TransactionView.tryNewSanitized host d = .ok view' ∧ view'.frame = view.frame ∧
        view'.data = view.data ∧ view'.signatures = view.signatures ∧
        view'.messageData = view.messageData ∧ view'.contents host = view.contents host) ∧
    (∀ n ≤ b.len, ∀ d view, b.upTo n = .ok d →
      TransactionView.tryNewSanitized host d = .ok view →
      ∃ view', TransactionView.tryNewSanitizedFromPrefix host b = .ok (view', n) ∧
        ∀ n' ≤ b.len, ∀ d' view'', b.upTo n' = .ok d' →
          TransactionView.tryNewSanitized host d' = .ok view'' → n' = n) := by
  constructor
  · intro view n h
    obtain ⟨tx, hstart, -, hvalid, hview⟩ := TransactionView.tryNewSanitizedFromPrefix_ok.mp h
    cases hview
    obtain ⟨d, hd, hup, hstart'⟩ := hstart.upTo_eq
    have hlen : (tx.encode host).length ≤ d.len := by rw [Slice.len, hd]
    have hdata : (⟨b, tx.frame host⟩ : TransactionView true).data = .ok d := by
      rw [TransactionView.data, hstart.dataLen_eq]
      exact hup
    have hdata' : (⟨d, tx.frame host⟩ : TransactionView true).data = .ok d := by
      obtain ⟨s, hs⟩ := hstart'.shows true
      rw [hs.data, Slice.ext (hs.bytes.trans hd.symm)]
    exact ⟨hstart.encoded.length_le, d, _, hup, hdata, TransactionView.tryNewSanitized_ok.mpr
      ⟨tx, hstart', hvalid.lookupsFit hlen, hd, hvalid, rfl⟩, rfl, hdata'.trans hdata.symm,
      TransactionView.accessors_eq (hdata'.trans hdata.symm) rfl⟩
  · intro n _ d view hup h
    have hfound := sanitizedFromPrefix_of_sanitized hup h
    refine ⟨_, hfound, ?_⟩
    intro n' _ d' view'' hup' h'
    have hfound' := sanitizedFromPrefix_of_sanitized hup' h'
    have heq := Except.ok.inj (hfound'.symm.trans hfound)
    exact congrArg Prod.snd heq

theorem sampleStream_sanitized : ∃ view, TransactionView.tryNewSanitizedFromPrefix .little
    sampleStream = .ok (view, sampleBytes.len) := by
  have hlen : (sampleTransaction.encode .little).length ≤ sampleBytes.len := le_refl _
  have h := TransactionView.tryNewSanitized_ok.mpr ⟨sampleTransaction, sample_startsWith,
    sample_valid.lookupsFit hlen, rfl, sample_valid, rfl⟩
  have hle : sampleBytes.len ≤ sampleStream.len := by decide +kernel
  have hup : sampleStream.upTo sampleBytes.len = .ok sampleBytes := by
    obtain ⟨s, hs, hup⟩ := Slice.upTo_eq (b := sampleStream) rfl
      (List.prefix_append sampleBytes.bytes sampleV1Bytes.bytes)
    rw [Slice.ext hs] at hup
    exact hup
  obtain ⟨view, hview, -⟩ :=
    (sanitizedFromPrefix_eq_sanitized .little sampleStream).2 _ hle _ _ hup h
  exact ⟨view, hview⟩

end AgaveSdk.TxView
