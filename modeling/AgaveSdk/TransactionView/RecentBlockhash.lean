import AgaveSdk.TransactionView.SanitizedGrammar

/-! Replacing the recent blockhash of a transaction in place. The frame is kept, so the bytes that
are written must not matter to any other reader. -/
namespace AgaveSdk.TxView
open FallibleState Segments ByteOrder

variable {sanitized : Bool} {host : Endian} {b : Slice} {m : Message} {tx : Transaction} {h : Hash}
  {o len : ℕ}

/-- Copies into the range of the same length at an offset, which panics past the end. -/
def Slice.copyFromSlice (s : Slice) (offset : ℕ) (x : List UInt8) :
    Outcome TransactionViewError Slice :=
  if hfit : offset + x.length ≤ s.bytes.length then
    .ok ⟨overwrite s.bytes offset x, (overwrite_length hfit).trans_le s.length_le⟩
  else .error (.fault .panic)

/-- Replaces the recent blockhash. The signatures are not renewed. -/
def TransactionView.setRecentBlockhash (view : TransactionView sanitized) (recentBlockhash : Hash) :
    Outcome TransactionViewError (TransactionView sanitized) := do
  let offset := view.frame.message.recentBlockhashOffset.toNat
  return ⟨← view.innerData.copyFromSlice offset recentBlockhash.toList, view.frame⟩

namespace Message

def withBlockhash (m : Message) (h : Hash) : Message := { m with recentBlockhash := h }

@[simp] theorem withBlockhash_version (m : Message) (h : Hash) :
    (m.withBlockhash h).version = m.version := rfl

/-- The bytes of a message in front of its blockhash. -/
def beforeBlockhash (host : Endian) (m : Message) : List UInt8 :=
  if m.version = .v1 then ([v1Prefix] ++ m.header.encode) ++ hostBytes host 4 m.config.mask.toNat
  else m.headerBytes ++ m.countedKeyBytes

/-- The bytes of a message behind its blockhash. -/
def afterBlockhash (m : Message) : List UInt8 :=
  if m.version = .v1 then
    ([UInt8.ofNat m.instructions.length] ++ [UInt8.ofNat m.staticAccountKeys.length]) ++
      (m.keyBytes ++ (m.config.words.flatMap Vector.toList ++ encodeV1Instructions m.instructions))
  else encodeInstructions m.instructions ++ lookupBytes m.lookups m.version

theorem encode_split (host : Endian) (m : Message) : m.encode host =
    m.beforeBlockhash host ++ (m.recentBlockhash.toList ++ m.afterBlockhash) := by
  by_cases hv : m.version = .v1
  · rw [encode, beforeBlockhash, afterBlockhash, if_pos hv, if_pos hv, if_pos hv, encodeV1,
      v1FrontBytes, encodeV1Front]
    simp only [List.append_assoc]
  · rw [encode, beforeBlockhash, afterBlockhash, if_neg hv, if_neg hv, if_neg hv,
      encodeLegacyOrV0]
    simp only [List.append_assoc]

theorem encode_withBlockhash (host : Endian) (m : Message) (h : Hash) :
    (m.withBlockhash h).encode host =
      m.beforeBlockhash host ++ (h.toList ++ m.afterBlockhash) := encode_split host _

theorem encode_withBlockhash_length (host : Endian) (m : Message) (h : Hash) :
    ((m.withBlockhash h).encode host).length = (m.encode host).length := by
  rw [encode_withBlockhash, encode_split, List.length_append, List.length_append,
    List.length_append, List.length_append, Vector.length_toList, Vector.length_toList]

theorem instructionsOffset_withBlockhash (m : Message) (h : Hash) (o : ℕ) :
    (m.withBlockhash h).instructionsOffset o = m.instructionsOffset o := by
  rw [instructionsOffset, instructionsOffset, Vector.length_toList, Vector.length_toList]
  rfl

theorem lookupsOffset_withBlockhash (m : Message) (h : Hash) (o : ℕ) :
    (m.withBlockhash h).lookupsOffset o = m.lookupsOffset o := by
  rw [lookupsOffset, instructionsOffset_withBlockhash]
  rfl

/-- The frame of a message does not depend on its blockhash. -/
theorem frame_withBlockhash (m : Message) (h : Hash) (o : ℕ) :
    (m.withBlockhash h).frame o = m.frame o := by
  by_cases hv : m.version = .v1
  · rw [frame, frame, withBlockhash_version, if_pos hv, if_pos hv]
    rfl
  · have hlen := encode_withBlockhash_length .little m h
    rw [encode, encode, withBlockhash_version, if_neg hv, if_neg hv] at hlen
    rw [frame, frame, withBlockhash_version, if_neg hv, if_neg hv, legacyOrV0Frame,
      legacyOrV0Frame, lookupFrame,
      lookupFrame, hlen, lookupsOffset_withBlockhash, instructionsOffset_withBlockhash]
    rfl

theorem frame_recentBlockhashOffset (host : Endian) (m : Message) (o : ℕ) :
    (m.frame o).recentBlockhashOffset = UInt16.ofNat (o + (m.beforeBlockhash host).length) := by
  by_cases hv : m.version = .v1
  · have hlen : (m.beforeBlockhash host).length = 8 := by
      rw [beforeBlockhash, if_pos hv, List.length_append, hostBytes_length]
      rfl
    rw [frame, if_pos hv, hlen]
    rfl
  · rw [frame, if_neg hv, beforeBlockhash, if_neg hv, List.length_append, ← Nat.add_assoc]
    rfl

theorem parseable_withBlockhash : (m.withBlockhash h).Parseable ↔ m.Parseable := by
  by_cases hv : m.version = .v1
  · rw [Parseable, Parseable, withBlockhash_version, if_pos hv, if_pos hv]
    exact ⟨fun hp => ⟨hp.version, hp.mask⟩, fun hp => ⟨hp.version, hp.mask⟩⟩
  · rw [Parseable, Parseable, withBlockhash_version, if_neg hv, if_neg hv]
    constructor
    · rintro ⟨h₁, h₂, h₃, h₄, h₅, h₆, h₇⟩
      exact ⟨h₁, h₂, h₃, h₄, h₅, h₆, h₇⟩
    · rintro ⟨h₁, h₂, h₃, h₄, h₅, h₆, h₇⟩
      exact ⟨h₁, h₂, h₃, h₄, h₅, h₆, h₇⟩

theorem bodyValid_withBlockhash (hb : m.BodyValid) : (m.withBlockhash h).BodyValid :=
  ⟨hb.signatures_pos, hb.readonlySigned_lt, hb.unsigned_le, hb.accounts_le, hb.programs,
    hb.accounts, hb.lookups⟩

end Message

namespace Transaction

def withBlockhash (tx : Transaction) (h : Hash) : Transaction :=
  ⟨tx.signatures, tx.message.withBlockhash h, tx.signatures_v1⟩

/-- The bytes of a transaction in front of its blockhash. -/
def beforeBlockhash (host : Endian) (tx : Transaction) : List UInt8 :=
  tx.leading ++ tx.message.beforeBlockhash host

def afterBlockhash (tx : Transaction) : List UInt8 := tx.message.afterBlockhash ++ tx.trailing

theorem encode_split (host : Endian) (tx : Transaction) : tx.encode host =
    tx.beforeBlockhash host ++ (tx.message.recentBlockhash.toList ++ tx.afterBlockhash) := by
  rw [encode, Message.encode_split, beforeBlockhash, afterBlockhash]
  simp only [List.append_assoc]

theorem encode_withBlockhash (host : Endian) (tx : Transaction) (h : Hash) :
    (tx.withBlockhash h).encode host =
      tx.beforeBlockhash host ++ (h.toList ++ tx.afterBlockhash) := encode_split host _

theorem encode_withBlockhash_length (host : Endian) (tx : Transaction) (h : Hash) :
    ((tx.withBlockhash h).encode host).length = (tx.encode host).length := by
  rw [encode_withBlockhash, encode_split, List.length_append, List.length_append,
    List.length_append, List.length_append, Vector.length_toList, Vector.length_toList]

/-- The frame of a transaction does not depend on its blockhash. -/
theorem frame_withBlockhash (host : Endian) (tx : Transaction) (h : Hash) :
    (tx.withBlockhash h).frame host = tx.frame host := by
  have hmessage : ((tx.withBlockhash h).message.encode host).length =
      (tx.message.encode host).length := Message.encode_withBlockhash_length host _ h
  have hframe : (tx.withBlockhash h).message.frame (tx.withBlockhash h).leading.length =
      tx.message.frame tx.leading.length := Message.frame_withBlockhash _ h _
  rw [frame, frame, hmessage, hframe, encode_withBlockhash_length]
  rfl

theorem Parseable.withBlockhash (hp : tx.Parseable) (h : Hash) : (tx.withBlockhash h).Parseable :=
  ⟨Message.parseable_withBlockhash.mpr hp.message, hp.signatures⟩

theorem Valid.withBlockhash (hv : tx.Valid host) (h : Hash) : (tx.withBlockhash h).Valid host where
  size hne := by
    rw [encode_withBlockhash_length]
    exact hv.size hne
  signatures := hv.signatures
  body := Message.bodyValid_withBlockhash hv.body

theorem LookupsFit.withBlockhash (hf : tx.LookupsFit len) (h : Hash) :
    (tx.withBlockhash h).LookupsFit len := by
  intro hv
  rw [show (tx.withBlockhash h).message.lookupsOffset (tx.withBlockhash h).leading.length =
    tx.message.lookupsOffset tx.leading.length from Message.lookupsOffset_withBlockhash _ h _]
  exact hf hv

end Transaction

namespace TransactionView

variable {t : List UInt8}

/-- Sets one blockhash after another. -/
def setRecentBlockhashes (view : TransactionView sanitized) (hashes : List Hash) :
    Outcome TransactionViewError (TransactionView sanitized) :=
  hashes.foldlM (fun view hash => view.setRecentBlockhash hash) view

theorem blockhashOffset_eq (hlt : (tx.encode host).length < 2 ^ 16) :
    (tx.frame host).message.recentBlockhashOffset.toNat = (tx.beforeBlockhash host).length ∧
      (tx.beforeBlockhash host).length + 32 ≤ (tx.encode host).length := by
  have hlen : (tx.encode host).length =
      (tx.beforeBlockhash host).length + (32 + tx.afterBlockhash.length) := by
    rw [tx.encode_split, List.length_append, List.length_append, Vector.length_toList]
  have hbefore : (tx.beforeBlockhash host).length =
      tx.leading.length + (tx.message.beforeBlockhash host).length := List.length_append
  refine ⟨?_, by omega⟩
  change (tx.message.frame tx.leading.length).recentBlockhashOffset.toNat = _
  rw [tx.message.frame_recentBlockhashOffset host, UInt16.toNat_ofNat', hbefore]
  exact Nat.mod_eq_of_lt (by omega)

/-- Over the encoding of a transaction, the field that is written is its blockhash. -/
theorem setRecentBlockhash_eq (sanitized : Bool) (hb : b.bytes = tx.encode host ++ t)
    (hlt : (tx.encode host).length < 2 ^ 16) (h : Hash) :
    ∃ b' : Slice, b'.bytes = (tx.withBlockhash h).encode host ++ t ∧
      (⟨b, tx.frame host⟩ : TransactionView sanitized).setRecentBlockhash h =
        .ok ⟨b', tx.frame host⟩ := by
  have hsplit : b.bytes = tx.beforeBlockhash host ++
      (tx.message.recentBlockhash.toList ++ (tx.afterBlockhash ++ t)) := by
    rw [hb, tx.encode_split]
    simp only [List.append_assoc]
  obtain ⟨hoffset, hle⟩ := blockhashOffset_eq hlt
  have hfit : (tx.frame host).message.recentBlockhashOffset.toNat + h.toList.length ≤
      b.bytes.length := by
    rw [hoffset, hb, List.length_append, Vector.length_toList]
    omega
  refine ⟨⟨overwrite b.bytes _ h.toList, (overwrite_length hfit).trans_le b.length_le⟩, ?_, ?_⟩
  · change overwrite b.bytes _ h.toList = _
    rw [hoffset, hsplit, overwrite_append _ _ (by simp), tx.encode_withBlockhash]
    simp only [List.append_assoc]
  · rw [setRecentBlockhash, Slice.copyFromSlice]
    exact congrArg (· >>= _) (dif_pos hfit)

/-- Over a sequence of hashes the last one stays. -/
theorem setRecentBlockhashes_eq (sanitized : Bool) (hb : b.bytes = tx.encode host ++ t)
    (hlt : (tx.encode host).length < 2 ^ 16) (hashes : List Hash) :
    ∃ b' : Slice, b'.bytes =
        (tx.withBlockhash (hashes.getLastD tx.message.recentBlockhash)).encode host ++ t ∧
      (⟨b, tx.frame host⟩ : TransactionView sanitized).setRecentBlockhashes hashes =
        .ok ⟨b', tx.frame host⟩ := by
  induction hashes generalizing b tx with
  | nil => exact ⟨b, hb, rfl⟩
  | cons h hashes ih =>
    obtain ⟨b₁, hb₁, hset⟩ := setRecentBlockhash_eq sanitized hb hlt h
    have hlt₁ : ((tx.withBlockhash h).encode host).length < 2 ^ 16 := by
      rw [tx.encode_withBlockhash_length]
      exact hlt
    obtain ⟨b', hb', hrest⟩ := ih hb₁ hlt₁
    rw [tx.frame_withBlockhash] at hrest
    refine ⟨b', ?_, ?_⟩
    · rw [hb', List.getLastD_cons]
      rfl
    · rw [setRecentBlockhashes, List.foldlM_cons, hset]
      exact hrest

/-- The frame is kept, the buffers differ at most in the blockhash field, and of everything the
accessors return only the blockhash changes. -/
structure BlockhashReplaced (host : Endian) (hashes : List Hash)
    (view view' : TransactionView sanitized) : Prop where
  frame : view'.frame = view.frame
  len : view'.innerData.len = view.innerData.len
  inside : view.frame.message.recentBlockhashOffset.toNat + 32 ≤ view.frame.dataLen.toNat
  unchanged : ∀ i, (i < view.frame.message.recentBlockhashOffset.toNat ∨
      view.frame.message.recentBlockhashOffset.toNat + 32 ≤ i) →
    view'.innerData.bytes[i]? = view.innerData.bytes[i]?
  signatures : ∃ signatures, view.signatures = .ok signatures ∧ view'.signatures = .ok signatures
  contents : ∃ contents, view.contents host = .ok contents ∧
    view'.contents host = .ok { contents with
      recentBlockhash := hashes.getLastD contents.recentBlockhash } ∧
    view'.setRecentBlockhash contents.recentBlockhash = .ok view

/-- What a sequence of hashes does to a view whose buffer starts with a transaction. -/
theorem blockhashReplaced (hstart : StartsWith host b tx) (hashes : List Hash) :
    ∃ b' : Slice,
      (⟨b, tx.frame host⟩ : TransactionView sanitized).setRecentBlockhashes hashes =
        .ok ⟨b', tx.frame host⟩ ∧
      BlockhashReplaced host hashes (⟨b, tx.frame host⟩ : TransactionView sanitized)
        ⟨b', tx.frame host⟩ ∧
      StartsWith host b' (tx.withBlockhash (hashes.getLastD tx.message.recentBlockhash)) ∧
      b'.len = b.len ∧
      (b.bytes = tx.encode host →
        b'.bytes =
          (tx.withBlockhash (hashes.getLastD tx.message.recentBlockhash)).encode host) := by
  obtain ⟨t, ht⟩ := hstart.encoded
  obtain ⟨b', hb', hset⟩ := setRecentBlockhashes_eq sanitized ht.symm hstart.length_lt hashes
  let tx' := tx.withBlockhash (hashes.getLastD tx.message.recentBlockhash)
  have hlen' : (tx'.encode host).length = (tx.encode host).length :=
    tx.encode_withBlockhash_length host _
  have hframe : tx'.frame host = tx.frame host := tx.frame_withBlockhash host _
  have hstart' : StartsWith host b' tx' :=
    ⟨hstart.parseable.withBlockhash _, ⟨t, hb'.symm⟩, hlen' ▸ hstart.length_lt⟩
  have hlen : b'.len = b.len := by
    rw [Slice.len, Slice.len, hb', ← ht, List.length_append, List.length_append, hlen']
  obtain ⟨hoffset, hle⟩ := blockhashOffset_eq hstart.length_lt
  obtain ⟨d, hshows⟩ := hstart.shows sanitized
  obtain ⟨d', hshows'⟩ := hstart'.shows sanitized
  rw [hframe] at hshows'
  refine ⟨b', hset, ⟨rfl, hlen, ?_, ?_, ?_, ?_⟩, hstart', hlen, ?_⟩
  · rw [hoffset, hstart.dataLen_eq]
    exact hle
  · intro i hi
    rw [hoffset] at hi
    change b'.bytes[i]? = b.bytes[i]?
    rw [hb', ← ht, tx.encode_withBlockhash, tx.encode_split]
    simp only [List.append_assoc]
    exact getElem?_append_outside _ _ (by simp) (by rwa [Vector.length_toList])
  · exact ⟨tx.signatures, hshows.signatures, hshows'.signatures⟩
  · refine ⟨_, hshows.contents_eq, hshows'.contents_eq, ?_⟩
    obtain ⟨b'', hb'', hback⟩ := setRecentBlockhash_eq sanitized hb' hstart'.length_lt
      tx.message.recentBlockhash
    have hsame : b'' = b := Slice.ext (hb''.trans ht)
    rw [hframe, hsame] at hback
    exact hback
  · intro hb
    have hnil : t = [] := List.self_eq_append_right.mp (hb ▸ ht.symm)
    rw [hb', hnil, List.append_nil]

/-- Setting hashes in a view of any constructor changes nothing but the blockhash field, and the
constructor returns the same frame for the changed buffer. -/
theorem setRecentBlockhashes_preserve (host : Endian) (b : Slice) (hashes : List Hash) :
    (∀ view, tryNewUnsanitized host b = .ok view →
      ∃ view', view.setRecentBlockhashes hashes = .ok view' ∧
        BlockhashReplaced host hashes view view' ∧
        tryNewUnsanitized host view'.innerData = .ok view') ∧
    (∀ view n, tryNewUnsanitizedFromPrefix host b = .ok (view, n) →
      ∃ view', view.setRecentBlockhashes hashes = .ok view' ∧
        BlockhashReplaced host hashes view view' ∧
        tryNewUnsanitizedFromPrefix host view'.innerData = .ok (view', n)) ∧
    (∀ view, tryNewSanitized host b = .ok view →
      ∃ view', view.setRecentBlockhashes hashes = .ok view' ∧
        BlockhashReplaced host hashes view view' ∧
        tryNewSanitized host view'.innerData = .ok view') ∧
    (∀ view n, tryNewSanitizedFromPrefix host b = .ok (view, n) →
      ∃ view', view.setRecentBlockhashes hashes = .ok view' ∧
        BlockhashReplaced host hashes view view' ∧
        tryNewSanitizedFromPrefix host view'.innerData = .ok (view', n)) := by
  refine ⟨?_, ?_, ?_, ?_⟩
  · intro view h
    obtain ⟨tx, hstart, hfit, hb, rfl⟩ := tryNewUnsanitized_ok.mp h
    obtain ⟨b', hset, hreplaced, hstart', hlen, hwhole⟩ := blockhashReplaced hstart hashes
    refine ⟨_, hset, hreplaced, tryNewUnsanitized_ok.mpr ⟨_, hstart', ?_, hwhole hb, ?_⟩⟩
    · exact hlen ▸ hfit.withBlockhash _
    · rw [tx.frame_withBlockhash]
  · intro view n h
    obtain ⟨tx, hstart, hfit, hview⟩ := tryNewUnsanitizedFromPrefix_ok.mp h
    cases hview
    obtain ⟨b', hset, hreplaced, hstart', hlen, -⟩ := blockhashReplaced hstart hashes
    refine ⟨_, hset, hreplaced, tryNewUnsanitizedFromPrefix_ok.mpr ⟨_, hstart', ?_, ?_⟩⟩
    · exact hlen ▸ hfit.withBlockhash _
    · rw [tx.frame_withBlockhash, tx.encode_withBlockhash_length]
  · intro view h
    obtain ⟨tx, hstart, hfit, hb, hvalid, rfl⟩ := tryNewSanitized_ok.mp h
    obtain ⟨b', hset, hreplaced, hstart', hlen, hwhole⟩ := blockhashReplaced hstart hashes
    refine ⟨_, hset, hreplaced, tryNewSanitized_ok.mpr
      ⟨_, hstart', ?_, hwhole hb, hvalid.withBlockhash _, ?_⟩⟩
    · exact hlen ▸ hfit.withBlockhash _
    · rw [tx.frame_withBlockhash]
  · intro view n h
    obtain ⟨tx, hstart, hfit, hvalid, hview⟩ := tryNewSanitizedFromPrefix_ok.mp h
    cases hview
    obtain ⟨b', hset, hreplaced, hstart', hlen, -⟩ := blockhashReplaced hstart hashes
    refine ⟨_, hset, hreplaced, tryNewSanitizedFromPrefix_ok.mpr
      ⟨_, hstart', ?_, hvalid.withBlockhash _, ?_⟩⟩
    · exact hlen ▸ hfit.withBlockhash _
    · rw [tx.frame_withBlockhash, tx.encode_withBlockhash_length]

theorem sample_blockhashReplaced : ∃ view view',
    tryNewSanitized .little sampleBytes = .ok view ∧
      view.setRecentBlockhashes [Vector.replicate 32 8, Vector.replicate 32 9] = .ok view' ∧
      BlockhashReplaced .little [Vector.replicate 32 8, Vector.replicate 32 9] view view' ∧
      tryNewSanitized .little view'.innerData = .ok view' := by
  have h := tryNewSanitized_ok.mpr
    ⟨_, sample_startsWith, sample_lookupsFit _, rfl, sample_valid, rfl⟩
  obtain ⟨view', hset, hreplaced, hagain⟩ := (setRecentBlockhashes_preserve .little sampleBytes
    [Vector.replicate 32 8, Vector.replicate 32 9]).2.2.1 _ h
  exact ⟨_, view', h, hset, hreplaced, hagain⟩

end TransactionView

end AgaveSdk.TxView
