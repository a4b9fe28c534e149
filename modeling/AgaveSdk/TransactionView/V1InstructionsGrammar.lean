import AgaveSdk.TransactionView.InstructionsGrammar
import Mathlib.Algebra.BigOperators.Group.List.Basic

/-! The wire form of v1 instructions, with all headers in front of all payloads. -/
namespace AgaveSdk.TxView
open FallibleState Segments ByteOrder Draining

variable {b : Slice} {c c' : Cursor} {host : Endian}

/-- The size of the payload that a v1 header announces. -/
def V1InstructionHeader.payloadLen (header : V1InstructionHeader) : ℕ :=
  header.numAccounts.toNat + header.dataLen.toNat

def V1InstructionHeader.encode (header : V1InstructionHeader) : List UInt8 :=
  [header.programIdIndex, header.numAccounts] ++ leBytes 2 header.dataLen.toNat

namespace SVMInstruction

def v1Header (ix : SVMInstruction) : V1InstructionHeader :=
  ⟨ix.programIdIndex, UInt8.ofNat ix.accounts.length, UInt16.ofNat ix.data.length⟩

def v1Payload (ix : SVMInstruction) : List UInt8 := ix.accounts ++ ix.data

/-- Both counts fit their fields of a v1 header. -/
def FitsV1 (ix : SVMInstruction) : Prop := ix.accounts.length < 256 ∧ ix.data.length < 65536

instance (ix : SVMInstruction) : Decidable ix.FitsV1 := inferInstanceAs (Decidable (_ ∧ _))

theorem FitsV1.payloadLen_eq {ix : SVMInstruction} (h : ix.FitsV1) :
    ix.v1Header.payloadLen = ix.v1Payload.length := by
  have ha : (UInt8.ofNat ix.accounts.length).toNat = ix.accounts.length :=
    UInt8.toNat_ofNat_of_lt h.1
  have hd : (UInt16.ofNat ix.data.length).toNat = ix.data.length := UInt16.toNat_ofNat_of_lt h.2
  simp only [v1Header, V1InstructionHeader.payloadLen, v1Payload, List.length_append, ha, hd]

end SVMInstruction

@[simp] theorem V1InstructionHeader.encode_length (header : V1InstructionHeader) :
    header.encode.length = 4 := by simp [encode]

theorem v1Headers_length (hs : List V1InstructionHeader) :
    (hs.flatMap V1InstructionHeader.encode).length = 4 * hs.length := by
  induction hs with
  | nil => rfl
  | cons h hs ih =>
    rw [List.flatMap_cons, List.length_append, ih, h.encode_length, List.length_cons]
    omega

/-- Four loaded bytes and the header they spell, on every host. -/
theorem V1InstructionHeader.encode_eq_iff {header : V1InstructionHeader} {x y z w : UInt8} :
    header.encode = [x, y, z, w] ↔
      header = ⟨x, y, UInt16.ofNat (fromLe host 2 (load host [z, w]))⟩ := by
  obtain ⟨p, n, len⟩ := header
  have hload : fromLe host 2 (load host [z, w]) = leNat [z, w] := fromLe_load host [z, w]
  have hlt : leNat [z, w] < 2 ^ 16 := by simpa using leNat_lt [z, w]
  have hlen := len.toNat_lt
  simp only [encode, List.cons_append, List.nil_append, List.cons.injEq,
    V1InstructionHeader.mk.injEq, hload]
  refine and_congr_right fun _ => and_congr_right fun _ => ?_
  constructor
  · intro h
    rw [← h, leNat_leBytes hlen, UInt16.ofNat_toNat]
  · rintro rfl
    have hn : (UInt16.ofNat (leNat [z, w])).toNat = leNat [z, w] := by
      rw [UInt16.toNat_ofNat', Nat.mod_eq_of_lt hlt]
    rw [hn]
    exact leBytes_leNat [z, w]

theorem InstructionsFrame.returns_readV1Header {header : V1InstructionHeader}
    (hc : c.offset ≤ b.len) : Returns (readV1Header host b) c header c' ↔
      At b.bytes c.offset header.encode ∧ c' = c.moveTo (c.offset + 4) := by
  rw [readV1Header, returns_get_bind]
  simp only [returns_bind, returns_ofOutcome, returns_modify, returns_pure]
  constructor
  · rintro ⟨region, _, ⟨hr, rfl⟩, _, _, rfl, rfl, rfl⟩
    obtain ⟨hin, hlen, hat⟩ := rawRegion_sound hr
    obtain ⟨x, y, z, w, rfl⟩ := List.length_eq_four.mp hlen
    refine ⟨?_, by rw [wrappingAdd_eq hin]⟩
    have he : V1InstructionHeader.encode
        ⟨x, y, UInt16.ofNat (fromLe host 2 (load host [z, w]))⟩ = [x, y, z, w] :=
      V1InstructionHeader.encode_eq_iff.mpr rfl
    exact he.symm ▸ hat
  · rintro ⟨hat, rfl⟩
    obtain ⟨x, y, z, w, he⟩ := List.length_eq_four.mp header.encode_length
    have hr := rawRegion_eq hc hat
    have hin := Slice.inside_of_at hat hc
    rw [header.encode_length] at hr hin
    refine ⟨_, _, ⟨hr, rfl⟩, (), _, rfl, ?_, by rw [wrappingAdd_eq hin]⟩
    rw [he]
    exact (V1InstructionHeader.encode_eq_iff.mp he).symm

theorem returns_checkedAdd {x y v : ℕ} :
    Returns (checkedAdd x y) c v c' ↔ x + y < usizeRange ∧ v = x + y ∧ c' = c := by
  simp only [checkedAdd, returns_bind, returns_rejectIf, returns_pure, not_le]
  aesop

theorem InstructionsFrame.totalPayloadLen_sound {n total t : ℕ} (hc : c.offset ≤ b.len)
    (h : Returns (totalPayloadLen host b n total) c t c') :
    ∃ hs : List V1InstructionHeader, hs.length = n ∧
      At b.bytes c.offset (hs.flatMap V1InstructionHeader.encode) ∧
      t = total + (hs.map V1InstructionHeader.payloadLen).sum := by
  induction n generalizing c total with
  | zero =>
    obtain ⟨rfl, rfl⟩ := returns_pure.mp h
    exact ⟨[], rfl, at_nil .., rfl⟩
  | succ n ih =>
    simp only [totalPayloadLen, returns_bind, returns_readV1Header hc, returns_checkedAdd] at h
    obtain ⟨header, _, ⟨hat, rfl⟩, _, _, ⟨-, rfl, rfl⟩, _, _, ⟨-, rfl, rfl⟩, hr⟩ := h
    have hin := Slice.inside_of_at hat hc
    rw [header.encode_length] at hin
    obtain ⟨hs, hlen, hats, rfl⟩ := ih hin hr
    refine ⟨header :: hs, by rw [List.length_cons, hlen], ?_, ?_⟩
    · rw [List.flatMap_cons, at_append, header.encode_length]
      exact ⟨hat, hats⟩
    · rw [List.map_cons, List.sum_cons, Nat.add_assoc]
      rfl

theorem V1InstructionHeader.payloadLen_lt (header : V1InstructionHeader) :
    header.payloadLen < 65792 := by
  have ha := header.numAccounts.toNat_lt
  have hd := header.dataLen.toNat_lt
  unfold payloadLen
  omega

theorem InstructionsFrame.totalPayloadLen_complete (host : Endian)
    (hs : List V1InstructionHeader) (total : ℕ) (hsmall : total + hs.length * 65792 < usizeRange)
    (hc : c.offset ≤ b.len)
    (h : At b.bytes c.offset (hs.flatMap V1InstructionHeader.encode)) :
    ∃ c', Returns (totalPayloadLen host b hs.length total) c
      (total + (hs.map V1InstructionHeader.payloadLen).sum) c' := by
  induction hs generalizing c total with
  | nil => exact ⟨c, returns_pure.mpr ⟨rfl, rfl⟩⟩
  | cons header hs ih =>
    rw [List.flatMap_cons, at_append, header.encode_length] at h
    have hin := Slice.inside_of_at h.1 hc
    rw [header.encode_length] at hin
    have hlt := header.payloadLen_lt
    rw [List.length_cons] at hsmall
    obtain ⟨c', hr⟩ := ih (total + header.payloadLen) (c := c.moveTo (c.offset + 4)) (by omega)
      hin h.2
    refine ⟨c', ?_⟩
    simp only [List.length_cons, totalPayloadLen, returns_bind, returns_readV1Header hc,
      returns_checkedAdd]
    refine ⟨header, _, ⟨h.1, rfl⟩, _, _, ⟨?_, rfl, rfl⟩, _, _, ⟨?_, rfl, rfl⟩, ?_⟩
    · change header.payloadLen < usizeRange
      omega
    · change total + header.payloadLen < usizeRange
      omega
    · rw [Nat.add_assoc] at hr
      exact hr

/-- A payload region of the announced size holds one payload for each header. -/
theorem exists_v1Instructions {hs : List V1InstructionHeader} {x : List UInt8}
    (hx : x.length = (hs.map V1InstructionHeader.payloadLen).sum) :
    ∃ ixs : List SVMInstruction, ixs.map SVMInstruction.v1Header = hs ∧
      (∀ ix ∈ ixs, ix.FitsV1) ∧ ixs.flatMap SVMInstruction.v1Payload = x := by
  induction hs generalizing x with
  | nil => exact ⟨[], rfl, by simp, by simpa [eq_comm] using hx⟩
  | cons header hs ih =>
    rw [List.map_cons, List.sum_cons] at hx
    obtain ⟨ixs, rfl, hfit, hrest⟩ := ih (x := x.drop header.payloadLen) (by
      rw [List.length_drop]; omega)
    have hlen : (x.take header.payloadLen).length =
        header.numAccounts.toNat + header.dataLen.toNat := by
      rw [List.length_take]
      unfold V1InstructionHeader.payloadLen at *
      omega
    generalize hp : x.take header.payloadLen = payload at hlen
    have ha : (payload.take header.numAccounts.toNat).length = header.numAccounts.toNat := by
      rw [List.length_take]; omega
    have hd : (payload.drop header.numAccounts.toNat).length = header.dataLen.toNat := by
      rw [List.length_drop]; omega
    refine ⟨⟨header.programIdIndex, payload.take header.numAccounts.toNat,
      payload.drop header.numAccounts.toNat⟩ :: ixs, ?_, ?_, ?_⟩
    · rw [List.map_cons, SVMInstruction.v1Header, ha, hd, UInt8.ofNat_toNat, UInt16.ofNat_toNat]
    · intro ix hix
      rcases List.mem_cons.mp hix with rfl | hix
      · exact ⟨ha.trans_lt header.numAccounts.toNat_lt, hd.trans_lt header.dataLen.toNat_lt⟩
      · exact hfit ix hix
    · rw [List.flatMap_cons, hrest, SVMInstruction.v1Payload, List.take_append_drop, ← hp,
        List.take_append_drop]

/-- The instructions of a v1 message: all headers, then all payloads. -/
def encodeV1Instructions (ixs : List SVMInstruction) : List UInt8 :=
  (ixs.map SVMInstruction.v1Header).flatMap V1InstructionHeader.encode ++
    ixs.flatMap SVMInstruction.v1Payload

theorem encodeV1Instructions_length (ixs : List SVMInstruction) :
    (encodeV1Instructions ixs).length =
      4 * ixs.length + (ixs.flatMap SVMInstruction.v1Payload).length := by
  rw [encodeV1Instructions, List.length_append, v1Headers_length, List.length_map]

theorem sum_payloadLen {ixs : List SVMInstruction} (h : ∀ ix ∈ ixs, ix.FitsV1) :
    ((ixs.map SVMInstruction.v1Header).map V1InstructionHeader.payloadLen).sum =
      (ixs.flatMap SVMInstruction.v1Payload).length := by
  induction ixs with
  | nil => rfl
  | cons ix ixs ih =>
    rw [List.map_cons, List.map_cons, List.sum_cons, ih fun y hy => h y (by simp [hy]),
      (h ix (by simp)).payloadLen_eq, List.flatMap_cons, List.length_append]

namespace InstructionsFrame

def ofV1Instructions (ixs : List SVMInstruction) (offset : ℕ) : InstructionsFrame :=
  .v1 (UInt16.ofNat ixs.length) (UInt16.ofNat offset) (UInt16.ofNat (offset + 4 * ixs.length))

theorem four_wrappingMul (n : UInt8) : wrappingMul 4 n.toNat = 4 * n.toNat := by
  have hn := n.toNat_lt
  unfold wrappingMul usizeRange
  omega

/-- The cursor after `n` headers. -/
def v1HeadersEnd (c : Cursor) (n : ℕ) : Cursor :=
  (((c.noteStored .v1Headers c.offset).noteCheck c.offset (4 * n)).moveTo
    (c.offset + 4 * n)).noteStored .v1Payloads (c.offset + 4 * n)

/-- The cursor after `n` headers and `total` bytes of payloads. -/
def v1End (c : Cursor) (n total : ℕ) : Cursor :=
  ((v1HeadersEnd c n).noteCheck (c.offset + 4 * n) total).moveTo (c.offset + 4 * n + total)

theorem moves_v1End {n total : ℕ} (h : c.offset + 4 * n + total ≤ b.len) :
    Moves b c (v1End c n total) (4 * n + total)
      [(.v1Headers, c.offset), (.v1Payloads, c.offset + 4 * n)] := by
  have hc : c.offset ≤ b.len := by omega
  have hn : c.offset + 4 * n ≤ b.len := by omega
  have h₁ := (Moves.noteStored hc .v1Headers c.offset).trans
    (Moves.skip (c := c.noteStored .v1Headers c.offset) hc hn)
  have h₂ := (h₁.trans (Moves.noteStored h₁.inside .v1Payloads (c.offset + 4 * n))).trans
    (Moves.skip hn h)
  exact h₂.congr (by omega) rfl

theorem returns_tryNewForV1 {n : UInt8} {f : InstructionsFrame} (hc : c.offset ≤ b.len) :
    Returns (tryNewForV1 host b n) c f c' ↔ ∃ total c₁,
      Returns (totalPayloadLen host b n.toNat 0) { offset := c.offset } total c₁ ∧
      c.offset + 4 * n.toNat + total ≤ b.len ∧
      f = .v1 n.toUInt16 (UInt16.ofNat c.offset) (UInt16.ofNat (c.offset + 4 * n.toNat)) ∧
      c' = v1End c n.toNat total := by
  simp only [tryNewForV1, returns_bind, returns_get, returns_offsetAsU16, returns_modify,
    returns_ofOutcome, returns_pure, four_wrappingMul]
  constructor
  · rintro ⟨_, _, ⟨rfl, rfl⟩, _, _, ⟨rfl, rfl⟩, _, _, ⟨rfl, rfl⟩, _, c₁, h₁, _, _, ⟨rfl, rfl⟩,
      _, _, rfl, _, _, ⟨rfl, rfl⟩, _, _, ⟨rfl, rfl⟩, total, _, ⟨h₂, rfl⟩, _, _, ⟨rfl, rfl⟩,
      _, c₃, h₃, _, _, rfl, rfl, rfl⟩
    obtain ⟨hn, rfl⟩ := (returns_checkRemaining (c := c.noteStored .v1Headers c.offset) hc).mp h₁
    rw [Cursor.noteStored_offset] at hn
    simp only [Cursor.noteStored_offset, Cursor.noteCheck_offset, Cursor.moveTo_offset,
      wrappingAdd_eq hn] at h₂ h₃ ⊢
    obtain ⟨hend, rfl⟩ := (returns_checkRemaining (c := v1HeadersEnd c n.toNat) hn).mp h₃
    have hw : wrappingAdd (c.offset + 4 * n.toNat) total = c.offset + 4 * n.toNat + total :=
      wrappingAdd_eq hend
    refine ⟨total, _, returns_of_value h₂, hend, trivial, ?_⟩
    rw [v1End, ← hw]
    rfl
  · rintro ⟨total, c₁, h₁, hend, rfl, rfl⟩
    have hn : c.offset + 4 * n.toNat ≤ b.len := by omega
    refine ⟨_, _, ⟨rfl, rfl⟩, _, _, ⟨rfl, rfl⟩, _, _, ⟨rfl, rfl⟩, (), _,
      (returns_checkRemaining (c := c.noteStored .v1Headers c.offset) hc).mpr ⟨hn, rfl⟩, _, _,
      ⟨rfl, rfl⟩, (), _, rfl, _, _, ⟨rfl, rfl⟩, _, _, ⟨rfl, rfl⟩, total, _, ⟨h₁.value, rfl⟩, _, _,
      ⟨rfl, rfl⟩, ?_⟩
    simp only [Cursor.noteStored_offset, Cursor.noteCheck_offset, Cursor.moveTo_offset,
      wrappingAdd_eq hn]
    have hw : wrappingAdd (c.offset + 4 * n.toNat) total = c.offset + 4 * n.toNat + total :=
      wrappingAdd_eq hend
    refine ⟨(), _, (returns_checkRemaining (c := v1HeadersEnd c n.toNat) hn).mpr ⟨hend, rfl⟩,
      (), _, rfl, trivial, ?_⟩
    rw [v1End, ← hw]
    rfl

theorem tryNewForV1_sound {n : UInt8} {f : InstructionsFrame} (hc : c.offset ≤ b.len)
    (h : Returns (tryNewForV1 host b n) c f c') :
    ∃ ixs : List SVMInstruction, ixs.length = n.toNat ∧ (∀ ix ∈ ixs, ix.FitsV1) ∧
      At b.bytes c.offset (encodeV1Instructions ixs) ∧ f = ofV1Instructions ixs c.offset ∧
      Moves b c c' (encodeV1Instructions ixs).length
        [(.v1Headers, c.offset), (.v1Payloads, c.offset + 4 * ixs.length)] := by
  obtain ⟨total, c₁, hr, hend, rfl, rfl⟩ := (returns_tryNewForV1 hc).mp h
  obtain ⟨hs, hlen, hat, rfl⟩ := totalPayloadLen_sound (c := { offset := c.offset }) hc hr
  rw [Nat.zero_add] at hend ⊢
  have hle : c.offset + 4 * n.toNat ≤ b.bytes.length := by
    unfold Slice.len at hend
    omega
  obtain ⟨x, hx, hatx⟩ := (exists_at_iff hle).mpr hend
  obtain ⟨ixs, rfl, hfit, rfl⟩ := exists_v1Instructions hx
  rw [List.length_map] at hlen
  refine ⟨ixs, hlen, hfit, ?_, ?_, ?_⟩
  · rw [encodeV1Instructions, at_append, v1Headers_length, List.length_map, hlen]
    exact ⟨hat, hatx⟩
  · rw [ofV1Instructions, hlen]
    congr 1
    simp
  · rw [encodeV1Instructions_length, hlen, ← hx]
    exact moves_v1End (by rw [hx]; exact hend)

theorem tryNewForV1_complete {n : UInt8} {ixs : List SVMInstruction} (hn : ixs.length = n.toNat)
    (hfit : ∀ ix ∈ ixs, ix.FitsV1) (hc : c.offset ≤ b.len)
    (h : At b.bytes c.offset (encodeV1Instructions ixs)) :
    ∃ c', Returns (tryNewForV1 host b n) c (ofV1Instructions ixs c.offset) c' ∧
      c'.offset = c.offset + (encodeV1Instructions ixs).length := by
  have hin := Slice.inside_of_at h hc
  rw [encodeV1Instructions_length] at hin ⊢
  have hlt := n.toNat_lt
  obtain ⟨c₁, hr⟩ := totalPayloadLen_complete host (ixs.map SVMInstruction.v1Header) 0
    (c := { offset := c.offset })
    (by rw [List.length_map]; unfold usizeRange; omega) hc (at_append.mp h).1
  rw [Nat.zero_add, sum_payloadLen hfit, List.length_map, hn] at hr
  refine ⟨v1End c n.toNat (ixs.flatMap SVMInstruction.v1Payload).length, ?_, ?_⟩
  · refine (returns_tryNewForV1 hc).mpr ⟨_, c₁, hr, by omega, ?_, rfl⟩
    rw [ofV1Instructions, hn]
    congr 1
    simp
  · rw [hn, ← Nat.add_assoc]
    rfl

theorem safe_checkedAdd (x y : ℕ) : Safe (checkedAdd x y) c :=
  (safe_rejectIf _ _).bind fun _ _ _ => safe_pure _ _

theorem safe_readV1Header (h : c.offset + 4 ≤ b.len) : Safe (readV1Header host b) c := by
  refine (safe_get c).bind fun s s' hs => ?_
  obtain ⟨rfl, rfl⟩ := returns_get.mp hs
  refine (safe_ofOutcome ?_ _).bind fun _ _ _ => (safe_modify _ _).bind fun _ _ _ => safe_pure _ _
  rw [rawRegion, if_pos h]
  exact noFault_ok _

theorem safe_totalPayloadLen {n : ℕ} (total : ℕ) (h : c.offset + 4 * n ≤ b.len) :
    Safe (totalPayloadLen host b n total) c := by
  induction n generalizing c total with
  | zero => exact safe_pure _ _
  | succ n ih =>
    refine (safe_readV1Header (by omega)).bind fun header s hs => ?_
    obtain ⟨-, rfl⟩ := (returns_readV1Header (by omega)).mp hs
    refine (safe_checkedAdd _ _).bind fun _ s hs => ?_
    obtain ⟨-, -, rfl⟩ := returns_checkedAdd.mp hs
    refine (safe_checkedAdd _ _).bind fun _ s hs => ?_
    obtain ⟨-, -, rfl⟩ := returns_checkedAdd.mp hs
    exact ih _ (by rw [Cursor.moveTo_offset]; omega)

theorem safe_tryNewForV1 {n : UInt8} (hc : c.offset ≤ b.len) : Safe (tryNewForV1 host b n) c := by
  refine (safe_get _).bind fun _ s hs => ?_
  obtain ⟨rfl, rfl⟩ := returns_get.mp hs
  refine (safe_offsetAsU16 _ _).bind fun _ s hs => ?_
  obtain ⟨-, rfl⟩ := returns_offsetAsU16.mp hs
  refine (safe_get _).bind fun _ s hs => ?_
  obtain ⟨rfl, rfl⟩ := returns_get.mp hs
  refine (safe_checkRemaining _ _).bind fun _ s hs => ?_
  obtain ⟨hn, rfl⟩ := (returns_checkRemaining (c := c.noteStored .v1Headers c.offset) hc).mp hs
  refine (safe_get _).bind fun _ s hs => ?_
  obtain ⟨rfl, rfl⟩ := returns_get.mp hs
  refine (safe_modify _ _).bind fun _ _ _ => (safe_get _).bind fun _ _ _ =>
    (safe_offsetAsU16 _ _).bind fun _ _ _ => Safe.bind ?_ fun _ _ _ =>
      (safe_get _).bind fun _ _ _ => (safe_checkRemaining _ _).bind fun _ _ _ =>
        (safe_modify _ _).bind fun _ _ _ => safe_pure _ _
  apply safe_ofOutcome
  apply safe_totalPayloadLen 0
  rwa [four_wrappingMul] at hn

end InstructionsFrame

theorem forV1_complete {ix : SVMInstruction} (hfit : ix.FitsV1) (hc : c.offset ≤ b.len)
    (h : At b.bytes c.offset ix.v1Payload) :
    ∃ c', Returns (forV1 b ix.v1Header.programIdIndex ix.v1Header.numAccounts.toUInt16
      ix.v1Header.dataLen) c ix c' ∧ c'.offset = c.offset + ix.v1Payload.length := by
  obtain ⟨hat₁, hat₂⟩ := at_append.mp h
  have ha : ix.accounts.length = ix.v1Header.numAccounts.toUInt16.toNat := by
    rw [UInt8.toNat_toUInt16]
    exact (UInt8.toNat_ofNat_of_lt hfit.1).symm
  have hd : ix.data.length = ix.v1Header.dataLen.toNat := (UInt16.toNat_ofNat_of_lt hfit.2).symm
  have h₁ := uncheckedReadSliceData_complete hc ha hat₁
  have h₂ := uncheckedReadSliceData_complete (c := c.moveTo (c.offset + ix.accounts.length))
    (Slice.inside_of_at hat₁ hc) hd hat₂
  refine ⟨c.moveTo (c.offset + ix.accounts.length + ix.data.length), ?_, ?_⟩
  · simp only [forV1, returns_bind, returns_pure]
    exact ⟨_, _, h₁, _, _, h₂, rfl, rfl⟩
  · rw [SVMInstruction.v1Payload, List.length_append, ← Nat.add_assoc]
    rfl

theorem InstructionsIterator.drains_v1 (i : ℕ) {ixs : List SVMInstruction} {o p : ℕ}
    (hlt : i + ixs.length < 65536) (hfit : ∀ ix ∈ ixs, ix.FitsV1) (ho : o ≤ b.len) (hp : p ≤ b.len)
    (hh : At b.bytes o ((ixs.map SVMInstruction.v1Header).flatMap V1InstructionHeader.encode))
    (hx : At b.bytes p (ixs.flatMap SVMInstruction.v1Payload)) :
    Drains (next host) (.v1 b (UInt16.ofNat i) (UInt16.ofNat (i + ixs.length)) o p) ixs := by
  induction ixs generalizing i o p with
  | nil => exact .done (by simp [next, pure, Except.pure]; rfl)
  | cons ix ixs ih =>
    rw [List.map_cons, List.flatMap_cons, at_append] at hh
    rw [List.flatMap_cons, at_append] at hx
    have hio := Slice.inside_of_at hh.1 ho
    have hip := Slice.inside_of_at hx.1 hp
    have hr₁ : Returns (InstructionsFrame.readV1Header host b) { offset := o } ix.v1Header
        { offset := o + 4 } := (InstructionsFrame.returns_readV1Header ho).mpr ⟨hh.1, rfl⟩
    obtain ⟨c', hr₂, hc'⟩ := forV1_complete (c := { offset := p }) (hfit ix (by simp)) hp hx.1
    rw [V1InstructionHeader.encode_length] at hh hio
    rw [List.length_cons] at hlt ⊢
    have hcount : i + 1 + ixs.length = i + (ixs.length + 1) := by omega
    have htail := ih (i + 1) (by omega) (fun y hy => hfit y (by simp [hy])) hio hip hh.2 hx.2
    rw [hcount, UInt16.ofNat_add i 1] at htail
    refine .more ?_ htail
    have hlive := not_ofNat_ge (show i < i + (ixs.length + 1) by omega) hlt
    simp only [next, if_neg hlive, hr₁.value, hr₁.state, bind, Except.bind, hr₂.value, hr₂.state,
      hc']
    rfl

/-- Decoding the v1 instructions gives what was encoded. -/
theorem InstructionsFrame.drains_ofV1Instructions {ixs : List SVMInstruction} {o : ℕ}
    (hlt : ixs.length < 256) (hfit : ∀ ix ∈ ixs, ix.FitsV1) (hb : o ≤ b.len)
    (hend : o + (encodeV1Instructions ixs).length < 65536)
    (h : At b.bytes o (encodeV1Instructions ixs)) :
    Drains (InstructionsIterator.next host) ((ofV1Instructions ixs o).iter b) ixs := by
  obtain ⟨hat₁, hat₂⟩ := at_append.mp h
  rw [encodeV1Instructions_length] at hend
  have hin := Slice.inside_of_at hat₁ hb
  rw [v1Headers_length, List.length_map] at hat₂ hin
  have ho : (UInt16.ofNat o).toNat = o := UInt16.toNat_ofNat_of_lt (by change _ < 65536; omega)
  have hp : (UInt16.ofNat (o + 4 * ixs.length)).toNat = o + 4 * ixs.length :=
    UInt16.toNat_ofNat_of_lt (by change _ < 65536; omega)
  have hd : Drains (InstructionsIterator.next host) (.v1 b 0 (UInt16.ofNat (0 + ixs.length)) o
      (o + 4 * ixs.length)) ixs :=
    InstructionsIterator.drains_v1 0 (by omega) hfit hb hin hat₁ hat₂
  rw [Nat.zero_add] at hd
  rw [ofV1Instructions, iter, ho, hp]
  exact hd

end AgaveSdk.TxView
