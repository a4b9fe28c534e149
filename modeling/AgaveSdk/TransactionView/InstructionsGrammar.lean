import AgaveSdk.TransactionView.InstructionsFrame

/-! The wire form of legacy and v0 instructions. The parser accepts exactly the encodings and
the iterator gives the encoded instructions back. -/
namespace AgaveSdk.TxView
open FallibleState Segments ByteOrder Draining

namespace SVMInstruction

/-- The legacy and v0 form: program index, counted accounts, counted data. -/
def encode (ix : SVMInstruction) : List UInt8 :=
  [ix.programIdIndex] ++ counted ix.accounts ++ counted ix.data

/-- Both counts take at most two bytes. -/
def Compact (ix : SVMInstruction) : Prop := ix.accounts.length < 16384 ∧ ix.data.length < 16384

instance (ix : SVMInstruction) : Decidable ix.Compact := inferInstanceAs (Decidable (_ ∧ _))

/-- The lengths that the parser caches for an instruction. -/
def frame (ix : SVMInstruction) : LegacyAndV0InstructionFrame :=
  ⟨UInt16.ofNat ix.accounts.length, UInt16.ofNat ix.data.length,
    UInt8.ofNat (shortU16 ix.accounts.length).length, UInt8.ofNat (shortU16 ix.data.length).length⟩

theorem three_le_encode_length (ix : SVMInstruction) : 3 ≤ ix.encode.length := by
  have ha := shortU16_length_pos ix.accounts.length
  have hd := shortU16_length_pos ix.data.length
  simp only [encode, counted, List.length_append, List.length_singleton]
  omega

theorem three_mul_le_encode_length (ixs : List SVMInstruction) :
    3 * ixs.length ≤ (ixs.flatMap encode).length := by
  induction ixs with
  | nil => simp
  | cons ix ixs ih =>
    have h := three_le_encode_length ix
    rw [List.flatMap_cons, List.length_append, List.length_cons]
    omega

end SVMInstruction

variable {b : Slice} {c c' : Cursor} {host : Endian}

/-- The distance a compact-u16 read has moved is the length of its encoding. -/
theorem wrappingSub_shortU16 {n : ℕ} (o : ℕ) (hn : n < 16384) :
    wrappingSub (o + (shortU16 n).length) o = (shortU16 n).length := by
  have hs := shortU16_length_le hn
  unfold wrappingSub usizeRange
  omega

namespace LegacyAndV0InstructionFrame

theorem read_sound {f : LegacyAndV0InstructionFrame} (hc : c.offset ≤ b.len)
    (h : Returns (read b) c f c') :
    ∃ ix : SVMInstruction, ix.Compact ∧ At b.bytes c.offset ix.encode ∧ f = ix.frame ∧
      Moves b c c' ix.encode.length [] := by
  simp only [read, returns_bind, returns_get, returns_pure] at h
  obtain ⟨p, c₁, h₁, _, _, ⟨rfl, rfl⟩, na, c₂, h₂, _, _, ⟨rfl, rfl⟩, _, c₃, h₃, _, _, ⟨rfl, rfl⟩,
    nd, c₄, h₄, _, _, ⟨rfl, rfl⟩, _, c₅, h₅, rfl, rfl⟩ := h
  obtain ⟨hat₁, hm₁⟩ := readByte_sound hc h₁
  obtain ⟨accounts, rfl, ha, hat₂, ho₂, hm₂⟩ := counted_sound hm₁.inside h₂ h₃
  obtain ⟨data, rfl, hd, hat₃, ho₃, hm₃⟩ := counted_sound hm₂.inside h₄ h₅
  have hm := (hm₁.trans hm₂).trans hm₃
  refine ⟨⟨p, accounts, data⟩, ⟨ha, hd⟩, ?_, ?_, ?_⟩
  · rw [hm₂.offset, hm₁.offset, Nat.add_assoc] at hat₃
    rw [hm₁.offset] at hat₂
    exact at_append.mpr ⟨at_append.mpr ⟨hat₁, hat₂⟩, by rw [List.length_append]; exact hat₃⟩
  · rw [ho₂, ho₃, wrappingSub_shortU16 _ ha, wrappingSub_shortU16 _ hd]
    rfl
  · refine hm.congr ?_ rfl
    rw [SVMInstruction.encode, List.length_append, List.length_append, List.length_singleton]

theorem read_complete {ix : SVMInstruction} (hx : ix.Compact) (hc : c.offset ≤ b.len)
    (h : At b.bytes c.offset ix.encode) :
    ∃ c', Returns (read b) c ix.frame c' ∧ c'.offset = c.offset + ix.encode.length := by
  obtain ⟨p, accounts, data⟩ := ix
  obtain ⟨ha, hd⟩ := hx
  obtain ⟨hat, hat₃⟩ := at_append.mp h
  obtain ⟨hat₁, hat₂⟩ := at_append.mp hat
  rw [List.length_append, ← Nat.add_assoc] at hat₃
  have hi₁ := Slice.inside_of_at hat₁ hc
  have hi₂ := Slice.inside_of_at hat₂ hi₁
  obtain ⟨c₁, h₁, ho₁⟩ := readByte_complete hat₁
  obtain ⟨c₂, c₃, h₂, ho₂, h₃, ho₃⟩ := counted_complete (c := c₁) ha (ho₁ ▸ hi₁) (ho₁ ▸ hat₂)
  rw [ho₁] at ho₃
  obtain ⟨c₄, c₅, h₄, ho₄, h₅, ho₅⟩ := counted_complete (c := c₃) hd (ho₃ ▸ hi₂) (ho₃ ▸ hat₃)
  refine ⟨c₅, ?_, ?_⟩
  · simp only [read, returns_bind, returns_get, returns_pure]
    refine ⟨p, c₁, h₁, _, _, ⟨rfl, rfl⟩, _, c₂, h₂, _, _, ⟨rfl, rfl⟩, (), c₃, h₃, _, _, ⟨rfl, rfl⟩,
      _, c₄, h₄, _, _, ⟨rfl, rfl⟩, (), c₅, h₅, ?_, rfl⟩
    rw [ho₂, ho₄, wrappingSub_shortU16 _ ha, wrappingSub_shortU16 _ hd]
    rfl
  · rw [ho₅, ho₃, SVMInstruction.encode, List.length_append, List.length_append,
      List.length_singleton]
    omega

theorem safe_read : Safe (read b) c :=
  safe_readByte.bind fun _ _ _ => (safe_get _).bind fun _ _ _ =>
    safe_optimizedReadCompressedU16.bind fun _ _ _ => (safe_get _).bind fun _ _ _ =>
      (safe_advanceOffsetForArray _ _).bind fun _ _ _ => (safe_get _).bind fun _ _ _ =>
        safe_optimizedReadCompressedU16.bind fun _ _ _ => (safe_get _).bind fun _ _ _ =>
          (safe_advanceOffsetForArray _ _).bind fun _ _ _ => safe_pure _ _

theorem readMany_sound {n : ℕ} {fs : List LegacyAndV0InstructionFrame} (hc : c.offset ≤ b.len)
    (h : Returns (readMany b n) c fs c') :
    ∃ ixs : List SVMInstruction, ixs.length = n ∧ (∀ ix ∈ ixs, ix.Compact) ∧
      At b.bytes c.offset (ixs.flatMap SVMInstruction.encode) ∧
      fs = ixs.map SVMInstruction.frame ∧
      Moves b c c' (ixs.flatMap SVMInstruction.encode).length [] := by
  induction n generalizing c fs with
  | zero =>
    obtain ⟨rfl, rfl⟩ := returns_pure.mp h
    exact ⟨[], rfl, by simp, at_nil .., rfl, Moves.refl hc⟩
  | succ n ih =>
    simp only [readMany, returns_bind, returns_pure] at h
    obtain ⟨f, c₁, h₁, gs, c₂, h₂, rfl, rfl⟩ := h
    obtain ⟨ix, hx, hat₁, rfl, hm₁⟩ := read_sound hc h₁
    obtain ⟨ixs, hlen, hxs, hat₂, rfl, hm₂⟩ := ih hm₁.inside h₂
    refine ⟨ix :: ixs, by rw [List.length_cons, hlen], by simpa using ⟨hx, hxs⟩, ?_, rfl, ?_⟩
    · rw [List.flatMap_cons, at_append, ← hm₁.offset]
      exact ⟨hat₁, hat₂⟩
    · rw [List.flatMap_cons, List.length_append]
      exact hm₁.trans hm₂

theorem readMany_complete {ixs : List SVMInstruction} {n : ℕ} (hn : n = ixs.length)
    (hx : ∀ ix ∈ ixs, ix.Compact) (hc : c.offset ≤ b.len)
    (h : At b.bytes c.offset (ixs.flatMap SVMInstruction.encode)) :
    ∃ c', Returns (readMany b n) c (ixs.map SVMInstruction.frame) c' ∧
      c'.offset = c.offset + (ixs.flatMap SVMInstruction.encode).length := by
  subst hn
  induction ixs generalizing c with
  | nil => exact ⟨c, returns_pure.mpr ⟨rfl, rfl⟩, rfl⟩
  | cons ix ixs ih =>
    rw [List.flatMap_cons, at_append] at h
    have hi := Slice.inside_of_at h.1 hc
    obtain ⟨c₁, h₁, ho₁⟩ := read_complete (hx ix (by simp)) hc h.1
    rw [← ho₁] at h hi
    obtain ⟨c₂, h₂, ho₂⟩ := ih (fun y hy => hx y (by simp [hy])) hi h.2
    refine ⟨c₂, ?_, ?_⟩
    · simp only [List.length_cons, readMany, returns_bind, returns_pure]
      exact ⟨_, c₁, h₁, _, c₂, h₂, rfl, rfl⟩
    · rw [ho₂, ho₁, List.flatMap_cons, List.length_append, Nat.add_assoc]

theorem safe_readMany (n : ℕ) : Safe (readMany b n) c := by
  induction n generalizing c with
  | zero => exact safe_pure _ _
  | succ n ih => exact safe_read.bind fun _ _ _ => ih.bind fun _ _ _ => safe_pure _ _

end LegacyAndV0InstructionFrame

/-- The counted instructions of a legacy or v0 message. -/
def encodeInstructions (ixs : List SVMInstruction) : List UInt8 :=
  shortU16 ixs.length ++ ixs.flatMap SVMInstruction.encode

namespace InstructionsFrame

def ofInstructions (ixs : List SVMInstruction) (offset : ℕ) : InstructionsFrame :=
  .legacyAndV0 (UInt16.ofNat ixs.length) (UInt16.ofNat (offset + (shortU16 ixs.length).length))
    (ixs.map SVMInstruction.frame)

theorem three_wrappingMul (n : UInt16) : wrappingMul 3 n.toNat = 3 * n.toNat := by
  have hn := n.toNat_lt
  unfold wrappingMul usizeRange
  omega

theorem tryNewForLegacyAndV0_sound {f : InstructionsFrame} (hc : c.offset ≤ b.len)
    (h : Returns (tryNewForLegacyAndV0 b) c f c') :
    ∃ ixs : List SVMInstruction, ixs.length < 16384 ∧ (∀ ix ∈ ixs, ix.Compact) ∧
      At b.bytes c.offset (encodeInstructions ixs) ∧ f = ofInstructions ixs c.offset ∧
      Moves b c c' (encodeInstructions ixs).length
        [(.instructions, c.offset + (shortU16 ixs.length).length)] := by
  simp only [tryNewForLegacyAndV0, returns_bind, returns_get, returns_offsetAsU16,
    returns_pure] at h
  obtain ⟨n, c₁, h₁, _, _, ⟨rfl, rfl⟩, _, c₂, h₂, _, _, ⟨rfl, rfl⟩, _, _, ⟨rfl, rfl⟩,
    fs, c₃, h₃, rfl, rfl⟩ := h
  obtain ⟨hlt, hat₁, hm₁⟩ := compressedU16_sound hc h₁
  obtain ⟨-, rfl⟩ := (returns_checkRemaining hm₁.inside).mp h₂
  have hm₂ := (Moves.noteCheck hm₁.inside (wrappingMul 3 n.toNat)).trans
    (Moves.noteStored (c := c₁.noteCheck c₁.offset (wrappingMul 3 n.toNat)) hm₁.inside
      .instructions c₁.offset)
  obtain ⟨ixs, hlen, hx, hat₃, rfl, hm₃⟩ :=
    LegacyAndV0InstructionFrame.readMany_sound hm₂.inside h₃
  have ho : c₁.offset = c.offset + (shortU16 ixs.length).length := by rw [hm₁.offset, hlen]
  refine ⟨ixs, by omega, hx, ?_, ?_, ?_⟩
  · rw [encodeInstructions, at_append, ← ho, hlen]
    exact ⟨hat₁, hat₃⟩
  · rw [ofInstructions, hlen, ← hm₁.offset, UInt16.ofNat_toNat]
    rfl
  · refine ((hm₁.trans hm₂).trans hm₃).congr ?_ (by simp [ho])
    rw [encodeInstructions, List.length_append, hlen, Nat.add_zero]

theorem tryNewForLegacyAndV0_complete {ixs : List SVMInstruction} (hlt : ixs.length < 16384)
    (hx : ∀ ix ∈ ixs, ix.Compact) (hc : c.offset ≤ b.len)
    (h : At b.bytes c.offset (encodeInstructions ixs)) :
    ∃ c', Returns (tryNewForLegacyAndV0 b) c (ofInstructions ixs c.offset) c' ∧
      c'.offset = c.offset + (encodeInstructions ixs).length := by
  have hn : (UInt16.ofNat ixs.length).toNat = ixs.length :=
    UInt16.toNat_ofNat_of_lt (hlt.trans (by decide))
  obtain ⟨hat₁, hat₂⟩ := at_append.mp h
  have hi₁ := Slice.inside_of_at hat₁ hc
  have hi₂ := Slice.inside_of_at hat₂ hi₁
  -- every instruction takes at least the three bytes the check asks for
  have hmin := SVMInstruction.three_mul_le_encode_length ixs
  let c₁ := c.moveTo (c.offset + (shortU16 ixs.length).length)
  have h₂ := (returns_checkRemaining (c := c₁) (n := wrappingMul 3 (UInt16.ofNat ixs.length).toNat)
    (u := ()) hi₁).mpr ⟨by rw [three_wrappingMul, hn]; exact (Nat.add_le_add_left hmin _).trans hi₂,
      rfl⟩
  obtain ⟨c₃, h₃, ho₃⟩ := LegacyAndV0InstructionFrame.readMany_complete hn hx
    (c := (c₁.noteCheck c₁.offset (wrappingMul 3 (UInt16.ofNat ixs.length).toNat)).noteStored
      .instructions c₁.offset) hi₁ hat₂
  refine ⟨c₃, ?_, ?_⟩
  · simp only [tryNewForLegacyAndV0, returns_bind, returns_get, returns_offsetAsU16, returns_pure]
    exact ⟨_, _, compressedU16_complete hlt hat₁, _, _, ⟨rfl, rfl⟩, (), _, h₂, _, _, ⟨rfl, rfl⟩,
      _, _, ⟨rfl, rfl⟩, _, c₃, h₃, rfl, rfl⟩
  · rw [ho₃, encodeInstructions, List.length_append, ← Nat.add_assoc]
    rfl

theorem safe_tryNewForLegacyAndV0 : Safe (tryNewForLegacyAndV0 b) c :=
  safe_optimizedReadCompressedU16.bind fun _ _ _ => (safe_get _).bind fun _ _ _ =>
    (safe_checkRemaining _ _).bind fun _ _ _ => (safe_get _).bind fun _ _ _ =>
      (safe_offsetAsU16 _ _).bind fun _ _ _ =>
        (LegacyAndV0InstructionFrame.safe_readMany _).bind fun _ _ _ => safe_pure _ _

end InstructionsFrame

theorem forLegacyAndV0_complete {ix : SVMInstruction} (hx : ix.Compact) (hc : c.offset ≤ b.len)
    (h : At b.bytes c.offset ix.encode) :
    ∃ c', Returns (forLegacyAndV0 b ix.frame) c ix c' ∧
      c'.offset = c.offset + ix.encode.length := by
  obtain ⟨p, accounts, data⟩ := ix
  obtain ⟨ha, hd⟩ := hx
  simp only [SVMInstruction.encode, counted, at_append, List.length_append,
    List.length_singleton] at h
  obtain ⟨⟨hat₁, hat₂, hat₃⟩, hat₄, hat₅⟩ := h
  have hna := (ofNat_length_toNat ha).symm
  have hnd := (ofNat_length_toNat hd).symm
  have hcached (n : ℕ) (hn : n < 16384) :
      (UInt8.ofNat (shortU16 n).length).toNat = (shortU16 n).length := by
    have hl := shortU16_length_le hn
    rw [UInt8.toNat_ofNat']
    omega
  have hi₁ := Slice.inside_of_at hat₁ hc
  have hi₂ := Slice.inside_of_at hat₂ hi₁
  have hi₃ := Slice.inside_of_at hat₃ hi₂
  have ho₃ : c.offset + 1 + (shortU16 accounts.length).length + accounts.length =
      c.offset + (1 + ((shortU16 accounts.length).length + accounts.length)) := by omega
  rw [← ho₃] at hat₄ hat₅
  have hi₄ := Slice.inside_of_at hat₄ hi₃
  let c₂ := c.moveTo (c.offset + 1 + (shortU16 accounts.length).length)
  let c₄ := c.moveTo (c.offset + 1 + (shortU16 accounts.length).length + accounts.length +
    (shortU16 data.length).length)
  have h₃ := uncheckedReadSliceData_complete (c := c₂) hi₂ hna hat₃
  have h₅ := uncheckedReadSliceData_complete (c := c₄) hi₄ hnd hat₅
  refine ⟨c₄.moveTo (c₄.offset + data.length), ?_, ?_⟩
  · simp only [forLegacyAndV0, returns_bind, returns_modify, returns_pure]
    refine ⟨p, _, returns_uncheckedReadByte.mpr ⟨hat₁, rfl⟩, (), c₂, ?_, accounts, _, h₃, (), c₄,
      ?_, data, _, h₅, rfl, rfl⟩
    · simp only [SVMInstruction.frame, Cursor.moveTo_offset, hcached _ ha, wrappingAdd_eq hi₂]
      rfl
    · simp only [c₂, SVMInstruction.frame, Cursor.moveTo_offset, hcached _ hd, wrappingAdd_eq hi₄]
      rfl
  · simp only [c₄, SVMInstruction.encode, counted, Cursor.moveTo_offset, List.length_append,
      List.length_singleton]
    omega

theorem not_ofNat_ge {m n : ℕ} (h : m < n) (hn : n < 65536) :
    ¬ UInt16.ofNat m ≥ UInt16.ofNat n := by
  rw [ge_iff_le, UInt16.le_iff_toNat_le, UInt16.toNat_ofNat', UInt16.toNat_ofNat']
  omega

theorem InstructionsIterator.drains_legacyAndV0 (done : List SVMInstruction)
    {ixs : List SVMInstruction} {o : ℕ} (hlt : (done ++ ixs).length < 16384)
    (hx : ∀ ix ∈ ixs, ix.Compact) (ho : o ≤ b.len)
    (h : At b.bytes o (ixs.flatMap SVMInstruction.encode)) :
    Drains (next host) (.legacyAndV0 b o (UInt16.ofNat (done ++ ixs).length)
      (UInt16.ofNat done.length) ((done ++ ixs).map SVMInstruction.frame)) ixs := by
  induction ixs generalizing done o with
  | nil => exact .done (by simp [next, pure, Except.pure]; rfl)
  | cons ix ixs ih =>
    rw [List.flatMap_cons, at_append] at h
    obtain ⟨c', hr, hc'⟩ := forLegacyAndV0_complete (c := { offset := o }) (hx ix (by simp)) ho h.1
    have hi := Slice.inside_of_at h.1 ho
    have hlist : done ++ ix :: ixs = (done ++ [ix]) ++ ixs := by simp
    have hindex : UInt16.ofNat (done ++ [ix]).length = UInt16.ofNat done.length + 1 := by
      simp [UInt16.ofNat_add]
    have htail := ih (done ++ [ix]) (hlist ▸ hlt) (fun y hy => hx y (by simp [hy])) hi h.2
    rw [← hlist, hindex] at htail
    refine .more ?_ htail
    have hlen : done.length < (done ++ ix :: ixs).length := by simp
    have hpos : (UInt16.ofNat done.length).toNat = done.length :=
      UInt16.toNat_ofNat_of_lt (hlen.trans (hlt.trans (by decide)))
    have hframe : ((done ++ ix :: ixs).map SVMInstruction.frame)[done.length]? = some ix.frame := by
      simp
    simp only [next, if_neg (not_ofNat_ge hlen (hlt.trans (by decide))), hpos, hframe, hr.value,
      hr.state, hc']
    rfl

/-- Decoding the legacy and v0 instructions again gives what was encoded. -/
theorem InstructionsFrame.drains_ofInstructions {ixs : List SVMInstruction} {o : ℕ}
    (hlt : ixs.length < 16384) (hx : ∀ ix ∈ ixs, ix.Compact) (hb : o ≤ b.len)
    (hend : o + (encodeInstructions ixs).length < 65536)
    (h : At b.bytes o (encodeInstructions ixs)) :
    Drains (InstructionsIterator.next host) ((ofInstructions ixs o).iter b) ixs := by
  obtain ⟨hat₁, hat₂⟩ := at_append.mp h
  rw [encodeInstructions, List.length_append] at hend
  have hoff : (UInt16.ofNat (o + (shortU16 ixs.length).length)).toNat =
      o + (shortU16 ixs.length).length := UInt16.toNat_ofNat_of_lt (by change _ < 65536; omega)
  rw [ofInstructions, iter, hoff]
  exact InstructionsIterator.drains_legacyAndV0 [] hlt hx (Slice.inside_of_at hat₁ hb) hat₂

end AgaveSdk.TxView
