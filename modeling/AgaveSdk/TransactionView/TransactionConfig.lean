import AgaveSdk.TransactionView.Reading

/-! The config section of a v1 message: a mask, and one word for each of its set bits. -/
namespace AgaveSdk.TxView
open FallibleState Segments ByteOrder

structure TransactionConfigFrame where
  maskOffset : UInt16
  mask : UInt32
  valuesOffset : UInt16
  deriving DecidableEq, Repr

/-- The positions of the set bits, in ascending order. -/
def setBits (mask : UInt32) : List ℕ := (List.range 32).filter fun i => mask.toNat.testBit i

def countOnes (mask : UInt32) : ℕ := (setBits mask).length

namespace TransactionConfigFrame

/-- The frame of a legacy or v0 message. -/
def notApplicable : TransactionConfigFrame := ⟨0, 0, 0⟩

def isPresent (frame : TransactionConfigFrame) : Bool := frame.maskOffset != 0

def hasBit (mask : UInt32) (bit : UInt8) : Bool :=
  bit < 32 && (mask >>> bit.toUInt32) &&& 1 != 0

def allowedTransactionConfigMask : UInt32 := 0b11111

/-- Only known bits may be set, and the two bits of the priority fee only together. -/
def sanitizeMask (mask : UInt32) : Reader Unit := do
  rejectIf (mask &&& ~~~allowedTransactionConfigMask ≠ 0) .sanitizeError
  rejectIf (hasBit mask 0 ^^ hasBit mask 1) .sanitizeError

def tryNew (bytes : Slice) (maskOffset : ℕ) (mask : UInt32) : Reader TransactionConfigFrame := do
  failIf (¬ maskOffset > 0) (.fault .panic : Stop TransactionViewError)
  sanitizeMask mask
  let numValues := UInt8.ofNat (countOnes mask)
  let maskOffset ← checkedOffsetOr .sanitizeError .configMask maskOffset
  let valuesOffset ← checkedOffsetOr .sanitizeError .configValues (← get).offset
  advanceOffsetForArray 4 bytes numValues.toUInt16
  return ⟨maskOffset, mask, valuesOffset⟩

/-- The position of the word of a set bit: the number of set bits below it. -/
def wordIndexForBit (frame : TransactionConfigFrame) (bit : UInt8) : Option UInt8 :=
  if !frame.isPresent || !hasBit frame.mask bit then none
  else
    let maskBeforeBit := ((1 : UInt32) <<< bit.toUInt32) - 1
    some (UInt8.ofNat (countOnes (frame.mask &&& maskBeforeBit)))

def wordOffset (frame : TransactionConfigFrame) (bit : UInt8) : Option ℕ :=
  (frame.wordIndexForBit bit).map fun wordIndex =>
    wrappingAdd frame.valuesOffset.toNat (wrappingMul wordIndex.toNat 4)

end TransactionConfigFrame

structure TransactionConfigView where
  transactionConfigFrame : TransactionConfigFrame
  bytes : Slice
  deriving DecidableEq, Repr

namespace TransactionConfigView

/-- The little-endian value of `size` bytes that starts at the word of a bit. -/
def value (host : Endian) (size : ℕ) (view : TransactionConfigView) (bit : UInt8) :
    Outcome TransactionViewError (Option ℕ) :=
  match view.transactionConfigFrame.wordOffset bit with
  | none => return none
  | some offset => do
      let loaded ← uncheckedCopyValue host size view.bytes offset
      return some (fromLe host size loaded)

def priorityFeeLamports (host : Endian) (view : TransactionConfigView) :
    Outcome TransactionViewError (Option UInt64) := do
  return (← view.value host 8 0).map UInt64.ofNat

def computeUnitLimit (host : Endian) (view : TransactionConfigView) :
    Outcome TransactionViewError (Option UInt32) := do
  return (← view.value host 4 2).map UInt32.ofNat

def loadedAccountsDataSizeLimit (host : Endian) (view : TransactionConfigView) :
    Outcome TransactionViewError (Option UInt32) := do
  return (← view.value host 4 3).map UInt32.ofNat

def requestedHeapSize (host : Endian) (view : TransactionConfigView) :
    Outcome TransactionViewError (Option UInt32) := do
  return (← view.value host 4 4).map UInt32.ofNat

def mask (view : TransactionConfigView) : UInt32 := view.transactionConfigFrame.mask

end TransactionConfigView

/-- A config section: the words stand in the ascending order of the set bits. -/
structure TransactionConfig where
  mask : UInt32
  words : List (Vector UInt8 4)
  words_length : words.length = countOnes mask

namespace TransactionConfig

/-- The empty section that stands for a legacy or v0 message. -/
def empty : TransactionConfig := ⟨0, [], by decide +kernel⟩

def word (config : TransactionConfig) (bit : ℕ) : Option (Vector UInt8 4) :=
  ((setBits config.mask).zip config.words).lookup bit

/-- The number in the word of a bit, if that bit is set. -/
def u32 (config : TransactionConfig) (bit : ℕ) : Option UInt32 :=
  (config.word bit).map fun w => UInt32.ofNat (leNat w.toList)

/-- The number that the words of bits 0 and 1 spell together. -/
def priorityFee (config : TransactionConfig) : Option UInt64 :=
  match config.word 0, config.word 1 with
  | some low, some high => some (UInt64.ofNat (leNat (low.toList ++ high.toList)))
  | _, _ => none

/-- Only bits 0 to 4 are set, and bits 0 and 1 agree. -/
def MaskValid (mask : UInt32) : Prop :=
  (∀ bit ∈ setBits mask, bit < 5) ∧ (0 ∈ setBits mask ↔ 1 ∈ setBits mask)

instance (mask : UInt32) : Decidable (MaskValid mask) := inferInstanceAs (Decidable (_ ∧ _))

end TransactionConfig

variable {b : Slice} {c c' : Cursor} {host : Endian}

theorem mem_setBits {mask : UInt32} {i : ℕ} : i ∈ setBits mask ↔ mask.toNat.testBit i = true := by
  simp only [setBits, List.mem_filter, List.mem_range, and_iff_right_iff_imp]
  intro h
  by_contra hi
  have hlt : mask.toNat < 2 ^ i :=
    mask.toNat_lt.trans_le (Nat.pow_le_pow_right (by decide) (by omega))
  rw [Nat.testBit_lt_two_pow hlt] at h
  exact absurd h (by decide)

theorem forbidden_bits_eq_zero_iff (mask : UInt32) :
    mask &&& ~~~TransactionConfigFrame.allowedTransactionConfigMask = 0 ↔
      ∀ bit ∈ setBits mask, bit < 5 := by
  have hconst : (~~~TransactionConfigFrame.allowedTransactionConfigMask).toNat = 4294967264 := by
    decide
  have hhigh : ∀ i < 32, 5 ≤ i → Nat.testBit 4294967264 i = true := by decide
  have hlow : ∀ i < 5, Nat.testBit 4294967264 i = false := by decide
  rw [← UInt32.toNat_inj, UInt32.toNat_and, hconst]
  constructor
  · intro h bit hbit
    by_contra hge
    have h32 : bit < 32 := List.mem_range.mp (List.mem_of_mem_filter hbit)
    have ht := Nat.testBit_and mask.toNat 4294967264 bit
    rw [h, mem_setBits.mp hbit, hhigh bit h32 (by omega)] at ht
    simp at ht
  · intro h
    apply Nat.eq_of_testBit_eq
    intro i
    rw [Nat.testBit_and, UInt32.toNat_zero, Nat.zero_testBit]
    by_cases hi : mask.toNat.testBit i = true
    · rw [hlow i (h i (mem_setBits.mpr hi)), Bool.and_false]
    · rw [Bool.not_eq_true] at hi
      rw [hi, Bool.false_and]

theorem toNat_lt_of_bits {mask : UInt32} (h : ∀ bit ∈ setBits mask, bit < 5) :
    mask.toNat < 32 := by
  apply Nat.lt_pow_two_of_testBit (n := 5)
  intro i hi
  rw [← Bool.not_eq_true, ← mem_setBits]
  intro hbit
  have := h i hbit
  omega

/-- On a mask of known bits, the bit test and the position of a word are those of the set bits. -/
theorem known_mask {mask : UInt32} (hm : mask.toNat < 32) (bit : UInt8) (hb : bit.toNat < 5) :
    (TransactionConfigFrame.hasBit mask bit = true ↔ bit.toNat ∈ setBits mask) ∧
      (bit.toNat ∈ setBits mask →
        (UInt8.ofNat (countOnes (mask &&& ((1 <<< bit.toUInt32) - 1)))).toNat =
          (setBits mask).idxOf bit.toNat) := by
  have hall : ∀ m : Fin 32, ∀ k : Fin 5,
      (TransactionConfigFrame.hasBit (UInt32.ofNat m) (UInt8.ofNat k) = true ↔
        k.val ∈ setBits (UInt32.ofNat m)) ∧
      (k.val ∈ setBits (UInt32.ofNat m) →
        (UInt8.ofNat (countOnes (UInt32.ofNat m &&&
          ((1 <<< (UInt8.ofNat k).toUInt32) - 1)))).toNat =
            (setBits (UInt32.ofNat m)).idxOf k.val) := by decide +kernel
  have h := hall ⟨mask.toNat, hm⟩ ⟨bit.toNat, hb⟩
  simpa only [UInt32.ofNat_toNat, UInt8.ofNat_toNat] using h

theorem lookup_zip {β : Type} (l : List ℕ) (ws : List β) (k : ℕ) :
    (l.zip ws).lookup k = if k ∈ l then ws[l.idxOf k]? else none := by
  induction l generalizing ws with
  | nil => simp
  | cons x l ih =>
    cases ws with
    | nil => simp
    | cons w ws =>
      by_cases hk : k = x
      · simp [hk]
      · have hx : (k == x) = false := by simpa using hk
        have hx' : (x == k) = false := beq_eq_false_iff_ne.mpr (Ne.symm hk)
        simp [List.lookup_cons, hx, ih, hk, List.idxOf_cons, hx']

namespace TransactionConfigFrame

theorem returns_sanitizeMask {mask : UInt32} {u : Unit} :
    Returns (sanitizeMask mask) c u c' ↔ TransactionConfig.MaskValid mask ∧ c = c' := by
  have hxor (x y : Bool) : ¬ (x ^^ y) = true ↔ (x = true ↔ y = true) := by
    cases x <;> cases y <;> simp
  have hpair (hbits : ∀ bit ∈ setBits mask, bit < 5) :
      ¬ (hasBit mask 0 ^^ hasBit mask 1) = true ↔ (0 ∈ setBits mask ↔ 1 ∈ setBits mask) := by
    have hm := toNat_lt_of_bits hbits
    rw [hxor, (known_mask hm 0 (by decide)).1, (known_mask hm 1 (by decide)).1]
    rfl
  simp only [sanitizeMask, returns_bind, returns_rejectIf, ne_eq, not_not,
    forbidden_bits_eq_zero_iff]
  constructor
  · rintro ⟨_, _, ⟨hbits, rfl⟩, hx, rfl⟩
    exact ⟨⟨hbits, (hpair hbits).mp hx⟩, rfl⟩
  · rintro ⟨⟨hbits, hx⟩, rfl⟩
    exact ⟨(), c, ⟨hbits, rfl⟩, (hpair hbits).mpr hx, rfl⟩

theorem safe_sanitizeMask (mask : UInt32) : Safe (sanitizeMask mask) c :=
  (safe_rejectIf _ _).bind fun _ _ _ => safe_rejectIf _ _

/-- The frame of a config section with the given places. -/
def ofConfig (config : TransactionConfig) (maskOffset valuesOffset : ℕ) : TransactionConfigFrame :=
  ⟨UInt16.ofNat maskOffset, config.mask, UInt16.ofNat valuesOffset⟩

theorem countOnes_le (mask : UInt32) : countOnes mask ≤ 32 := by
  have h := List.length_filter_le (fun i => mask.toNat.testBit i) (List.range 32)
  rwa [List.length_range] at h

theorem numValues_toNat (mask : UInt32) :
    (UInt8.ofNat (countOnes mask)).toUInt16.toNat = countOnes mask := by
  have h := countOnes_le mask
  rw [UInt8.toNat_toUInt16, UInt8.toNat_ofNat']
  omega

theorem tryNew_sound {maskOffset : ℕ} {mask : UInt32} {f : TransactionConfigFrame}
    (hc : c.offset ≤ b.len) (h : Returns (tryNew b maskOffset mask) c f c') :
    ∃ config : TransactionConfig, config.mask = mask ∧ TransactionConfig.MaskValid mask ∧
      At b.bytes c.offset (config.words.flatMap Vector.toList) ∧
      f = ofConfig config maskOffset c.offset ∧
      Moves b c c' (config.words.flatMap Vector.toList).length
        [(.configMask, maskOffset), (.configValues, c.offset)] := by
  simp only [tryNew, returns_bind, returns_failIf, returns_sanitizeMask, returns_get,
    returns_checkedOffsetOr, returns_pure] at h
  obtain ⟨_, _, ⟨-, rfl⟩, _, _, ⟨hmask, rfl⟩, _, _, ⟨-, rfl, rfl⟩, _, _, ⟨rfl, rfl⟩, _, _,
    ⟨-, rfl, rfl⟩, _, _, h₁, rfl, rfl⟩ := h
  have hm₁ := Moves.noteStored hc .configMask maskOffset
  have hm₂ := hm₁.trans (Moves.noteStored hm₁.inside .configValues c.offset)
  obtain ⟨words, hw, hat, hm₃⟩ := advanceOffsetForArray_sound (by decide) hm₂.inside h₁
  rw [numValues_toNat] at hw
  exact ⟨⟨mask, words, hw⟩, rfl, hmask, hat, rfl, (hm₂.trans hm₃).congr (Nat.zero_add _) rfl⟩

theorem tryNew_complete {maskOffset : ℕ} {config : TransactionConfig}
    (hmask : TransactionConfig.MaskValid config.mask) (hpos : 0 < maskOffset)
    (hmo : maskOffset < 2 ^ 16) (hvo : c.offset < 2 ^ 16) (hc : c.offset ≤ b.len)
    (h : At b.bytes c.offset (config.words.flatMap Vector.toList)) :
    ∃ c', Returns (tryNew b maskOffset config.mask) c (ofConfig config maskOffset c.offset) c' ∧
      c'.offset = c.offset + (config.words.flatMap Vector.toList).length := by
  have hlen : (config.words.flatMap Vector.toList).length =
      (UInt8.ofNat (countOnes config.mask)).toUInt16.toNat * 4 := by
    rw [flatMap_toList_length, config.words_length, numValues_toNat]
  obtain ⟨c', h₁, ho⟩ := advanceOffsetForArray_complete (show 4 ≤ 64 by decide)
    (c := (c.noteStored .configMask maskOffset).noteStored .configValues c.offset) hc hlen h
  refine ⟨c', ?_, ho⟩
  simp only [tryNew, returns_bind, returns_failIf, returns_sanitizeMask, returns_get,
    returns_checkedOffsetOr, returns_pure]
  exact ⟨(), c, ⟨by omega, rfl⟩, (), c, ⟨hmask, rfl⟩, _, _, ⟨hmo, rfl, rfl⟩, _, _, ⟨rfl, rfl⟩, _, _,
    ⟨hvo, rfl, rfl⟩, (), c', h₁, rfl, rfl⟩

theorem safe_tryNew {maskOffset : ℕ} (hpos : 0 < maskOffset) (mask : UInt32) :
    Safe (tryNew b maskOffset mask) c := by
  refine Safe.bind ?_ fun _ _ _ => (safe_sanitizeMask _).bind fun _ _ _ =>
    (safe_checkedOffsetOr _ _ _).bind fun _ _ _ => (safe_get _).bind fun _ _ _ =>
      (safe_checkedOffsetOr _ _ _).bind fun _ _ _ =>
        (safe_advanceOffsetForArray _ _).bind fun _ _ _ => safe_pure _ _
  rw [failIf, if_neg (by omega)]
  exact safe_pure _ _

end TransactionConfigFrame

namespace TransactionConfigView

variable {config : TransactionConfig} {maskOffset valuesOffset : ℕ}

theorem word_eq (config : TransactionConfig) (k : ℕ) : config.word k =
    if k ∈ setBits config.mask then config.words[(setBits config.mask).idxOf k]? else none :=
  lookup_zip _ _ _

theorem isPresent_ofConfig (hpos : 0 < maskOffset) (hmo : maskOffset < 2 ^ 16) :
    (TransactionConfigFrame.ofConfig config maskOffset valuesOffset).isPresent = true := by
  rw [TransactionConfigFrame.isPresent, bne_iff_ne, ne_eq, ← UInt16.toNat_inj]
  change ¬ (UInt16.ofNat maskOffset).toNat = 0
  rw [UInt16.toNat_ofNat', Nat.mod_eq_of_lt hmo]
  exact hpos.ne'

theorem wordOffset_eq (hmask : TransactionConfig.MaskValid config.mask) (hpos : 0 < maskOffset)
    (hmo : maskOffset < 2 ^ 16) (hvo : valuesOffset < 2 ^ 16) (bit : UInt8) (hb : bit.toNat < 5) :
    (TransactionConfigFrame.ofConfig config maskOffset valuesOffset).wordOffset bit =
      if bit.toNat ∈ setBits config.mask then
        some (valuesOffset + (setBits config.mask).idxOf bit.toNat * 4) else none := by
  have hm := toNat_lt_of_bits hmask.1
  obtain ⟨hbit, hindex⟩ := known_mask hm bit hb
  have hv : (UInt16.ofNat valuesOffset).toNat = valuesOffset := UInt16.toNat_ofNat_of_lt hvo
  rw [TransactionConfigFrame.wordOffset, TransactionConfigFrame.wordIndexForBit,
    isPresent_ofConfig hpos hmo]
  change Option.map (fun i : UInt8 => wrappingAdd (UInt16.ofNat valuesOffset).toNat
    (wrappingMul i.toNat 4)) (if (!true || !TransactionConfigFrame.hasBit config.mask bit) = true
      then none
      else some (UInt8.ofNat (countOnes (config.mask &&& ((1 <<< bit.toUInt32) - 1))))) = _
  by_cases hin : bit.toNat ∈ setBits config.mask
  · have hlt : (setBits config.mask).idxOf bit.toNat < countOnes config.mask :=
      List.idxOf_lt_length_iff.mpr hin
    have hle := TransactionConfigFrame.countOnes_le config.mask
    rw [hbit.mpr hin, if_neg (by decide), if_pos hin, Option.map_some, hindex hin, hv]
    unfold wrappingAdd wrappingMul usizeRange
    congr 1
    omega
  · have hno : TransactionConfigFrame.hasBit config.mask bit = false := by
      rw [← Bool.not_eq_true, hbit]
      exact hin
    rw [hno, if_pos (by decide), if_neg hin, Option.map_none]

theorem at_word {k : ℕ} {w : Vector UInt8 4}
    (h : At b.bytes valuesOffset (config.words.flatMap Vector.toList))
    (hk : config.words[k]? = some w) : At b.bytes (valuesOffset + k * 4) w.toList := by
  obtain ⟨hlt, rfl⟩ := List.getElem?_eq_some_iff.mp hk
  rw [← List.take_append_drop k config.words, List.drop_eq_getElem_cons hlt, List.flatMap_append,
    List.flatMap_cons] at h
  have ht := (at_append.mp (at_append.mp h).2).1
  rwa [flatMap_toList_length, List.length_take, min_eq_left hlt.le] at ht

/-- A valid config section stands in the bytes at the given places. -/
structure Placed (b : Slice) (config : TransactionConfig) (maskOffset valuesOffset : ℕ) :
    Prop where
  valid : TransactionConfig.MaskValid config.mask
  pos : 0 < maskOffset
  mask_lt : maskOffset < 2 ^ 16
  values_lt : valuesOffset < 2 ^ 16
  inside : valuesOffset ≤ b.len
  words : At b.bytes valuesOffset (config.words.flatMap Vector.toList)

/-- The value of a bit is the number its word spells. -/
theorem value_eq (host : Endian) (h : Placed b config maskOffset valuesOffset) {bit : UInt8}
    (hbit : bit.toNat < 5) : value host 4 ⟨.ofConfig config maskOffset valuesOffset, b⟩ bit =
      .ok ((config.word bit.toNat).map fun w => leNat w.toList) := by
  rw [value, word_eq, wordOffset_eq h.valid h.pos h.mask_lt h.values_lt bit hbit]
  by_cases hin : bit.toNat ∈ setBits config.mask
  · have hlt : (setBits config.mask).idxOf bit.toNat < config.words.length := by
      rw [config.words_length]
      exact List.idxOf_lt_length_iff.mpr hin
    have hw := List.getElem?_eq_getElem hlt
    generalize config.words[(setBits config.mask).idxOf bit.toNat] = w at hw
    have hwl : w.toList.length = 4 := by simp
    have hinside : valuesOffset + (setBits config.mask).idxOf bit.toNat * 4 ≤ b.len := by
      have hi := Slice.inside_of_at h.words h.inside
      rw [flatMap_toList_length] at hi
      omega
    have hload := uncheckedCopyValue_eq host hinside (at_word h.words hw)
    have hle := fromLe_load host w.toList
    rw [hwl] at hload hle
    simp only [if_pos hin, hw, hload, Option.map_some, bind, Except.bind, pure, Except.pure, hle]
  · simp [hin, pure, Except.pure]

theorem u32_eq (host : Endian) (h : Placed b config maskOffset valuesOffset) {bit : UInt8}
    (hbit : bit.toNat < 5) :
    (do return (← value host 4 ⟨.ofConfig config maskOffset valuesOffset, b⟩ bit).map UInt32.ofNat :
      Outcome TransactionViewError (Option UInt32)) = .ok (config.u32 bit.toNat) := by
  rw [value_eq host h hbit]
  simp [TransactionConfig.u32, bind, Except.bind, pure, Except.pure, Function.comp_def]

theorem fee_bits {mask : UInt32} (hm : mask.toNat < 32) (h₀ : 0 ∈ setBits mask)
    (h₁ : 1 ∈ setBits mask) : (setBits mask).idxOf 0 = 0 ∧ (setBits mask).idxOf 1 = 1 := by
  have hall : ∀ m : Fin 32, 0 ∈ setBits (UInt32.ofNat m) → 1 ∈ setBits (UInt32.ofNat m) →
      (setBits (UInt32.ofNat m)).idxOf 0 = 0 ∧ (setBits (UInt32.ofNat m)).idxOf 1 = 1 := by
    decide +kernel
  have h := hall ⟨mask.toNat, hm⟩
  rw [UInt32.ofNat_toNat] at h
  exact h h₀ h₁

/-- The priority fee is the number that the first two words spell together. -/
theorem priorityFeeLamports_eq (host : Endian) (h : Placed b config maskOffset valuesOffset) :
    priorityFeeLamports host ⟨.ofConfig config maskOffset valuesOffset, b⟩ =
      .ok config.priorityFee := by
  have hoff := wordOffset_eq h.valid h.pos h.mask_lt h.values_lt 0 (by decide)
  rw [priorityFeeLamports, value, hoff, TransactionConfig.priorityFee, word_eq, word_eq]
  change ((match if 0 ∈ setBits config.mask then
    some (valuesOffset + (setBits config.mask).idxOf 0 * 4) else none with
    | none => _ | some o => _) >>= _) = _
  by_cases h₀ : 0 ∈ setBits config.mask
  · have h₁ := h.valid.2.mp h₀
    obtain ⟨hi₀, hi₁⟩ := fee_bits (toNat_lt_of_bits h.valid.1) h₀ h₁
    have hlen : 1 < config.words.length := by
      rw [config.words_length, ← hi₁]
      exact List.idxOf_lt_length_iff.mpr h₁
    obtain ⟨low, high, rest, hw⟩ : ∃ low high rest, config.words = low :: high :: rest := by
      match config.words, hlen with
      | low :: high :: rest, _ => exact ⟨low, high, rest, rfl⟩
    have hwords := h.words
    rw [hw, List.flatMap_cons, List.flatMap_cons, ← List.append_assoc] at hwords
    have hload := uncheckedCopyValue_eq host h.inside (at_append.mp hwords).1
    have hle := fromLe_load host (low.toList ++ high.toList)
    have hl : (low.toList ++ high.toList).length = 8 := by simp
    rw [hl] at hload hle
    simp only [if_pos h₀, if_pos h₁, hi₀, hi₁, hw, Nat.zero_mul, Nat.add_zero, hload, bind,
      Except.bind, pure, Except.pure, hle]
    rfl
  · have h₁ : 1 ∉ setBits config.mask := fun h₁ => h₀ (h.valid.2.mpr h₁)
    simp [h₀, h₁, bind, Except.bind, pure, Except.pure]

end TransactionConfigView

end AgaveSdk.TxView
