import AgaveSdk.TransactionView.Bytes

/-! What each byte reader accepts, and how far it moves the cursor. -/
namespace AgaveSdk.TxView
open FallibleState Segments ByteOrder

variable {b : Slice} {c c' : Cursor}

@[simp] theorem Cursor.moveTo_offset (c : Cursor) (o : ℕ) : (c.moveTo o).offset = o := rfl

@[simp] theorem Cursor.noteStored_offset (c : Cursor) (f : OffsetField) (o : ℕ) :
    (c.noteStored f o).offset = c.offset := rfl

@[simp] theorem Cursor.noteCheck_offset (c : Cursor) (o n : ℕ) :
    (c.noteCheck o n).offset = c.offset := rfl

theorem wrappingAdd_eq {x y : ℕ} (h : x + y ≤ b.len) : wrappingAdd x y = x + y := by
  have hl := b.length_le
  unfold wrappingAdd usizeRange
  unfold isizeMax at hl
  unfold Slice.len at h
  omega

theorem wrappingSub_eq {o : ℕ} (h : o ≤ b.len) : wrappingSub b.len o = b.len - o := by
  have hl := b.length_le
  unfold wrappingSub usizeRange
  unfold isizeMax at hl
  unfold Slice.len at *
  omega

theorem wrappingMul_eq (n : UInt16) {size : ℕ} (h : size ≤ 64) :
    wrappingMul n.toNat size = n.toNat * size := by
  have hn := n.toNat_lt
  have hm := Nat.mul_le_mul hn.le h
  unfold wrappingMul usizeRange
  omega

/-- A successful stretch of a parse: it moves by `n` bytes inside the slice, stores the listed
offsets and makes no `check_remaining` call from outside the slice. -/
structure Moves (b : Slice) (c c' : Cursor) (n : ℕ) (new : List (OffsetField × ℕ)) : Prop where
  offset : c'.offset = c.offset + n
  inside : c'.offset ≤ b.len
  stored : c'.stored = c.stored ++ new
  checks : ∀ k ∈ c'.checks, k ∈ c.checks ∨ k.1 ≤ b.len

theorem Moves.refl (hc : c.offset ≤ b.len) : Moves b c c 0 [] :=
  ⟨rfl, hc, by simp, fun _ hk => .inl hk⟩

theorem Moves.trans {c₁ c₂ : Cursor} {m n : ℕ} {xs ys : List (OffsetField × ℕ)}
    (h₁ : Moves b c c₁ m xs) (h₂ : Moves b c₁ c₂ n ys) : Moves b c c₂ (m + n) (xs ++ ys) where
  offset := by rw [h₂.offset, h₁.offset, Nat.add_assoc]
  inside := h₂.inside
  stored := by rw [h₂.stored, h₁.stored, List.append_assoc]
  checks k hk := by
    rcases h₂.checks k hk with h | h
    · exact h₁.checks k h
    · exact .inr h

theorem Moves.congr {m n : ℕ} {xs ys : List (OffsetField × ℕ)} (h : Moves b c c' m xs)
    (hn : m = n) (hs : xs = ys) : Moves b c c' n ys := by
  rwa [← hn, ← hs]

theorem Moves.moveTo {n : ℕ} (h : c.offset + n ≤ b.len) :
    Moves b c (c.moveTo (c.offset + n)) n [] :=
  ⟨rfl, h, by simp [Cursor.moveTo], fun _ hk => .inl hk⟩

theorem Moves.noteStored (hc : c.offset ≤ b.len) (field : OffsetField) (o : ℕ) :
    Moves b c (c.noteStored field o) 0 [(field, o)] :=
  ⟨rfl, hc, rfl, fun _ hk => .inl hk⟩

theorem Moves.noteCheck (hc : c.offset ≤ b.len) (n : ℕ) :
    Moves b c (c.noteCheck c.offset n) 0 [] where
  offset := rfl
  inside := hc
  stored := by simp [Cursor.noteCheck]
  checks k hk := by
    rcases List.mem_append.mp hk with h | h
    · exact .inl h
    · exact .inr (by rw [List.mem_singleton.mp h]; exact hc)

@[simp] theorem returns_fail {α : Type} {a : α} : ¬ Returns (fail : Reader α) c a c' :=
  returns_throw

@[simp] theorem returns_rejectIf {p : Prop} [Decidable p] {e : TransactionViewError} {u : Unit} :
    Returns (rejectIf p e) c u c' ↔ ¬ p ∧ c = c' := returns_failIf

theorem safe_fail {α : Type} : Safe (fail : Reader α) c := safe_throw_err _ c

theorem safe_rejectIf (p : Prop) [Decidable p] (e : TransactionViewError) :
    Safe (rejectIf p e) c := safe_failIf p e c

theorem returns_checkRemaining {n : ℕ} {u : Unit} (hc : c.offset ≤ b.len) :
    Returns (checkRemaining b c.offset n) c u c' ↔
      c.offset + n ≤ b.len ∧ c' = c.noteCheck c.offset n := by
  have hs := wrappingSub_eq hc
  have hn : ¬ n > b.len - c.offset ↔ c.offset + n ≤ b.len := by omega
  simp only [checkRemaining, returns_bind, returns_modify, returns_rejectIf, hs, hn]
  aesop

theorem safe_checkRemaining (o n : ℕ) : Safe (checkRemaining b o n) c :=
  (safe_modify _ c).bind fun _ _ _ => safe_rejectIf _ _

theorem returns_checkedOffsetOr {e : TransactionViewError} {field : OffsetField} {o : ℕ}
    {v : UInt16} : Returns (checkedOffsetOr e field o) c v c' ↔
      o < 2 ^ 16 ∧ v = UInt16.ofNat o ∧ c' = c.noteStored field o := by
  simp only [checkedOffsetOr, returns_bind, returns_modify, returns_rejectIf, returns_pure,
    not_le]
  aesop

theorem safe_checkedOffsetOr (e : TransactionViewError) (field : OffsetField) (o : ℕ) :
    Safe (checkedOffsetOr e field o) c :=
  (safe_rejectIf _ _).bind fun _ _ _ => (safe_modify _ _).bind fun _ _ _ => safe_pure _ _

theorem returns_offsetAsU16 {field : OffsetField} {o : ℕ} {v : UInt16} :
    Returns (offsetAsU16 field o) c v c' ↔ v = UInt16.ofNat o ∧ c' = c.noteStored field o := by
  simp only [offsetAsU16, returns_bind, returns_modify, returns_pure]
  aesop

theorem safe_offsetAsU16 (field : OffsetField) (o : ℕ) : Safe (offsetAsU16 field o) c :=
  (safe_modify _ c).bind fun _ _ _ => safe_pure _ _

theorem get?_lt {o : ℕ} {v : UInt8} (h : b.bytes[o]? = some v) : o + 1 ≤ b.len :=
  (List.getElem?_eq_some_iff.mp h).1

theorem returns_readByte {v : UInt8} :
    Returns (readByte b) c v c' ↔ At b.bytes c.offset [v] ∧ c' = c.moveTo (c.offset + 1) := by
  simp only [readByte, returns_get_bind, returns_modify_bind, at_singleton]
  rcases hv : b.bytes[c.offset]? with _ | w
  · simp
  · simp only [returns_pure, wrappingAdd_eq (get?_lt hv), Option.some.injEq, eq_comm]

theorem safe_readByte : Safe (readByte b) c := by
  refine (safe_get c).bind fun s _ _ => (safe_modify _ _).bind fun _ _ _ => ?_
  cases b.bytes[s.offset]? with
  | none => exact safe_fail
  | some v => exact safe_pure _ _

theorem returns_uncheckedReadByte {v : UInt8} : Returns (uncheckedReadByte b) c v c' ↔
    At b.bytes c.offset [v] ∧ c' = c.moveTo (c.offset + 1) := by
  simp only [uncheckedReadByte, returns_get_bind, at_singleton]
  rcases hv : b.bytes[c.offset]? with _ | w
  · simp
  · simp only [returns_modify_bind, returns_pure, wrappingAdd_eq (get?_lt hv), Option.some.injEq,
      eq_comm]

theorem safe_uncheckedReadByte (h : c.offset < b.len) : Safe (uncheckedReadByte b) c := by
  refine (safe_get c).bind fun s s' hs => ?_
  obtain ⟨rfl, rfl⟩ := returns_get.mp hs
  simp only [List.getElem?_eq_getElem h]
  exact (safe_modify _ _).bind fun _ _ _ => safe_pure _ _

/-- The minimal compact-u16 encoding: seven bits a byte, least significant first. -/
def shortU16 (n : ℕ) : List UInt8 :=
  if n < 128 then [UInt8.ofNat n]
  else if n < 16384 then [UInt8.ofNat (n % 128 + 128), UInt8.ofNat (n / 128)]
  else [UInt8.ofNat (n % 128 + 128), UInt8.ofNat (n / 128 % 128 + 128), UInt8.ofNat (n / 16384)]

theorem shortU16_length_pos (n : ℕ) : 1 ≤ (shortU16 n).length := by
  unfold shortU16
  split
  · simp
  · split <;> simp

theorem shortU16_of_lt {n : ℕ} (h : n < 128) : shortU16 n = [UInt8.ofNat n] := if_pos h

theorem shortU16_length_le {n : ℕ} (h : n < 16384) : (shortU16 n).length ≤ 2 := by
  unfold shortU16
  split <;> simp

theorem and_high_bit (v : UInt8) : v &&& 0x80 = 0 ↔ v.toNat < 128 := by
  have h : ∀ i : Fin 256, (i.val &&& 128 = 0 ↔ i.val < 128) := by decide +kernel
  rw [← UInt8.toNat_inj, UInt8.toNat_and]
  exact h ⟨v.toNat, v.toNat_lt⟩

theorem low_bits_toNat (v : UInt8) : (v &&& 0x7F).toUInt16.toNat = v.toNat % 128 := by
  rw [UInt8.toNat_toUInt16, UInt8.toNat_and]
  exact Nat.and_two_pow_sub_one_eq_mod v.toNat 7

theorem or_shift_toNat {x y : UInt16} (hx : x.toNat < 128) (hy : y.toNat < 128) :
    (x ||| (y <<< 7)).toNat = x.toNat + 128 * y.toNat := by
  have hs : (y <<< 7).toNat = 2 ^ 7 * y.toNat := by
    rw [UInt16.toNat_shiftLeft]
    change y.toNat <<< 7 % 2 ^ 16 = _
    rw [Nat.shiftLeft_eq]
    omega
  rw [UInt16.toNat_or, hs, Nat.or_comm, ← Nat.two_pow_add_eq_or_of_lt hx]
  omega

private theorem shortU16_one {v : UInt16} {x : UInt8} (hx : x.toNat < 128)
    (hv : v.toNat = x.toNat) : shortU16 v.toNat = [x] := by
  rw [shortU16_of_lt (by omega), hv]
  simp

private theorem shortU16_two {v : UInt16} {x y : UInt8} (hx : ¬ x.toNat < 128)
    (hy : y.toNat < 128) (hy0 : y ≠ 0) (hv : v.toNat = x.toNat % 128 + 128 * y.toNat) :
    shortU16 v.toNat = [x, y] := by
  have hx' := x.toNat_lt
  have hy' : y.toNat ≠ 0 := fun h => hy0 (UInt8.toNat_inj.mp (by simpa using h))
  have h₁ : v.toNat % 128 + 128 = x.toNat := by omega
  have h₂ : v.toNat / 128 = y.toNat := by omega
  unfold shortU16
  rw [if_neg (by omega), if_pos (by omega), h₁, h₂]
  simp

/-- What the optimized reader returns is written minimally in front of it. -/
theorem minimal_of_optimizedRead {v : UInt16}
    (h : Returns (optimizedReadCompressedU16 b) c v c') : v.toNat < 16384 ∧
      At b.bytes c.offset (shortU16 v.toNat) ∧
      c' = c.moveTo (c.offset + (shortU16 v.toNat).length) := by
  simp only [optimizedReadCompressedU16, returns_get_bind] at h
  rcases hx : b.bytes[c.offset]? with _ | x
  · simp [hx] at h
  simp only [hx] at h
  split at h
  next hlow =>
    rw [and_high_bit] at hlow
    rw [returns_modify_bind, returns_pure] at h
    obtain ⟨rfl, rfl⟩ := h
    have hv : (x &&& 0x7F).toUInt16.toNat = x.toNat := by
      rw [low_bits_toNat]; omega
    rw [shortU16_one hlow hv, wrappingAdd_eq (get?_lt hx)]
    exact ⟨by omega, at_singleton.mpr hx, rfl⟩
  next hhigh =>
    rw [and_high_bit] at hhigh
    rw [wrappingAdd_eq (get?_lt hx)] at h
    rcases hy : b.bytes[c.offset + 1]? with _ | y
    · simp [hy] at h
    simp only [hy] at h
    split at h
    · simp at h
    next hmin =>
      rw [not_or, not_not, and_high_bit] at hmin
      rw [returns_modify_bind, returns_pure] at h
      obtain ⟨rfl, rfl⟩ := h
      have hb₁ := low_bits_toNat x
      have hb₂ := low_bits_toNat y
      have hv := or_shift_toNat (x := (x &&& 0x7F).toUInt16) (y := (y &&& 0x7F).toUInt16)
        (by omega) (by omega)
      rw [hb₁, hb₂, Nat.mod_eq_of_lt hmin.2] at hv
      rw [shortU16_two hhigh hmin.2 hmin.1 hv,
        show wrappingAdd c.offset 2 = c.offset + 2 from wrappingAdd_eq (get?_lt hy)]
      exact ⟨by omega, at_cons.mpr ⟨hx, at_singleton.mpr hy⟩, rfl⟩

theorem optimizedRead_of_minimal {v : UInt16} (hlt : v.toNat < 16384)
    (hat : At b.bytes c.offset (shortU16 v.toNat)) :
    Returns (optimizedReadCompressedU16 b) c v
      (c.moveTo (c.offset + (shortU16 v.toNat).length)) := by
  simp only [optimizedReadCompressedU16, returns_get_bind]
  by_cases hv : v.toNat < 128
  · rw [shortU16_of_lt hv] at hat ⊢
    have hx := at_singleton.mp hat
    have hn : (UInt8.ofNat v.toNat).toNat = v.toNat := by
      rw [UInt8.toNat_ofNat']; omega
    have hlow : UInt8.ofNat v.toNat &&& 0x80 = 0 := by rw [and_high_bit, hn]; exact hv
    simp only [hx, hlow, ↓reduceIte, returns_modify_bind, returns_pure,
      wrappingAdd_eq (get?_lt hx)]
    refine ⟨UInt16.toNat_inj.mp ?_, rfl⟩
    rw [low_bits_toNat, hn, Nat.mod_eq_of_lt hv]
  · have he : shortU16 v.toNat =
        [UInt8.ofNat (v.toNat % 128 + 128), UInt8.ofNat (v.toNat / 128)] := by
      unfold shortU16
      rw [if_neg hv, if_pos hlt]
    rw [he] at hat ⊢
    obtain ⟨hx, hy⟩ := at_cons.mp hat
    rw [at_singleton] at hy
    have hn₁ : (UInt8.ofNat (v.toNat % 128 + 128)).toNat = v.toNat % 128 + 128 := by
      rw [UInt8.toNat_ofNat']; omega
    have hn₂ : (UInt8.ofNat (v.toNat / 128)).toNat = v.toNat / 128 := by
      rw [UInt8.toNat_ofNat']; omega
    have hhigh : ¬ UInt8.ofNat (v.toNat % 128 + 128) &&& 0x80 = 0 := by
      rw [and_high_bit, hn₁]; omega
    have hmin : ¬ (UInt8.ofNat (v.toNat / 128) = 0 ∨
        UInt8.ofNat (v.toNat / 128) &&& 0x80 ≠ 0) := by
      rw [not_or, not_not, and_high_bit, hn₂, ← UInt8.toNat_inj, hn₂]
      exact ⟨by simp; omega, by omega⟩
    have hw : wrappingAdd c.offset 2 = c.offset + 2 := wrappingAdd_eq (get?_lt hy)
    simp only [hx, hhigh, ↓reduceIte, wrappingAdd_eq (get?_lt hx), hy, hmin,
      returns_modify_bind, returns_pure, hw]
    refine ⟨UInt16.toNat_inj.mp ?_, rfl⟩
    have hb₁ := low_bits_toNat (UInt8.ofNat (v.toNat % 128 + 128))
    have hb₂ := low_bits_toNat (UInt8.ofNat (v.toNat / 128))
    rw [or_shift_toNat (by omega) (by omega), hb₁, hb₂, hn₁, hn₂]
    omega

/-- The optimized reader accepts exactly the minimal encodings of at most two bytes. -/
theorem returns_optimizedReadCompressedU16 {v : UInt16} :
    Returns (optimizedReadCompressedU16 b) c v c' ↔ v.toNat < 16384 ∧
      At b.bytes c.offset (shortU16 v.toNat) ∧
      c' = c.moveTo (c.offset + (shortU16 v.toNat).length) := by
  constructor
  · exact minimal_of_optimizedRead
  · rintro ⟨hlt, hat, rfl⟩
    exact optimizedRead_of_minimal hlt hat

theorem safe_optimizedReadCompressedU16 : Safe (optimizedReadCompressedU16 b) c := by
  refine (safe_get c).bind fun s _ _ => ?_
  dsimp only
  cases b.bytes[s.offset]? with
  | none => exact safe_fail
  | some x =>
    dsimp only
    split
    · exact (safe_modify _ _).bind fun _ _ _ => safe_pure _ _
    · cases b.bytes[wrappingAdd s.offset 1]? with
      | none => exact safe_fail
      | some y =>
        dsimp only
        split
        · exact safe_fail
        · exact (safe_modify _ _).bind fun _ _ _ => safe_pure _ _

/-- The cursor moves behind bytes that are there. -/
theorem returns_checkRemaining_moveTo {n : ℕ} {u : Unit} (hc : c.offset ≤ b.len) :
    Returns (do checkRemaining b c.offset n; modify (·.moveTo (wrappingAdd c.offset n))) c u c' ↔
      c.offset + n ≤ b.len ∧ c' = (c.noteCheck c.offset n).moveTo (c.offset + n) := by
  simp only [returns_bind, returns_checkRemaining hc, returns_modify]
  constructor
  · rintro ⟨_, _, ⟨h, rfl⟩, rfl⟩
    exact ⟨h, by rw [wrappingAdd_eq h]⟩
  · rintro ⟨h, rfl⟩
    exact ⟨(), _, ⟨h, rfl⟩, by rw [wrappingAdd_eq h]⟩

theorem returns_advanceOffsetForArray {size : ℕ} {n : UInt16} {u : Unit}
    (hc : c.offset ≤ b.len) (hs : size ≤ 64) :
    Returns (advanceOffsetForArray size b n) c u c' ↔ c.offset + n.toNat * size ≤ b.len ∧
      c' = (c.noteCheck c.offset (n.toNat * size)).moveTo (c.offset + n.toNat * size) := by
  rw [advanceOffsetForArray, returns_get_bind]
  simp only [wrappingMul_eq n hs]
  exact returns_checkRemaining_moveTo hc

theorem safe_advanceOffsetForArray (size : ℕ) (n : UInt16) :
    Safe (advanceOffsetForArray size b n) c :=
  (safe_get c).bind fun _ _ _ => (safe_checkRemaining _ _).bind fun _ _ _ => safe_modify _ _

theorem returns_advanceOffsetForType {size : ℕ} {u : Unit} (hc : c.offset ≤ b.len) :
    Returns (advanceOffsetForType size b) c u c' ↔ c.offset + size ≤ b.len ∧
      c' = (c.noteCheck c.offset size).moveTo (c.offset + size) := by
  rw [advanceOffsetForType, returns_get_bind]
  exact returns_checkRemaining_moveTo hc

theorem safe_advanceOffsetForType (size : ℕ) : Safe (advanceOffsetForType size b) c :=
  (safe_get c).bind fun _ _ _ => (safe_checkRemaining _ _).bind fun _ _ _ => safe_modify _ _

theorem Moves.skip {n : ℕ} (hc : c.offset ≤ b.len) (h : c.offset + n ≤ b.len) :
    Moves b c ((c.noteCheck c.offset n).moveTo (c.offset + n)) n [] := by
  have hm := (Moves.noteCheck hc n).trans (Moves.moveTo (c := c.noteCheck c.offset n) h)
  rwa [Nat.zero_add] at hm

theorem Slice.inside_of_at {o : ℕ} {x : List UInt8} (h : At b.bytes o x) (ho : o ≤ b.len) :
    o + x.length ≤ b.len := h.length_le ho

theorem rawRegion_eq {o : ℕ} {x : List UInt8} (ho : o ≤ b.len) (h : At b.bytes o x) :
    rawRegion b o x.length = .ok x := by
  unfold rawRegion
  rw [if_pos (Slice.inside_of_at h ho), h.take_eq]

theorem rawRegion_sound {o n : ℕ} {x : List UInt8} (h : rawRegion b o n = .ok x) :
    o + n ≤ b.len ∧ x.length = n ∧ At b.bytes o x := by
  unfold rawRegion at h
  split at h
  next hin =>
    cases h
    refine ⟨hin, ?_, List.take_prefix _ _⟩
    rw [List.length_take, List.length_drop]
    unfold Slice.len at hin
    omega
  next => cases h

theorem fromRawParts_eq {size o : ℕ} {vs : List (Vector UInt8 size)} (ho : o ≤ b.len)
    (h : At b.bytes o (vs.flatMap Vector.toList)) :
    fromRawParts size b o vs.length = .ok vs := by
  have hr := rawRegion_eq ho h
  rw [flatMap_toList_length] at hr
  have hv := chunks_flatMap vs []
  rw [List.append_nil] at hv
  simp [fromRawParts, hr, hv, pure, Except.pure]

theorem uncheckedCopyValue_eq (host : Endian) {o : ℕ} {x : List UInt8} (ho : o ≤ b.len)
    (h : At b.bytes o x) : uncheckedCopyValue host x.length b o = .ok (load host x) := by
  simp [uncheckedCopyValue, rawRegion_eq ho h, pure, Except.pure]

theorem exists_vectors {size n o : ℕ} (ho : o ≤ b.len) (h : o + n * size ≤ b.len) :
    ∃ vs : List (Vector UInt8 size), vs.length = n ∧ At b.bytes o (vs.flatMap Vector.toList) := by
  obtain ⟨x, hx, hat⟩ := (exists_at_iff ho).mpr h
  exact ⟨chunks size n x, chunks_length .., by rwa [flatMap_chunks hx]⟩

theorem exists_vector {size o : ℕ} (ho : o ≤ b.len) (h : o + size ≤ b.len) :
    ∃ v : Vector UInt8 size, At b.bytes o v.toList := by
  obtain ⟨x, hx, hat⟩ := (exists_at_iff ho).mpr h
  exact ⟨⟨x.toArray, by simpa using hx⟩, hat⟩

theorem advanceOffsetForArray_sound {size : ℕ} {n : UInt16} {u : Unit} (hs : size ≤ 64)
    (hc : c.offset ≤ b.len) (h : Returns (advanceOffsetForArray size b n) c u c') :
    ∃ vs : List (Vector UInt8 size), vs.length = n.toNat ∧
      At b.bytes c.offset (vs.flatMap Vector.toList) ∧
      Moves b c c' (vs.flatMap Vector.toList).length [] := by
  obtain ⟨hn, rfl⟩ := (returns_advanceOffsetForArray hc hs).mp h
  obtain ⟨vs, hvs, hat⟩ := exists_vectors hc hn
  exact ⟨vs, hvs, hat, by rw [flatMap_toList_length, hvs]; exact Moves.skip hc hn⟩

theorem advanceOffsetForArray_complete {size : ℕ} {n : UInt16} (hs : size ≤ 64)
    (hc : c.offset ≤ b.len) {x : List UInt8} (hn : x.length = n.toNat * size)
    (h : At b.bytes c.offset x) : ∃ c', Returns (advanceOffsetForArray size b n) c () c' ∧
      c'.offset = c.offset + x.length := by
  have hi := Slice.inside_of_at h hc
  rw [hn] at hi ⊢
  exact ⟨_, (returns_advanceOffsetForArray hc hs).mpr ⟨hi, rfl⟩, rfl⟩

theorem advanceBytes_sound {n : UInt16} {u : Unit} (hc : c.offset ≤ b.len)
    (h : Returns (advanceOffsetForArray 1 b n) c u c') :
    ∃ x : List UInt8, x.length = n.toNat ∧ At b.bytes c.offset x ∧ Moves b c c' x.length [] := by
  obtain ⟨hn, rfl⟩ := (returns_advanceOffsetForArray hc (by decide)).mp h
  obtain ⟨x, hx, hat⟩ := (exists_at_iff hc).mpr hn
  exact ⟨x, by simpa using hx, hat, by rw [hx]; exact Moves.skip hc hn⟩

theorem advanceOffsetForType_sound {size : ℕ} {u : Unit} (hc : c.offset ≤ b.len)
    (h : Returns (advanceOffsetForType size b) c u c') :
    ∃ v : Vector UInt8 size, At b.bytes c.offset v.toList ∧ Moves b c c' v.toList.length [] := by
  obtain ⟨hn, rfl⟩ := (returns_advanceOffsetForType hc).mp h
  obtain ⟨v, hat⟩ := exists_vector hc hn
  exact ⟨v, hat, by rw [Vector.length_toList]; exact Moves.skip hc hn⟩

theorem advanceOffsetForType_complete {size : ℕ} (hc : c.offset ≤ b.len)
    {v : Vector UInt8 size} (h : At b.bytes c.offset v.toList) :
    ∃ c', Returns (advanceOffsetForType size b) c () c' ∧
      c'.offset = c.offset + v.toList.length := by
  have hi := Slice.inside_of_at h hc
  rw [Vector.length_toList] at hi ⊢
  exact ⟨_, (returns_advanceOffsetForType hc).mpr ⟨hi, rfl⟩, rfl⟩

theorem readByte_sound {v : UInt8} (hc : c.offset ≤ b.len) (h : Returns (readByte b) c v c') :
    At b.bytes c.offset [v] ∧ Moves b c c' 1 [] := by
  obtain ⟨hat, rfl⟩ := returns_readByte.mp h
  exact ⟨hat, Moves.moveTo (Slice.inside_of_at hat hc)⟩

theorem readByte_complete {v : UInt8} (h : At b.bytes c.offset [v]) :
    ∃ c', Returns (readByte b) c v c' ∧ c'.offset = c.offset + 1 :=
  ⟨_, returns_readByte.mpr ⟨h, rfl⟩, rfl⟩

theorem uncheckedReadByte_sound {v : UInt8} (hc : c.offset ≤ b.len)
    (h : Returns (uncheckedReadByte b) c v c') : At b.bytes c.offset [v] ∧ Moves b c c' 1 [] := by
  obtain ⟨hat, rfl⟩ := returns_uncheckedReadByte.mp h
  exact ⟨hat, Moves.moveTo (Slice.inside_of_at hat hc)⟩

/-- Skipping bytes that an earlier check has found. -/
theorem Moves.skipUnchecked {n : ℕ} (h : c.offset + n ≤ b.len) :
    Moves b c (c.moveTo (wrappingAdd c.offset n)) n [] := by
  rw [wrappingAdd_eq h]
  exact Moves.moveTo h

theorem uncheckedCopyValue_sound {host : Endian} {size o v : ℕ}
    (h : uncheckedCopyValue host size b o = .ok v) :
    v < 256 ^ size ∧ At b.bytes o (hostBytes host size v) := by
  obtain ⟨x, hx, hv⟩ := outcome_bind_ok.mp h
  obtain ⟨-, rfl, hat⟩ := rawRegion_sound hx
  cases hv
  exact ⟨load_lt host x, by rwa [hostBytes_load]⟩

theorem compressedU16_sound {v : UInt16} (hc : c.offset ≤ b.len)
    (h : Returns (optimizedReadCompressedU16 b) c v c') : v.toNat < 16384 ∧
      At b.bytes c.offset (shortU16 v.toNat) ∧ Moves b c c' (shortU16 v.toNat).length [] := by
  obtain ⟨hlt, hat, rfl⟩ := returns_optimizedReadCompressedU16.mp h
  exact ⟨hlt, hat, Moves.moveTo (Slice.inside_of_at hat hc)⟩

theorem compressedU16_complete {n : ℕ} (hn : n < 16384) (h : At b.bytes c.offset (shortU16 n)) :
    Returns (optimizedReadCompressedU16 b) c (UInt16.ofNat n)
      (c.moveTo (c.offset + (shortU16 n).length)) := by
  have hv : (UInt16.ofNat n).toNat = n := UInt16.toNat_ofNat_of_lt (by
    change n < 65536; omega)
  exact returns_optimizedReadCompressedU16.mpr (by rw [hv]; exact ⟨hn, h, rfl⟩)

theorem uncheckedReadSliceData_complete {n : UInt16} {x : List UInt8} (hc : c.offset ≤ b.len)
    (hn : x.length = n.toNat) (h : At b.bytes c.offset x) :
    Returns (uncheckedReadSliceData b n) c x (c.moveTo (c.offset + x.length)) := by
  have hr := rawRegion_eq hc h
  have hw := wrappingAdd_eq (Slice.inside_of_at h hc)
  rw [hn] at hr hw
  rw [uncheckedReadSliceData, returns_get_bind]
  simp only [returns_bind, pointerAt, returns_failIf, returns_modify, returns_ofOutcome,
    wrappingMul_eq n (show 1 ≤ 64 by decide), Nat.mul_one, hr, hw, hn]
  exact ⟨(), c, ⟨by omega, rfl⟩, (), _, rfl, trivial, rfl⟩

theorem readSliceData_complete {n : UInt16} {x : List UInt8} (hc : c.offset ≤ b.len)
    (hn : x.length = n.toNat) (h : At b.bytes c.offset x) :
    ∃ c', Returns (readSliceData b n) c x c' ∧ c'.offset = c.offset + x.length := by
  have hr := rawRegion_eq hc h
  rw [hn] at hr
  obtain ⟨c', ha, ho⟩ := advanceOffsetForArray_complete (n := n) (show 1 ≤ 64 by decide) hc
    (by rw [hn, Nat.mul_one]) h
  refine ⟨c', ?_, ho⟩
  rw [readSliceData, returns_get_bind]
  simp only [returns_bind, pointerAt, returns_failIf, returns_ofOutcome, hr]
  exact ⟨(), c, ⟨by omega, rfl⟩, (), c', ha, trivial, rfl⟩

theorem readType_complete {size : ℕ} {v : Vector UInt8 size} (hc : c.offset ≤ b.len)
    (h : At b.bytes c.offset v.toList) :
    ∃ c', Returns (readType size b) c v c' ∧ c'.offset = c.offset + v.toList.length := by
  have hr := rawRegion_eq hc h
  rw [Vector.length_toList] at hr
  obtain ⟨c', ha, ho⟩ := advanceOffsetForType_complete hc h
  refine ⟨c', ?_, ho⟩
  have hv := ofFn_getD_toList v []
  rw [List.append_nil] at hv
  rw [readType, returns_get_bind]
  simp only [returns_bind, pointerAt, returns_failIf, returns_ofOutcome, returns_pure, hr]
  exact ⟨(), c, ⟨by omega, rfl⟩, (), c', ha, _, _, ⟨rfl, rfl⟩, hv, rfl⟩

/-- A compact count and then that many bytes. -/
def counted (x : List UInt8) : List UInt8 := shortU16 x.length ++ x

theorem counted_length (x : List UInt8) :
    (counted x).length = (shortU16 x.length).length + x.length := List.length_append

theorem ofNat_length_toNat {x : List UInt8} (h : x.length < 16384) :
    (UInt16.ofNat x.length).toNat = x.length := UInt16.toNat_ofNat_of_lt (h.trans (by decide))

theorem counted_sound {n : UInt16} {c₁ : Cursor} {u : Unit} (hc : c.offset ≤ b.len)
    (h₁ : Returns (optimizedReadCompressedU16 b) c n c₁)
    (h₂ : Returns (advanceOffsetForArray 1 b n) c₁ u c') :
    ∃ x : List UInt8, n = UInt16.ofNat x.length ∧ x.length < 16384 ∧
      At b.bytes c.offset (counted x) ∧ c₁.offset = c.offset + (shortU16 x.length).length ∧
      Moves b c c' (counted x).length [] := by
  obtain ⟨hlt, hat₁, hm₁⟩ := compressedU16_sound hc h₁
  obtain ⟨x, hx, hat₂, hm₂⟩ := advanceBytes_sound hm₁.inside h₂
  have ho := hm₁.offset
  rw [← hx] at hlt hat₁ ho
  refine ⟨x, by rw [hx, UInt16.ofNat_toNat], hlt, at_append.mpr ⟨hat₁, by rwa [← ho]⟩, ho, ?_⟩
  exact (hm₁.trans hm₂).congr (by rw [counted_length, hx]) rfl

theorem counted_complete {x : List UInt8} (hx : x.length < 16384) (hc : c.offset ≤ b.len)
    (h : At b.bytes c.offset (counted x)) :
    ∃ c₁ c', Returns (optimizedReadCompressedU16 b) c (UInt16.ofNat x.length) c₁ ∧
      c₁.offset = c.offset + (shortU16 x.length).length ∧
      Returns (advanceOffsetForArray 1 b (UInt16.ofNat x.length)) c₁ () c' ∧
      c'.offset = c.offset + (counted x).length := by
  obtain ⟨hat₁, hat₂⟩ := at_append.mp h
  have hn := ofNat_length_toNat hx
  obtain ⟨c', h₂, ho⟩ := advanceOffsetForArray_complete (n := UInt16.ofNat x.length)
    (show 1 ≤ 64 by decide) (c := c.moveTo (c.offset + (shortU16 x.length).length))
    (Slice.inside_of_at hat₁ hc) (by rw [hn, Nat.mul_one]) hat₂
  refine ⟨_, c', compressedU16_complete hx hat₁, rfl, h₂, ?_⟩
  rw [ho, Cursor.moveTo_offset, counted_length, Nat.add_assoc]

theorem readCounted_complete {x : List UInt8} (hx : x.length < 16384) (hc : c.offset ≤ b.len)
    (h : At b.bytes c.offset (counted x)) :
    ∃ c₁ c', Returns (optimizedReadCompressedU16 b) c (UInt16.ofNat x.length) c₁ ∧
      Returns (readSliceData b (UInt16.ofNat x.length)) c₁ x c' ∧
      c'.offset = c.offset + (counted x).length := by
  obtain ⟨hat₁, hat₂⟩ := at_append.mp h
  obtain ⟨c', h₂, ho⟩ := readSliceData_complete
    (c := c.moveTo (c.offset + (shortU16 x.length).length)) (Slice.inside_of_at hat₁ hc)
    (ofNat_length_toNat hx).symm hat₂
  refine ⟨_, c', compressedU16_complete hx hat₁, h₂, ?_⟩
  rw [ho, Cursor.moveTo_offset, counted_length, Nat.add_assoc]

end AgaveSdk.TxView
