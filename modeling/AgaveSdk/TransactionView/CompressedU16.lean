import AgaveSdk.TransactionView.Reading

/-! The two readers of compact-u16 lengths: both accept minimal encodings and nothing else. -/
namespace AgaveSdk.TxView
open FallibleState Segments

variable {b : Slice} {c c' : Cursor} {v : UInt16}

theorem shortU16_length (n : ℕ) :
    (shortU16 n).length = if n < 128 then 1 else if n < 16384 then 2 else 3 := by
  unfold shortU16
  split
  · rfl
  · split <;> rfl

/-- Seven bits are written first, and the other bits as a number of their own follow. -/
theorem shortU16_of_ge {n : ℕ} (h : 128 ≤ n) (hlt : n < 2 ^ 21) :
    shortU16 n = UInt8.ofNat (n % 128 + 128) :: shortU16 (n / 128) := by
  unfold shortU16
  rw [if_neg (by omega)]
  by_cases h₂ : n < 16384
  · rw [if_pos h₂, if_pos (by omega)]
  · rw [if_neg h₂, if_neg (by omega), if_pos (by omega), Nat.div_div_eq_div_mul]

theorem shortU16_of_low {x : UInt8} (hx : x.toNat < 128) : shortU16 x.toNat = [x] := by
  rw [shortU16_of_lt hx, UInt8.ofNat_toNat]

/-- A byte with the high bit set in front of a number other than zero. -/
theorem shortU16_of_high {x : UInt8} {m : ℕ} (hx : 128 ≤ x.toNat) (hm : 0 < m) (hlt : m < 2 ^ 14) :
    shortU16 (x.toNat - 128 + 128 * m) = x :: shortU16 m := by
  have hx' := x.toNat_lt
  rw [shortU16_of_ge (by omega) (by omega)]
  have hlow : (x.toNat - 128 + 128 * m) % 128 + 128 = x.toNat := by omega
  have hhigh : (x.toNat - 128 + 128 * m) / 128 = m := by omega
  rw [hlow, hhigh, UInt8.ofNat_toNat]

/-- The bits of one round land above those of the rounds before it. -/
theorem or_shift_toNat_of_lt {r s : UInt16} {x : UInt8} {i : ℕ} (hi : i ≤ 2) (hs : s.toNat = 7 * i)
    (hr : r.toNat < 128 ^ i) (hx : 128 ^ i * (x.toNat % 128) < 2 ^ 16) :
    (r ||| ((x &&& 0x7F).toUInt16 <<< s)).toNat = r.toNat + 128 ^ i * (x.toNat % 128) := by
  have hpow : (128 : ℕ) ^ i = 2 ^ (7 * i) := (pow_mul 2 7 i).symm
  have hshift : ((x &&& 0x7F).toUInt16 <<< s).toNat = 2 ^ (7 * i) * (x.toNat % 128) := by
    rw [UInt16.toNat_shiftLeft, low_bits_toNat, hs, Nat.mod_eq_of_lt (by omega : 7 * i < 16),
      Nat.shiftLeft_eq, Nat.mul_comm, Nat.mod_eq_of_lt (by rwa [← hpow])]
  rw [UInt16.toNat_or, hshift, Nat.or_comm, ← Nat.two_pow_add_eq_or_of_lt (by rwa [← hpow]), hpow]
  exact Nat.add_comm _ _

/-- One round: it reads a byte, and either this byte ends the number or the next round goes on. -/
theorem returns_readCompressedU16From_succ {offset rounds i : ℕ} {r s : UInt16} :
    Returns (readCompressedU16From b offset (rounds + 1) i r s) c v c' ↔
      ∃ x, b.bytes[wrappingAdd offset i]? = some x ∧ (0 < i → 0 < x.toNat) ∧
        (i = 2 → x.toNat ≤ 3) ∧
        ((x.toNat < 128 ∧ r ||| ((x &&& 0x7F).toUInt16 <<< s) = v ∧
            c' = c.moveTo (wrappingAdd (wrappingAdd offset i) 1)) ∨
          (128 ≤ x.toNat ∧ Returns (readCompressedU16From b offset rounds (i + 1)
            (r ||| ((x &&& 0x7F).toUInt16 <<< s)) (s + 7)) c v c')) := by
  rw [readCompressedU16From]
  rcases hx : b.bytes[wrappingAdd offset i]? with _ | x
  · simp
  have hzero : x = 0 ↔ x.toNat = 0 := UInt8.toNat_inj.symm
  have hthree : x > 3 ↔ 3 < x.toNat := UInt8.lt_iff_toNat_lt
  simp only [Option.some.injEq, exists_eq_left', hzero, hthree, and_high_bit]
  by_cases hbad : (0 < i ∧ x.toNat = 0) ∨ (i = 2 ∧ 3 < x.toNat)
  · rw [if_pos hbad]
    simp only [returns_fail, false_iff]
    rintro ⟨h₁, h₂, -⟩
    omega
  · rw [if_neg hbad]
    have h₁ : 0 < i → 0 < x.toNat := by omega
    have h₂ : i = 2 → x.toNat ≤ 3 := by omega
    by_cases hlow : x.toNat < 128
    · simp only [hlow, ↓reduceIte, returns_modify_bind, returns_pure, true_and,
        not_le.mpr hlow, false_and, or_false, eq_comm]
      exact ⟨fun h => ⟨h₁, h₂, h⟩, fun h => h.2.2⟩
    · simp only [hlow, ↓reduceIte, false_and, false_or, not_lt.mp hlow, true_and]
      exact ⟨fun h => ⟨h₁, h₂, h⟩, fun h => h.2.2⟩

/-- The bits of the value from round `i` on stand minimally encoded at the byte of that round, and
the cursor moves behind them. The rounds before it gave `r`. -/
def EncodedFrom (b : Slice) (c : Cursor) (offset i r : ℕ) (v : UInt16) (c' : Cursor) : Prop :=
  ∃ m, (0 < i → 0 < m) ∧ v.toNat = r + 128 ^ i * m ∧ At b.bytes (offset + i) (shortU16 m) ∧
    c' = c.moveTo (offset + i + (shortU16 m).length)

theorem EncodedFrom.of_low {offset i r : ℕ} {x : UInt8} (hx : b.bytes[offset + i]? = some x)
    (hlow : x.toNat < 128) (hpos : 0 < i → 0 < x.toNat) (hv : v.toNat = r + 128 ^ i * x.toNat) :
    EncodedFrom b c offset i r v (c.moveTo (offset + i + 1)) := by
  refine ⟨x.toNat, hpos, hv, ?_, ?_⟩
  · rw [shortU16_of_low hlow]
    exact at_singleton.mpr hx
  · rw [shortU16_of_low hlow]
    rfl

theorem EncodedFrom.of_high {offset i r : ℕ} {x : UInt8} (hx : b.bytes[offset + i]? = some x)
    (hhigh : 128 ≤ x.toNat)
    (h : EncodedFrom b c offset (i + 1) (r + 128 ^ i * (x.toNat % 128)) v c') :
    EncodedFrom b c offset i r v c' := by
  obtain ⟨m, hm, hv, hat, rfl⟩ := h
  replace hm := hm (Nat.succ_pos i)
  have hx' := x.toNat_lt
  have hv' := v.toNat_lt
  rw [pow_succ, Nat.mul_assoc] at hv
  have hle : 128 * m ≤ 128 ^ i * (128 * m) := Nat.le_mul_of_pos_left _ (Nat.pow_pos (by decide))
  have henc : shortU16 (x.toNat - 128 + 128 * m) = x :: shortU16 m :=
    shortU16_of_high hhigh hm (by omega)
  refine ⟨x.toNat - 128 + 128 * m, fun _ => by omega, ?_, ?_, ?_⟩
  · rw [hv, Nat.mul_add, Nat.add_assoc, show x.toNat % 128 = x.toNat - 128 by omega]
  · rw [henc]
    exact at_cons.mpr ⟨hx, hat⟩
  · rw [henc, List.length_cons]
    exact congrArg c.moveTo (by omega)

/-- One round of the encoding: a byte that ends the value, or one in front of the next round. -/
theorem encodedFrom_iff {offset i r : ℕ} :
    EncodedFrom b c offset i r v c' ↔
      ∃ x, b.bytes[offset + i]? = some x ∧ (0 < i → 0 < x.toNat) ∧ (i = 2 → x.toNat ≤ 3) ∧
        ((x.toNat < 128 ∧ v.toNat = r + 128 ^ i * x.toNat ∧ c' = c.moveTo (offset + i + 1)) ∨
          (128 ≤ x.toNat ∧
            EncodedFrom b c offset (i + 1) (r + 128 ^ i * (x.toNat % 128)) v c')) := by
  constructor
  · rintro ⟨m, hpos, hv, hat, rfl⟩
    have hv' := v.toNat_lt
    have hle : m ≤ 128 ^ i * m := Nat.le_mul_of_pos_left _ (Nat.pow_pos (by decide))
    have hthree : i = 2 → m ≤ 3 := by
      rintro rfl
      omega
    by_cases hlow : m < 128
    · have hm : (UInt8.ofNat m).toNat = m := by
        rw [UInt8.toNat_ofNat']
        omega
      rw [shortU16_of_lt hlow] at hat ⊢
      exact ⟨UInt8.ofNat m, at_singleton.mp hat, by rwa [hm], by rwa [hm],
        .inl ⟨by rwa [hm], by rwa [hm], rfl⟩⟩
    · have hm : (UInt8.ofNat (m % 128 + 128)).toNat = m % 128 + 128 := by
        rw [UInt8.toNat_ofNat']
        omega
      have henc := shortU16_of_ge (n := m) (by omega) (by omega)
      rw [henc] at hat ⊢
      obtain ⟨hx, hrest⟩ := at_cons.mp hat
      refine ⟨_, hx, fun _ => by omega, fun h => by have := hthree h; omega, .inr ⟨by omega, ?_⟩⟩
      refine ⟨m / 128, fun _ => by omega, ?_, hrest, ?_⟩
      · rw [hm, hv, pow_succ, Nat.add_assoc, Nat.mul_assoc, ← Nat.mul_add,
          show (m % 128 + 128) % 128 + 128 * (m / 128) = m by omega]
      · rw [List.length_cons]
        exact congrArg c.moveTo (by omega)
  · rintro ⟨x, hx, hpos, -, ⟨hlow, hv, rfl⟩ | ⟨hhigh, hrest⟩⟩
    · exact .of_low hx hlow hpos hv
    · exact .of_high hx hhigh hrest

/-- What a round reads fits into the value. -/
theorem round_lt {i : ℕ} {x : UInt8} (hi : i ≤ 2) (hthree : i = 2 → x.toNat ≤ 3) :
    128 ^ i * (x.toNat % 128) < 2 ^ 16 := by
  obtain rfl | rfl | rfl : i = 0 ∨ i = 1 ∨ i = 2 := by omega
  · omega
  · omega
  · have := hthree rfl
    omega

theorem add_round_lt {i r : ℕ} (hr : r < 128 ^ i) (n : ℕ) :
    r + 128 ^ i * (n % 128) < 128 ^ (i + 1) := by
  have hlt : n % 128 + 1 ≤ 128 := Nat.mod_lt n (by decide)
  calc r + 128 ^ i * (n % 128) < 128 ^ i + 128 ^ i * (n % 128) := Nat.add_lt_add_right hr _
    _ = 128 ^ i * (n % 128 + 1) := by rw [Nat.mul_succ, Nat.add_comm]
    _ ≤ 128 ^ i * 128 := Nat.mul_le_mul_left _ hlt
    _ = 128 ^ (i + 1) := (pow_succ _ _).symm

/-- The loop goes through the encoding round by round. -/
theorem returns_readCompressedU16From {offset rounds i : ℕ} {r s : UInt16} (hi : i + rounds = 2)
    (hs : s.toNat = 7 * i) (hr : r.toNat < 128 ^ i) (hw : wrappingAdd offset i = offset + i) :
    Returns (readCompressedU16From b offset (rounds + 1) i r s) c v c' ↔
      EncodedFrom b c offset i r.toNat v c' := by
  induction rounds using Nat.strongRecOn generalizing i r s with
  | ind rounds ih =>
    rw [returns_readCompressedU16From_succ, encodedFrom_iff, hw]
    refine exists_congr fun x => and_congr_right fun hx => and_congr_right fun _ =>
      and_congr_right fun hthree => ?_
    have hsum := or_shift_toNat_of_lt (x := x) (by omega) hs hr (round_lt (by omega) hthree)
    refine or_congr (and_congr_right fun hlow => ?_) (and_congr_right fun hhigh => ?_)
    · rw [← UInt16.toNat_inj, hsum, Nat.mod_eq_of_lt hlow, wrappingAdd_eq (get?_lt hx), eq_comm]
    · -- The last round has no high byte, so this is not the last one.
      obtain ⟨n, rfl⟩ : ∃ n, rounds = n + 1 := ⟨1 - i, by omega⟩
      have hs' : (s + 7).toNat = 7 * (i + 1) := by
        rw [UInt16.toNat_add, hs]
        change (7 * i + 7) % 2 ^ 16 = _
        omega
      have hr' := add_round_lt hr x.toNat
      rw [← hsum] at hr'
      rw [ih n n.lt_succ_self (by omega) hs' hr' (wrappingAdd_eq (get?_lt hx)), hsum]

/-- The plain reader accepts exactly the minimal encodings. -/
theorem returns_readCompressedU16 (hc : c.offset < usizeRange) :
    Returns (readCompressedU16 b) c v c' ↔ At b.bytes c.offset (shortU16 v.toNat) ∧
      c' = c.moveTo (c.offset + (shortU16 v.toNat).length) := by
  rw [readCompressedU16, returns_get_bind, returns_readCompressedU16From rfl rfl (by decide)
    (Nat.mod_eq_of_lt hc)]
  constructor
  · rintro ⟨m, -, hv, hat, rfl⟩
    rw [UInt16.toNat_zero, pow_zero, Nat.one_mul, Nat.zero_add] at hv
    rw [hv]
    exact ⟨hat, rfl⟩
  · rintro ⟨hat, rfl⟩
    exact ⟨v.toNat, fun h => absurd h (lt_irrefl 0), by simp, hat, rfl⟩

/-- A reader that returns, or reports the parse error and has not moved. -/
def ReturnsOrStays (x : Reader UInt16) (c : Cursor) : Prop :=
  (∃ v c', Returns x c v c') ∨ exec x c = (.error (.err .parseError), c)

theorem returnsOrStays_fail : ReturnsOrStays fail c := .inr rfl

theorem returnsOrStays_moveTo (o : ℕ) (v : UInt16) :
    ReturnsOrStays (do modify (·.moveTo o); return v) c := .inl ⟨v, c.moveTo o, rfl⟩

theorem returnsOrStays_get_bind {f : Cursor → Reader UInt16} (h : ReturnsOrStays (f c) c) :
    ReturnsOrStays (get >>= f) c := by
  rcases h with ⟨v, c', h⟩ | h
  · exact .inl ⟨v, c', returns_get_bind.mpr h⟩
  · refine .inr ?_
    rw [exec_bind, exec_get]
    exact h

theorem optimizedReadCompressedU16_stays : ReturnsOrStays (optimizedReadCompressedU16 b) c := by
  apply returnsOrStays_get_bind
  dsimp only
  cases b.bytes[c.offset]? with
  | none => exact returnsOrStays_fail
  | some x =>
    dsimp only
    split
    · exact returnsOrStays_moveTo _ _
    · cases b.bytes[wrappingAdd c.offset 1]? with
      | none => exact returnsOrStays_fail
      | some y =>
        dsimp only
        split
        · exact returnsOrStays_fail
        · exact returnsOrStays_moveTo _ _

theorem readCompressedU16From_stays (offset rounds i : ℕ) (r s : UInt16) :
    ReturnsOrStays (readCompressedU16From b offset rounds i r s) c := by
  induction rounds generalizing i r s with
  | zero => exact returnsOrStays_moveTo _ _
  | succ rounds ih =>
    rw [readCompressedU16From]
    cases b.bytes[wrappingAdd offset i]? with
    | none => exact returnsOrStays_fail
    | some x =>
      dsimp only
      split
      · exact returnsOrStays_fail
      · split
        · exact returnsOrStays_moveTo _ _
        · exact ih _ _ _

theorem readCompressedU16_stays : ReturnsOrStays (readCompressedU16 b) c :=
  returnsOrStays_get_bind (readCompressedU16From_stays c.offset 3 0 0 0)

theorem ReturnsOrStays.of_not_returns {x : Reader UInt16} (h : ReturnsOrStays x c)
    (hnot : ¬ ∃ v c', Returns x c v c') : exec x c = (.error (.err .parseError), c) :=
  h.resolve_left hnot

/-- The optimized reader is the plain one below 16384, and both accept minimal encodings only. -/
theorem compressedU16_readers_agree (b : Slice) (c : Cursor) (hc : c.offset < usizeRange) :
    (∀ v c', Returns (optimizedReadCompressedU16 b) c v c' ↔
      Returns (readCompressedU16 b) c v c' ∧ v.toNat < 16384) ∧
    ((¬ ∃ v c', Returns (readCompressedU16 b) c v c' ∧ v.toNat < 16384) →
      exec (optimizedReadCompressedU16 b) c = (.error (.err .parseError), c)) ∧
    (∀ v c', Returns (readCompressedU16 b) c v c' ↔
      shortU16 v.toNat <+: b.bytes.drop c.offset ∧
        c' = c.moveTo (c.offset + (shortU16 v.toNat).length)) ∧
    ((¬ ∃ v c', Returns (readCompressedU16 b) c v c') →
      exec (readCompressedU16 b) c = (.error (.err .parseError), c)) ∧
    (∀ v : UInt16, (shortU16 v.toNat).length =
      if v.toNat < 128 then 1 else if v.toNat < 16384 then 2 else 3) ∧
    (∀ (v : UInt16) before after, b.bytes = before ++ shortU16 v.toNat ++ after →
      c.offset = before.length →
      Returns (readCompressedU16 b) c v (c.moveTo (before ++ shortU16 v.toNat).length)) ∧
    ∀ v c', Returns (readCompressedU16 b) c v c' →
      (b.bytes.drop c.offset).take (c'.offset - c.offset) = shortU16 v.toNat := by
  have hoptimized : ∀ v c', Returns (optimizedReadCompressedU16 b) c v c' ↔
      Returns (readCompressedU16 b) c v c' ∧ v.toNat < 16384 := by
    intro v c'
    rw [returns_optimizedReadCompressedU16, returns_readCompressedU16 hc]
    exact and_comm
  refine ⟨hoptimized, ?_, fun v c' => returns_readCompressedU16 hc,
    readCompressedU16_stays.of_not_returns, fun v => shortU16_length v.toNat, ?_, ?_⟩
  · intro hnot
    apply optimizedReadCompressedU16_stays.of_not_returns
    rintro ⟨v, c', h⟩
    exact hnot ⟨v, c', (hoptimized v c').mp h⟩
  · intro v before after hbytes hoffset
    rw [returns_readCompressedU16 hc, hbytes, hoffset, List.length_append]
    exact ⟨at_length_append before _ after, rfl⟩
  · intro v c' h
    obtain ⟨hat, rfl⟩ := (returns_readCompressedU16 hc).mp h
    rw [Cursor.moveTo_offset, Nat.add_sub_cancel_left]
    exact hat.take_eq

theorem compressedU16_readers_agree_three_bytes :
    Returns (readCompressedU16 ⟨[0xFF, 0xFF, 0x03], by decide⟩) ⟨0, [], []⟩ 65535 ⟨3, [], []⟩ := by
  refine ((compressedU16_readers_agree ⟨[0xFF, 0xFF, 0x03], by decide⟩ ⟨0, [], []⟩
    (by decide)).2.2.1 65535 _).mpr ⟨?_, ?_⟩
  · decide
  · rfl

end AgaveSdk.TxView
