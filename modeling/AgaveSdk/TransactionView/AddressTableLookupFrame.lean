import AgaveSdk.TransactionView.LeadingFrames
import AgaveSdk.Library.Draining
import Mathlib.Algebra.BigOperators.Group.List.Basic

/-! Address table lookups: the frame, the iterator, and the wire form both agree on. -/
namespace AgaveSdk.TxView
open FallibleState Segments Draining

/-- A decoded address table lookup. -/
structure SVMMessageAddressTableLookup where
  accountKey : Pubkey
  writableIndexes : List UInt8
  readonlyIndexes : List UInt8
  deriving DecidableEq, Repr

/-- A key, two counts and at least one index. -/
def minSizedAtl : ℕ := 32 + 1 + 1 + 1

def minSizedPacketWithAtls : ℕ := 1 + 64 + 1 + 3 + 1 + 32 + 32 + 1 + 1

def maxAtlsPerPacket : UInt8 :=
  UInt8.ofNat ((packetDataSize - minSizedPacketWithAtls) / minSizedAtl)

structure AddressTableLookupFrame where
  numAddressTableLookups : UInt8
  offset : UInt16
  totalWritableLookupAccounts : UInt16
  totalReadonlyLookupAccounts : UInt16
  deriving DecidableEq, Repr

namespace AddressTableLookupFrame

/-- The frame of a message without lookups. -/
def empty : AddressTableLookupFrame := ⟨0, 0, 0, 0⟩

/-- Walks over `n` lookups and adds up their index counts in `u32` totals. -/
def countAccounts (bytes : Slice) : ℕ → UInt32 → UInt32 → Reader (UInt32 × UInt32)
  | 0, totalWritable, totalReadonly => return (totalWritable, totalReadonly)
  | n + 1, totalWritable, totalReadonly => do
      advanceOffsetForType 32 bytes
      let numWriteAccounts ← optimizedReadCompressedU16 bytes
      let totalWritable := totalWritable + numWriteAccounts.toUInt32
      advanceOffsetForArray 1 bytes numWriteAccounts
      let numReadAccounts ← optimizedReadCompressedU16 bytes
      let totalReadonly := totalReadonly + numReadAccounts.toUInt32
      advanceOffsetForArray 1 bytes numReadAccounts
      countAccounts bytes n totalWritable totalReadonly

def tryNew (bytes : Slice) : Reader AddressTableLookupFrame := do
  let numAddressTableLookups ← readByte bytes
  rejectIf (numAddressTableLookups > maxAtlsPerPacket) .parseError
  checkRemaining bytes (← get).offset (wrappingMul minSizedAtl numAddressTableLookups.toNat)
  let addressTableLookupsOffset ← offsetAsU16 .addressTableLookups (← get).offset
  let totals ← countAccounts bytes numAddressTableLookups.toNat 0 0
  rejectIf (2 ^ 16 ≤ totals.1.toNat) .sanitizeError
  rejectIf (2 ^ 16 ≤ totals.2.toNat) .sanitizeError
  return ⟨numAddressTableLookups, addressTableLookupsOffset, totals.1.toUInt16, totals.2.toUInt16⟩

end AddressTableLookupFrame

structure AddressTableLookupIterator where
  bytes : Slice
  offset : ℕ
  numAddressTableLookups : UInt8
  index : UInt8
  deriving DecidableEq, Repr

namespace AddressTableLookupIterator

def read (bytes : Slice) : Reader SVMMessageAddressTableLookup := do
  let accountKey ← readType 32 bytes
  let numWriteAccounts ← optimizedReadCompressedU16 bytes
  let writableIndexes ← readSliceData bytes numWriteAccounts
  let numReadAccounts ← optimizedReadCompressedU16 bytes
  let readonlyIndexes ← readSliceData bytes numReadAccounts
  return ⟨accountKey, writableIndexes, readonlyIndexes⟩

/-- A reader error ends the iteration. The index has moved on by then. -/
def next (it : AddressTableLookupIterator) :
    Outcome TransactionViewError
      (Option SVMMessageAddressTableLookup × AddressTableLookupIterator) :=
  if it.index < it.numAddressTableLookups then
    let run := exec (read it.bytes) { offset := it.offset }
    let rest := { it with index := it.index + 1, offset := run.2.offset }
    match run.1 with
    | .ok lookup => return (some lookup, rest)
    | .error (.err _) => return (none, rest)
    | .error (.fault f) => throw (.fault f)
  else return (none, it)

def len (it : AddressTableLookupIterator) : ℕ := (it.numAddressTableLookups - it.index).toNat

/-- The items of the iterator driven to exhaustion. -/
def collect (it : AddressTableLookupIterator) :
    Outcome TransactionViewError (List SVMMessageAddressTableLookup) :=
  Draining.collect next (it.len + 1) it

end AddressTableLookupIterator

namespace SVMMessageAddressTableLookup

def encode (lookup : SVMMessageAddressTableLookup) : List UInt8 :=
  lookup.accountKey.toList ++ counted lookup.writableIndexes ++ counted lookup.readonlyIndexes

/-- Both counts take at most two bytes. -/
def Compact (lookup : SVMMessageAddressTableLookup) : Prop :=
  lookup.writableIndexes.length < 16384 ∧ lookup.readonlyIndexes.length < 16384

instance (lookup : SVMMessageAddressTableLookup) : Decidable lookup.Compact :=
  inferInstanceAs (Decidable (_ ∧ _))

end SVMMessageAddressTableLookup

def totalWritable (lookups : List SVMMessageAddressTableLookup) : ℕ :=
  (lookups.map fun l => l.writableIndexes.length).sum

def totalReadonly (lookups : List SVMMessageAddressTableLookup) : ℕ :=
  (lookups.map fun l => l.readonlyIndexes.length).sum

/-- The counted lookups of a v0 message. -/
def encodeLookups (lookups : List SVMMessageAddressTableLookup) : List UInt8 :=
  shortU16 lookups.length ++ lookups.flatMap SVMMessageAddressTableLookup.encode

/-- A lookup takes its key, two counts and its indexes. -/
theorem totals_add_le (lookups : List SVMMessageAddressTableLookup) :
    totalWritable lookups + totalReadonly lookups + 34 * lookups.length ≤
      (lookups.flatMap SVMMessageAddressTableLookup.encode).length := by
  induction lookups with
  | nil => simp [totalWritable, totalReadonly]
  | cons l lookups ih =>
    have hw := shortU16_length_pos l.writableIndexes.length
    have hr := shortU16_length_pos l.readonlyIndexes.length
    have hk : l.accountKey.toList.length = 32 := by simp
    simp only [totalWritable, totalReadonly, List.map_cons, List.sum_cons, List.flatMap_cons,
      List.length_append, List.length_cons, SVMMessageAddressTableLookup.encode, counted, hk]
      at ih ⊢
    omega

variable {b : Slice} {c c' : Cursor}

namespace AddressTableLookupFrame

def ofLookups (lookups : List SVMMessageAddressTableLookup) (offset : ℕ) :
    AddressTableLookupFrame :=
  ⟨UInt8.ofNat lookups.length, UInt16.ofNat (offset + 1), UInt16.ofNat (totalWritable lookups),
    UInt16.ofNat (totalReadonly lookups)⟩

theorem ofNat_add_total {x : List UInt8} (hx : x.length < 16384) (t : UInt32) (n : ℕ) :
    t + (UInt16.ofNat x.length).toUInt32 + UInt32.ofNat n = t + UInt32.ofNat (x.length + n) := by
  rw [← UInt32.ofNat_uInt16ToNat, ofNat_length_toNat hx, UInt32.ofNat_add, UInt32.add_assoc]

theorem countAccounts_sound {n : ℕ} {w r : UInt32} {totals : UInt32 × UInt32}
    (hc : c.offset ≤ b.len) (h : Returns (countAccounts b n w r) c totals c') :
    ∃ lookups : List SVMMessageAddressTableLookup, lookups.length = n ∧
      (∀ l ∈ lookups, l.Compact) ∧
      At b.bytes c.offset (lookups.flatMap SVMMessageAddressTableLookup.encode) ∧
      totals =
        (w + UInt32.ofNat (totalWritable lookups), r + UInt32.ofNat (totalReadonly lookups)) ∧
      Moves b c c' (lookups.flatMap SVMMessageAddressTableLookup.encode).length [] := by
  induction n generalizing c w r with
  | zero =>
    obtain ⟨rfl, rfl⟩ := returns_pure.mp h
    exact ⟨[], rfl, by simp, at_nil .., by simp [totalWritable, totalReadonly], Moves.refl hc⟩
  | succ n ih =>
    simp only [countAccounts, returns_bind] at h
    obtain ⟨_, c₁, h₁, nw, c₂, h₂, _, c₃, h₃, nr, c₄, h₄, _, c₅, h₅, h₆⟩ := h
    obtain ⟨key, hat₁, hm₁⟩ := advanceOffsetForType_sound hc h₁
    obtain ⟨ws, rfl, hw, hat₂, -, hm₂⟩ := counted_sound hm₁.inside h₂ h₃
    obtain ⟨rs, rfl, hr, hat₃, -, hm₃⟩ := counted_sound hm₂.inside h₄ h₅
    obtain ⟨lookups, hlen, hx, hat₄, rfl, hm₄⟩ := ih hm₃.inside h₆
    have hm := (hm₁.trans hm₂).trans hm₃
    have he : (SVMMessageAddressTableLookup.encode ⟨key, ws, rs⟩).length =
        key.toList.length + (counted ws).length + (counted rs).length := by
      rw [SVMMessageAddressTableLookup.encode, List.length_append, List.length_append]
    refine ⟨⟨key, ws, rs⟩ :: lookups, by rw [List.length_cons, hlen], ?_, ?_, ?_, ?_⟩
    · intro l hl
      rcases List.mem_cons.mp hl with rfl | hl
      · exact ⟨hw, hr⟩
      · exact hx l hl
    · rw [List.flatMap_cons, at_append, he, ← hm.offset]
      rw [hm₂.offset, hm₁.offset, Nat.add_assoc] at hat₃
      rw [hm₁.offset] at hat₂
      exact ⟨at_append.mpr ⟨at_append.mpr ⟨hat₁, hat₂⟩, by rwa [List.length_append]⟩, hat₄⟩
    · rw [ofNat_add_total hw, ofNat_add_total hr]
      rfl
    · rw [List.flatMap_cons, List.length_append, he]
      exact hm.trans hm₄

theorem countAccounts_complete {lookups : List SVMMessageAddressTableLookup} {n : ℕ}
    (hn : n = lookups.length) (hx : ∀ l ∈ lookups, l.Compact) (w r : UInt32) (hc : c.offset ≤ b.len)
    (h : At b.bytes c.offset (lookups.flatMap SVMMessageAddressTableLookup.encode)) :
    ∃ c', Returns (countAccounts b n w r) c (w + UInt32.ofNat (totalWritable lookups),
        r + UInt32.ofNat (totalReadonly lookups)) c' ∧
      c'.offset = c.offset + (lookups.flatMap SVMMessageAddressTableLookup.encode).length := by
  subst hn
  induction lookups generalizing c w r with
  | nil =>
    exact ⟨c, returns_pure.mpr ⟨by simp [totalWritable, totalReadonly], rfl⟩, rfl⟩
  | cons l lookups ih =>
    obtain ⟨key, ws, rs⟩ := l
    obtain ⟨hw, hr⟩ := hx _ (List.mem_cons_self ..)
    obtain ⟨hat, hrest⟩ := at_append.mp h
    have hin := Slice.inside_of_at hat hc
    obtain ⟨hat, hat₃⟩ := at_append.mp hat
    obtain ⟨hat₁, hat₂⟩ := at_append.mp hat
    rw [List.length_append, ← Nat.add_assoc] at hat₃
    have hi₁ := Slice.inside_of_at hat₁ hc
    have hi₂ := Slice.inside_of_at hat₂ hi₁
    obtain ⟨c₁, h₁, ho₁⟩ := advanceOffsetForType_complete hc hat₁
    obtain ⟨c₂, c₃, h₂, -, h₃, ho₃⟩ := counted_complete (c := c₁) hw (ho₁ ▸ hi₁) (ho₁ ▸ hat₂)
    rw [ho₁] at ho₃
    obtain ⟨c₄, c₅, h₄, -, h₅, ho₅⟩ := counted_complete (c := c₃) hr (ho₃ ▸ hi₂) (ho₃ ▸ hat₃)
    have ho : c₅.offset =
        c.offset + (SVMMessageAddressTableLookup.encode ⟨key, ws, rs⟩).length := by
      rw [ho₅, ho₃, SVMMessageAddressTableLookup.encode, List.length_append, List.length_append]
      omega
    obtain ⟨c₆, h₆, ho₆⟩ := ih (fun l hl => hx l (List.mem_cons_of_mem _ hl))
      (w + (UInt16.ofNat ws.length).toUInt32) (r + (UInt16.ofNat rs.length).toUInt32)
      (c := c₅) (ho ▸ hin) (ho ▸ hrest)
    refine ⟨c₆, ?_, ?_⟩
    · rw [ofNat_add_total hw, ofNat_add_total hr] at h₆
      simp only [List.length_cons, countAccounts, returns_bind]
      exact ⟨(), c₁, h₁, _, c₂, h₂, (), c₃, h₃, _, c₄, h₄, (), c₅, h₅, h₆⟩
    · rw [ho₆, ho, List.flatMap_cons, List.length_append, Nat.add_assoc]

theorem safe_countAccounts (n : ℕ) (w r : UInt32) : Safe (countAccounts b n w r) c := by
  induction n generalizing c w r with
  | zero => exact safe_pure _ _
  | succ n ih =>
    exact (safe_advanceOffsetForType _).bind fun _ _ _ =>
      safe_optimizedReadCompressedU16.bind fun _ _ _ =>
        (safe_advanceOffsetForArray _ _).bind fun _ _ _ =>
          safe_optimizedReadCompressedU16.bind fun _ _ _ =>
            (safe_advanceOffsetForArray _ _).bind fun _ _ _ => ih _ _

theorem minSizedAtl_wrappingMul (n : UInt8) : wrappingMul minSizedAtl n.toNat = 35 * n.toNat := by
  have hn := n.toNat_lt
  unfold wrappingMul usizeRange minSizedAtl
  omega

/-- Small totals are not disturbed by the `u32` sums. -/
theorem not_le_ofNat_total {t : ℕ} (ht : t < 2 ^ 16) :
    ¬ 2 ^ 16 ≤ (0 + UInt32.ofNat t).toNat := by
  rw [UInt32.zero_add, UInt32.toNat_ofNat']
  omega

theorem tryNew_sound {f : AddressTableLookupFrame} (hc : c.offset ≤ b.len)
    (h : Returns (tryNew b) c f c') :
    ∃ lookups : List SVMMessageAddressTableLookup, lookups.length ≤ 31 ∧
      (∀ l ∈ lookups, l.Compact) ∧ c.offset + 1 + 35 * lookups.length ≤ b.len ∧
      At b.bytes c.offset (encodeLookups lookups) ∧ f = ofLookups lookups c.offset ∧
      Moves b c c' (encodeLookups lookups).length [(.addressTableLookups, c.offset + 1)] := by
  simp only [tryNew, returns_bind, returns_rejectIf, returns_get, returns_offsetAsU16,
    returns_pure, minSizedAtl_wrappingMul] at h
  obtain ⟨n, c₁, h₁, _, _, ⟨hmax, rfl⟩, _, _, ⟨rfl, rfl⟩, _, c₂, h₂, _, _, ⟨rfl, rfl⟩, _, _,
    ⟨rfl, rfl⟩, totals, c₃, h₃, _, _, ⟨-, rfl⟩, _, _, ⟨-, rfl⟩, rfl, rfl⟩ := h
  have hn : n.toNat ≤ 31 := UInt8.not_lt.mp hmax
  obtain ⟨hat₁, hm₁⟩ := readByte_sound hc h₁
  obtain ⟨hfit, rfl⟩ := (returns_checkRemaining hm₁.inside).mp h₂
  have hm₂ := (Moves.noteCheck hm₁.inside (35 * n.toNat)).trans
    (Moves.noteStored (c := c₁.noteCheck c₁.offset (35 * n.toNat)) hm₁.inside
      .addressTableLookups c₁.offset)
  obtain ⟨lookups, hlen, hx, hat₃, rfl, hm₃⟩ := countAccounts_sound hm₂.inside h₃
  have hcount : shortU16 lookups.length = [n] := by
    rw [hlen, shortU16_of_lt (by omega), UInt8.ofNat_toNat]
  have ho := hm₁.offset
  refine ⟨lookups, by omega, hx, by rw [hlen, ← ho]; exact hfit, ?_, ?_, ?_⟩
  · rw [encodeLookups, hcount, at_append]
    exact ⟨hat₁, by rw [List.length_singleton, ← ho]; exact hat₃⟩
  · rw [ofLookups, hlen, UInt8.ofNat_toNat, Cursor.noteCheck_offset, ho]
    simp only [UInt32.zero_add, UInt32.toUInt16_ofNat']
  · refine ((hm₁.trans hm₂).trans hm₃).congr ?_ ?_
    · rw [encodeLookups, hcount, List.length_append, List.length_singleton]
    · simp [ho]

theorem tryNew_complete {lookups : List SVMMessageAddressTableLookup}
    (hlen : lookups.length ≤ 31) (hx : ∀ l ∈ lookups, l.Compact)
    (hw : totalWritable lookups < 2 ^ 16) (hr : totalReadonly lookups < 2 ^ 16)
    (hfit : c.offset + 1 + 35 * lookups.length ≤ b.len)
    (h : At b.bytes c.offset (encodeLookups lookups)) :
    ∃ c', Returns (tryNew b) c (ofLookups lookups c.offset) c' ∧
      c'.offset = c.offset + (encodeLookups lookups).length := by
  have hn : (UInt8.ofNat lookups.length).toNat = lookups.length := by
    rw [UInt8.toNat_ofNat']; omega
  rw [encodeLookups, shortU16_of_lt (by omega)] at h ⊢
  obtain ⟨hat₁, hat₂⟩ := at_append.mp h
  let c₁ := c.moveTo (c.offset + 1)
  have hi₁ : c₁.offset ≤ b.len := by rw [Cursor.moveTo_offset]; omega
  have h₂ := (returns_checkRemaining (c := c₁) (n := 35 * (UInt8.ofNat lookups.length).toNat)
    (u := ()) hi₁).mpr ⟨by rw [hn]; exact hfit, rfl⟩
  obtain ⟨c₃, h₃, ho₃⟩ := countAccounts_complete hn hx 0 0
    (c := (c₁.noteCheck c₁.offset (35 * (UInt8.ofNat lookups.length).toNat)).noteStored
      .addressTableLookups c₁.offset) hi₁ hat₂
  have hmax : ¬ UInt8.ofNat lookups.length > maxAtlsPerPacket :=
    UInt8.not_lt.mpr (UInt8.le_iff_toNat_le.mpr (by rw [hn]; exact hlen))
  refine ⟨c₃, ?_, ?_⟩
  · simp only [tryNew, returns_bind, returns_rejectIf, returns_get, returns_offsetAsU16,
      returns_pure, minSizedAtl_wrappingMul]
    refine ⟨_, c₁, returns_readByte.mpr ⟨hat₁, rfl⟩, (), _, ⟨hmax, rfl⟩, _, _, ⟨rfl, rfl⟩, (), _,
      h₂, _, _, ⟨rfl, rfl⟩, _, _, ⟨rfl, rfl⟩, _, c₃, h₃, (), _, ⟨?_, rfl⟩, (), _, ⟨?_, rfl⟩, ?_,
      rfl⟩
    · exact not_le_ofNat_total hw
    · exact not_le_ofNat_total hr
    · simp only [UInt32.zero_add, UInt32.toUInt16_ofNat', ofLookups, c₁, Cursor.moveTo_offset,
        Cursor.noteCheck_offset]
  · rw [ho₃, List.length_append, List.length_singleton, ← Nat.add_assoc]
    rfl

theorem safe_tryNew : Safe (tryNew b) c :=
  safe_readByte.bind fun _ _ _ => (safe_rejectIf _ _).bind fun _ _ _ =>
    (safe_get _).bind fun _ _ _ => (safe_checkRemaining _ _).bind fun _ _ _ =>
      (safe_get _).bind fun _ _ _ => (safe_offsetAsU16 _ _).bind fun _ _ _ =>
        (safe_countAccounts _ _ _).bind fun _ _ _ => (safe_rejectIf _ _).bind fun _ _ _ =>
          (safe_rejectIf _ _).bind fun _ _ _ => safe_pure _ _

end AddressTableLookupFrame

namespace AddressTableLookupIterator

theorem read_complete {l : SVMMessageAddressTableLookup} (hx : l.Compact) (hc : c.offset ≤ b.len)
    (h : At b.bytes c.offset l.encode) :
    ∃ c', Returns (read b) c l c' ∧ c'.offset = c.offset + l.encode.length := by
  obtain ⟨hat, hat₃⟩ := at_append.mp h
  obtain ⟨hat₁, hat₂⟩ := at_append.mp hat
  rw [List.length_append, ← Nat.add_assoc] at hat₃
  have hi₁ := Slice.inside_of_at hat₁ hc
  have hi₂ := Slice.inside_of_at hat₂ hi₁
  obtain ⟨c₁, h₁, ho₁⟩ := readType_complete hc hat₁
  obtain ⟨c₂, c₃, h₂, h₃, ho₃⟩ := readCounted_complete (c := c₁) hx.1 (ho₁ ▸ hi₁) (ho₁ ▸ hat₂)
  rw [ho₁] at ho₃
  obtain ⟨c₄, c₅, h₄, h₅, ho₅⟩ := readCounted_complete (c := c₃) hx.2 (ho₃ ▸ hi₂) (ho₃ ▸ hat₃)
  refine ⟨c₅, ?_, ?_⟩
  · simp only [read, returns_bind, returns_pure]
    exact ⟨_, c₁, h₁, _, c₂, h₂, _, c₃, h₃, _, c₄, h₄, _, c₅, h₅, rfl, rfl⟩
  · rw [ho₅, ho₃, SVMMessageAddressTableLookup.encode, List.length_append, List.length_append]
    omega

theorem drains {lookups : List SVMMessageAddressTableLookup} (i : ℕ) {o : ℕ}
    (hlt : i + lookups.length < 256) (hx : ∀ l ∈ lookups, l.Compact) (ho : o ≤ b.len)
    (h : At b.bytes o (lookups.flatMap SVMMessageAddressTableLookup.encode)) :
    Drains next ⟨b, o, UInt8.ofNat (i + lookups.length), UInt8.ofNat i⟩ lookups := by
  induction lookups generalizing i o with
  | nil => exact .done (by simp [next, pure, Except.pure]; rfl)
  | cons l lookups ih =>
    obtain ⟨hat, hrest⟩ := at_append.mp h
    obtain ⟨c', hr, hc'⟩ := read_complete (c := { offset := o }) (hx l (by simp)) ho hat
    rw [List.length_cons] at hlt ⊢
    have hcount : i + 1 + lookups.length = i + (lookups.length + 1) := by omega
    have htail := ih (i + 1) (by omega) (fun y hy => hx y (by simp [hy]))
      (Slice.inside_of_at hat ho) hrest
    rw [hcount, UInt8.ofNat_add i 1] at htail
    refine .more ?_ htail
    have hlive : UInt8.ofNat i < UInt8.ofNat (i + (lookups.length + 1)) := by
      rw [UInt8.lt_iff_toNat_lt, UInt8.toNat_ofNat', UInt8.toNat_ofNat']
      omega
    simp only [next, if_pos hlive, hr.value, hr.state, hc']
    rfl

end AddressTableLookupIterator

/-- The iterator over the lookups of a frame. -/
def AddressTableLookupFrame.iter (bytes : Slice) (frame : AddressTableLookupFrame) :
    AddressTableLookupIterator :=
  ⟨bytes, frame.offset.toNat, frame.numAddressTableLookups, 0⟩

theorem AddressTableLookupFrame.drains_empty :
    Drains AddressTableLookupIterator.next (empty.iter b) [] := .done rfl

/-- Decoding the lookups again gives what was encoded. -/
theorem AddressTableLookupFrame.drains_ofLookups {lookups : List SVMMessageAddressTableLookup}
    {o : ℕ} (hlt : lookups.length ≤ 31) (hx : ∀ l ∈ lookups, l.Compact) (hb : o ≤ b.len)
    (hend : o + (encodeLookups lookups).length < 65536)
    (h : At b.bytes o (encodeLookups lookups)) :
    Drains AddressTableLookupIterator.next ((ofLookups lookups o).iter b) lookups := by
  rw [encodeLookups, shortU16_of_lt (by omega)] at h hend
  obtain ⟨hat₁, hat₂⟩ := at_append.mp h
  rw [List.length_append, List.length_singleton] at hend
  have hoff : (UInt16.ofNat (o + 1)).toNat = o + 1 :=
    UInt16.toNat_ofNat_of_lt (by change _ < 65536; omega)
  have hd := AddressTableLookupIterator.drains (b := b) 0 (by omega) hx
    (Slice.inside_of_at hat₁ hb) hat₂
  rw [Nat.zero_add] at hd
  rw [iter, ofLookups, hoff]
  exact hd

end AgaveSdk.TxView
