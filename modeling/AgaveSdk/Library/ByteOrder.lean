import Mathlib.Algebra.Ring.Nat
import Mathlib.Data.List.Basic

/-! Numbers as byte sequences, and raw loads on hosts of either byte order. -/
namespace ByteOrder

inductive Endian where
  | little
  | big
  deriving DecidableEq, Repr

/-- The number spelled by bytes, least significant first. -/
def leNat : List UInt8 → ℕ
  | [] => 0
  | b :: bs => b.toNat + 256 * leNat bs

/-- The low `width` bytes of a number, least significant first. -/
def leBytes : ℕ → ℕ → List UInt8
  | 0, _ => []
  | width + 1, n => UInt8.ofNat (n % 256) :: leBytes width (n / 256)

/-- A raw load of the bytes into an integer of the host. -/
def load (host : Endian) (bs : List UInt8) : ℕ :=
  match host with
  | .little => leNat bs
  | .big => leNat bs.reverse

/-- Reinterpret a loaded integer as little-endian, swapping its bytes where the host differs. -/
def fromLe (host : Endian) (width n : ℕ) : ℕ :=
  match host with
  | .little => n
  | .big => leNat (leBytes width n).reverse

/-- The bytes that a raw load on the host reads as the number. -/
def hostBytes (host : Endian) (width n : ℕ) : List UInt8 :=
  match host with
  | .little => leBytes width n
  | .big => (leBytes width n).reverse

@[simp] theorem leBytes_length (width n : ℕ) : (leBytes width n).length = width := by
  induction width generalizing n with
  | zero => rfl
  | succ width ih => simp [leBytes, ih]

@[simp] theorem hostBytes_length (host : Endian) (width n : ℕ) :
    (hostBytes host width n).length = width := by
  cases host <;> simp [hostBytes]

theorem leNat_lt (bs : List UInt8) : leNat bs < 256 ^ bs.length := by
  induction bs with
  | nil => simp [leNat]
  | cons b bs ih =>
    have hb := b.toNat_lt
    simp only [leNat, List.length_cons, Nat.pow_succ]
    omega

theorem load_lt (host : Endian) (bs : List UInt8) : load host bs < 256 ^ bs.length := by
  cases host with
  | little => exact leNat_lt bs
  | big => simpa [load] using leNat_lt bs.reverse

theorem leBytes_leNat (bs : List UInt8) : leBytes bs.length (leNat bs) = bs := by
  induction bs with
  | nil => rfl
  | cons b bs ih =>
    have hb := b.toNat_lt
    have hm : (b.toNat + 256 * leNat bs) % 256 = b.toNat := by omega
    have hd : (b.toNat + 256 * leNat bs) / 256 = leNat bs := by omega
    simp [leBytes, leNat, hm, hd, ih]

theorem leNat_leBytes {width n : ℕ} (h : n < 256 ^ width) : leNat (leBytes width n) = n := by
  induction width generalizing n with
  | zero => simp_all [leNat, leBytes]
  | succ width ih =>
    have hd : n / 256 < 256 ^ width := by
      rw [Nat.div_lt_iff_lt_mul (by decide)]
      simpa [Nat.pow_succ] using h
    simp only [leBytes, leNat, ih hd, UInt8.toNat_ofNat']
    omega

theorem leNat_inj {bs bs' : List UInt8} (hlen : bs.length = bs'.length)
    (h : leNat bs = leNat bs') : bs = bs' := by
  rw [← leBytes_leNat bs, ← leBytes_leNat bs', hlen, h]

/-- Converting what was loaded gives the little-endian value on every host. -/
theorem fromLe_load (host : Endian) (bs : List UInt8) :
    fromLe host bs.length (load host bs) = leNat bs := by
  cases host with
  | little => rfl
  | big =>
    have h := leBytes_leNat bs.reverse
    rw [List.length_reverse] at h
    simp [fromLe, load, h]

theorem hostBytes_load (host : Endian) (bs : List UInt8) :
    hostBytes host bs.length (load host bs) = bs := by
  cases host with
  | little => exact leBytes_leNat bs
  | big =>
    have h := leBytes_leNat bs.reverse
    rw [List.length_reverse] at h
    simp [hostBytes, load, h]

theorem load_hostBytes (host : Endian) {width n : ℕ} (h : n < 256 ^ width) :
    load host (hostBytes host width n) = n := by
  cases host with
  | little => exact leNat_leBytes h
  | big => simpa [load, hostBytes] using leNat_leBytes h

end ByteOrder
