import AgaveSdk.Library.FallibleState
import AgaveSdk.Library.Segments
import AgaveSdk.Library.ByteOrder

/-! Byte readers of the transaction view: slices, a cursor with a mutable offset, and the
checked and unchecked primitives the frames are parsed with. A `usize` has 64 bits. -/
namespace AgaveSdk.TxView
open FallibleState Segments ByteOrder

inductive TransactionViewError where
  | parseError
  | sanitizeError
  | addressLookupMismatch
  deriving DecidableEq, Repr

def usizeRange : ℕ := 2 ^ 64

def isizeMax : ℕ := 2 ^ 63 - 1

def wrappingAdd (a b : ℕ) : ℕ := (a + b) % usizeRange

def wrappingSub (a b : ℕ) : ℕ := (a + usizeRange - b) % usizeRange

def wrappingMul (a b : ℕ) : ℕ := a * b % usizeRange

/-- A byte slice. No Rust allocation is larger than `isize::MAX` bytes. -/
@[ext]
structure Slice where
  bytes : List UInt8
  length_le : bytes.length ≤ isizeMax
  deriving DecidableEq, Repr

namespace Slice

def len (s : Slice) : ℕ := s.bytes.length

/-- The range `[..n]`, which panics past the end. -/
def upTo (s : Slice) (n : ℕ) : Outcome TransactionViewError Slice :=
  if n ≤ s.len then .ok ⟨s.bytes.take n, (List.length_take_le' n _).trans s.length_le⟩
  else .error (.fault .panic)

/-- The range `[a..b]`, which panics past the end and for `b < a`. -/
def range (s : Slice) (a b : ℕ) : Outcome TransactionViewError Slice :=
  if a ≤ b ∧ b ≤ s.len then
    .ok ⟨(s.bytes.take b).drop a, (List.drop_sublist a _).length_le.trans
      ((List.length_take_le' b _).trans s.length_le)⟩
  else .error (.fault .panic)

end Slice

/-- The places of a frame that hold a `u16` offset. -/
inductive OffsetField where
  | signatures
  | message
  | staticAccountKeys
  | recentBlockhash
  | instructions
  | v1Headers
  | v1Payloads
  | addressTableLookups
  | configMask
  | configValues
  | messageEnd
  | dataLen
  deriving DecidableEq, Repr

/-- The mutable offset of a parse. The two logs are ghosts that no step reads: the arguments
of every `check_remaining` call, and every offset stored in a frame before its truncation. -/
structure Cursor where
  offset : ℕ
  checks : List (ℕ × ℕ) := []
  stored : List (OffsetField × ℕ) := []
  deriving DecidableEq, Repr

abbrev Reader := Comp Cursor TransactionViewError

namespace Cursor

def moveTo (c : Cursor) (offset : ℕ) : Cursor := { c with offset := offset }

def noteCheck (c : Cursor) (offset numBytes : ℕ) : Cursor :=
  { c with checks := c.checks ++ [(offset, numBytes)] }

def noteStored (c : Cursor) (field : OffsetField) (offset : ℕ) : Cursor :=
  { c with stored := c.stored ++ [(field, offset)] }

end Cursor

def fail {α : Type} : Reader α := throw (.err .parseError)

def rejectIf (c : Prop) [Decidable c] (error : TransactionViewError) : Reader Unit :=
  failIf c (Stop.err error)

def checkRemaining (bytes : Slice) (offset numBytes : ℕ) : Reader Unit := do
  modify (·.noteCheck offset numBytes)
  rejectIf (numBytes > wrappingSub bytes.len offset) .parseError

/-- The conversion `u16::try_from(offset)`, failing with the given error. -/
def checkedOffsetOr (error : TransactionViewError) (field : OffsetField) (offset : ℕ) :
    Reader UInt16 := do
  rejectIf (2 ^ 16 ≤ offset) error
  modify (·.noteStored field offset)
  return UInt16.ofNat offset

def checkedOffset (field : OffsetField) (offset : ℕ) : Reader UInt16 :=
  checkedOffsetOr .parseError field offset

/-- The bare cast `offset as u16`. -/
def offsetAsU16 (field : OffsetField) (offset : ℕ) : Reader UInt16 := do
  modify (·.noteStored field offset)
  return UInt16.ofNat offset

def readByte (bytes : Slice) : Reader UInt8 := do
  let offset := (← get).offset
  modify (·.moveTo (wrappingAdd offset 1))
  match bytes.bytes[offset]? with
  | some value => return value
  | none => fail

def uncheckedReadByte (bytes : Slice) : Reader UInt8 := do
  let offset := (← get).offset
  match bytes.bytes[offset]? with
  | some value =>
      modify (·.moveTo (wrappingAdd offset 1))
      return value
  | none => throw (.fault .undefined)

/-- The rounds of the loop that are left, from index `i` on, and what follows the loop. -/
def readCompressedU16From (bytes : Slice) (offset : ℕ) : ℕ → ℕ → UInt16 → UInt16 → Reader UInt16
  | 0, _, result, _ => do
      modify (·.moveTo (wrappingAdd offset 3))
      return result
  | rounds + 1, i, result, shift =>
      match bytes.bytes[wrappingAdd offset i]? with
      | none => fail
      | some byte =>
          if (i > 0 ∧ byte = 0) ∨ (i = 2 ∧ byte > 3) then fail
          else
            let result := result ||| ((byte &&& 0x7F).toUInt16 <<< shift)
            if byte &&& 0x80 = 0 then do
              modify (·.moveTo (wrappingAdd (wrappingAdd offset i) 1))
              return result
            else readCompressedU16From bytes offset rounds (i + 1) result (shift + 7)

def readCompressedU16 (bytes : Slice) : Reader UInt16 := do
  let offset := (← get).offset
  readCompressedU16From bytes offset 3 0 0 0

def optimizedReadCompressedU16 (bytes : Slice) : Reader UInt16 := do
  let offset := (← get).offset
  match bytes.bytes[offset]? with
  | none => fail
  | some byte1 =>
      let result := (byte1 &&& 0x7F).toUInt16
      if byte1 &&& 0x80 = 0 then
        modify (·.moveTo (wrappingAdd offset 1))
        return result
      else match bytes.bytes[wrappingAdd offset 1]? with
        | none => fail
        | some byte2 =>
            if byte2 = 0 ∨ byte2 &&& 0x80 ≠ 0 then fail
            else
              modify (·.moveTo (wrappingAdd offset 2))
              return result ||| ((byte2 &&& 0x7F).toUInt16 <<< 7)

def advanceOffsetForArray (size : ℕ) (bytes : Slice) (numElements : UInt16) : Reader Unit := do
  let offset := (← get).offset
  let arrayLenBytes := wrappingMul numElements.toNat size
  checkRemaining bytes offset arrayLenBytes
  modify (·.moveTo (wrappingAdd offset arrayLenBytes))

def advanceOffsetForType (size : ℕ) (bytes : Slice) : Reader Unit := do
  let offset := (← get).offset
  checkRemaining bytes offset size
  modify (·.moveTo (wrappingAdd offset size))

/-- A raw region of the slice. Reaching outside it is undefined behaviour. -/
def rawRegion (bytes : Slice) (offset numBytes : ℕ) : Outcome TransactionViewError (List UInt8) :=
  if offset + numBytes ≤ bytes.len then .ok ((bytes.bytes.drop offset).take numBytes)
  else .error (.fault .undefined)

/-- A raw array of `T` values of `size` bytes each. -/
def fromRawParts (size : ℕ) (bytes : Slice) (offset numElements : ℕ) :
    Outcome TransactionViewError (List (Vector UInt8 size)) := do
  let region ← rawRegion bytes offset (numElements * size)
  return chunks size numElements region

/-- The pointer `bytes.as_ptr().add(offset)`, undefined past the end of the slice. -/
def pointerAt (bytes : Slice) (offset : ℕ) : Reader Unit :=
  failIf (bytes.len < offset) (.fault .undefined : Stop TransactionViewError)

def readSliceData (bytes : Slice) (numElements : UInt16) : Reader (List UInt8) := do
  let offset := (← get).offset
  pointerAt bytes offset
  advanceOffsetForArray 1 bytes numElements
  ofOutcome (rawRegion bytes offset numElements.toNat)

def uncheckedReadSliceData (bytes : Slice) (numElements : UInt16) : Reader (List UInt8) := do
  let offset := (← get).offset
  pointerAt bytes offset
  modify (·.moveTo (wrappingAdd offset (wrappingMul numElements.toNat 1)))
  ofOutcome (rawRegion bytes offset numElements.toNat)

def readType (size : ℕ) (bytes : Slice) : Reader (Vector UInt8 size) := do
  let offset := (← get).offset
  pointerAt bytes offset
  advanceOffsetForType size bytes
  let region ← ofOutcome (rawRegion bytes offset size)
  return Vector.ofFn fun i => region.getD i default

/-- An unaligned load of an integer of `size` bytes in the byte order of the host. -/
def uncheckedCopyValue (host : Endian) (size : ℕ) (bytes : Slice) (offset : ℕ) :
    Outcome TransactionViewError ℕ := do
  let region ← rawRegion bytes offset size
  return load host region

end AgaveSdk.TxView
