import AgaveSdk.TransactionView.LeadingFrames
import AgaveSdk.Library.Draining

/-! The instructions frame of both layouts and the iterator that walks the bytes again. -/
namespace AgaveSdk.TxView
open FallibleState Segments ByteOrder Draining

/-- A decoded instruction. -/
structure SVMInstruction where
  programIdIndex : UInt8
  accounts : List UInt8
  data : List UInt8
  deriving DecidableEq, Repr

structure LegacyAndV0InstructionFrame where
  numAccounts : UInt16
  dataLen : UInt16
  numAccountsLen : UInt8
  dataLenLen : UInt8
  deriving DecidableEq, Repr

inductive InstructionsFrame where
  | legacyAndV0 (numInstructions offset : UInt16) (frames : List LegacyAndV0InstructionFrame)
  | v1 (numInstructions headersOffset payloadsOffset : UInt16)
  deriving DecidableEq, Repr

structure V1InstructionHeader where
  programIdIndex : UInt8
  numAccounts : UInt8
  dataLen : UInt16
  deriving DecidableEq, Repr

def LegacyAndV0InstructionFrame.read (bytes : Slice) : Reader LegacyAndV0InstructionFrame := do
  let _programIdIndex ← readByte bytes
  let numAccountsOffset := (← get).offset
  let numAccounts ← optimizedReadCompressedU16 bytes
  let numAccountsLen := UInt8.ofNat (wrappingSub (← get).offset numAccountsOffset)
  advanceOffsetForArray 1 bytes numAccounts
  let dataLenOffset := (← get).offset
  let dataLen ← optimizedReadCompressedU16 bytes
  let dataLenLen := UInt8.ofNat (wrappingSub (← get).offset dataLenOffset)
  advanceOffsetForArray 1 bytes dataLen
  return ⟨numAccounts, dataLen, numAccountsLen, dataLenLen⟩

def LegacyAndV0InstructionFrame.readMany (bytes : Slice) :
    ℕ → Reader (List LegacyAndV0InstructionFrame)
  | 0 => return []
  | n + 1 => do
      let frame ← read bytes
      let frames ← readMany bytes n
      return frame :: frames

def InstructionsFrame.tryNewForLegacyAndV0 (bytes : Slice) : Reader InstructionsFrame := do
  let numInstructions ← optimizedReadCompressedU16 bytes
  checkRemaining bytes (← get).offset (wrappingMul 3 numInstructions.toNat)
  let instructionsOffset ← offsetAsU16 .instructions (← get).offset
  let frames ← LegacyAndV0InstructionFrame.readMany bytes numInstructions.toNat
  return .legacyAndV0 numInstructions instructionsOffset frames

/-- A packed header of four bytes: two single bytes and a `u16` in the byte order of the host,
converted after the load. -/
def InstructionsFrame.readV1Header (host : Endian) (bytes : Slice) :
    Reader V1InstructionHeader := do
  let offset := (← get).offset
  let region ← ofOutcome (rawRegion bytes offset 4)
  modify (·.moveTo (wrappingAdd offset 4))
  let dataLen := load host (region.drop 2)
  return ⟨region.getD 0 0, region.getD 1 0, UInt16.ofNat (fromLe host 2 dataLen)⟩

def checkedAdd (x y : ℕ) : Reader ℕ := do
  rejectIf (usizeRange ≤ x + y) .parseError
  return x + y

/-- The payload sizes announced by the next `n` headers, added to `total`. -/
def InstructionsFrame.totalPayloadLen (host : Endian) (bytes : Slice) : ℕ → ℕ → Reader ℕ
  | 0, total => return total
  | n + 1, total => do
      let header ← readV1Header host bytes
      let payloadLen ← checkedAdd header.numAccounts.toNat header.dataLen.toNat
      let total ← checkedAdd total payloadLen
      totalPayloadLen host bytes n total

def InstructionsFrame.tryNewForV1 (host : Endian) (bytes : Slice) (numInstructions : UInt8) :
    Reader InstructionsFrame := do
  let headersOffset ← offsetAsU16 .v1Headers (← get).offset
  let headersLen := wrappingMul 4 numInstructions.toNat
  checkRemaining bytes (← get).offset headersLen
  let headerOffset := (← get).offset
  modify (·.moveTo (wrappingAdd headerOffset headersLen))
  let payloadsOffset ← offsetAsU16 .v1Payloads (← get).offset
  let total ← ofOutcome
    (exec (totalPayloadLen host bytes numInstructions.toNat 0) { offset := headerOffset }).1
  checkRemaining bytes (← get).offset total
  modify fun c => c.moveTo (wrappingAdd c.offset total)
  return .v1 numInstructions.toUInt16 headersOffset payloadsOffset

def InstructionsFrame.numInstructions : InstructionsFrame → UInt16
  | .legacyAndV0 numInstructions _ _ => numInstructions
  | .v1 numInstructions _ _ => numInstructions

inductive InstructionsIterator where
  | legacyAndV0 (bytes : Slice) (offset : ℕ) (numInstructions index : UInt16)
      (frames : List LegacyAndV0InstructionFrame)
  | v1 (bytes : Slice) (index numInstructions : UInt16) (headersOffset payloadsOffset : ℕ)
  deriving DecidableEq, Repr

def InstructionsFrame.iter (bytes : Slice) : InstructionsFrame → InstructionsIterator
  | .legacyAndV0 numInstructions offset frames =>
      .legacyAndV0 bytes offset.toNat numInstructions 0 frames
  | .v1 numInstructions headersOffset payloadsOffset =>
      .v1 bytes 0 numInstructions headersOffset.toNat payloadsOffset.toNat

/-- Builds an instruction from cached lengths without parsing them again. -/
def forLegacyAndV0 (bytes : Slice) (frame : LegacyAndV0InstructionFrame) :
    Reader SVMInstruction := do
  let programIdIndex ← uncheckedReadByte bytes
  modify fun c => c.moveTo (wrappingAdd c.offset frame.numAccountsLen.toNat)
  let accounts ← uncheckedReadSliceData bytes frame.numAccounts
  modify fun c => c.moveTo (wrappingAdd c.offset frame.dataLenLen.toNat)
  let data ← uncheckedReadSliceData bytes frame.dataLen
  return ⟨programIdIndex, accounts, data⟩

def forV1 (bytes : Slice) (programIdIndex : UInt8) (numAccounts dataLen : UInt16) :
    Reader SVMInstruction := do
  let accounts ← uncheckedReadSliceData bytes numAccounts
  let data ← uncheckedReadSliceData bytes dataLen
  return ⟨programIdIndex, accounts, data⟩

namespace InstructionsIterator

def next (host : Endian) : InstructionsIterator →
    Outcome TransactionViewError (Option SVMInstruction × InstructionsIterator)
  | .legacyAndV0 bytes offset numInstructions index frames =>
      if index ≥ numInstructions then
        return (none, .legacyAndV0 bytes offset numInstructions index frames)
      else match frames[index.toNat]? with
        | none => throw (.fault .panic)
        | some frame => do
            let run := exec (forLegacyAndV0 bytes frame) { offset := offset }
            let instruction ← run.1
            return (some instruction,
              .legacyAndV0 bytes run.2.offset numInstructions (index + 1) frames)
  | .v1 bytes index numInstructions headersOffset payloadsOffset =>
      if index ≥ numInstructions then
        return (none, .v1 bytes index numInstructions headersOffset payloadsOffset)
      else do
        let headerRun :=
          exec (InstructionsFrame.readV1Header host bytes) { offset := headersOffset }
        let header ← headerRun.1
        let run := exec
          (forV1 bytes header.programIdIndex header.numAccounts.toUInt16 header.dataLen)
          { offset := payloadsOffset }
        let instruction ← run.1
        return (some instruction,
          .v1 bytes (index + 1) numInstructions headerRun.2.offset run.2.offset)

def len : InstructionsIterator → ℕ
  | .legacyAndV0 _ _ numInstructions index _ => (numInstructions - index).toNat
  | .v1 _ index numInstructions _ _ => (numInstructions - index).toNat

/-- The items of the iterator driven to exhaustion. -/
def collect (host : Endian) (it : InstructionsIterator) :
    Outcome TransactionViewError (List SVMInstruction) :=
  Draining.collect (next host) (it.len + 1) it

end InstructionsIterator

end AgaveSdk.TxView
