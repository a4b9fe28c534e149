import AgaveSdk.TransactionView.InstructionsFrame
import AgaveSdk.TransactionView.AddressTableLookupFrame
import AgaveSdk.TransactionView.TransactionConfig

/-! Message and transaction frames, parsed from the front of a buffer. -/
namespace AgaveSdk.TxView
open FallibleState ByteOrder

def v1Prefix : UInt8 := 0x81

def messageVersionPrefix : UInt8 := 0x80

structure MessageFrame where
  messageHeader : MessageHeaderFrame
  staticAccountKeys : StaticAccountKeysFrame
  recentBlockhashOffset : UInt16
  instructions : InstructionsFrame
  addressTableLookup : AddressTableLookupFrame
  transactionConfigFrame : TransactionConfigFrame
  endOffset : UInt16
  deriving DecidableEq, Repr

namespace MessageFrame

/-- The lookups of a message, which only a v0 message has. -/
def readLookups (bytes : Slice) : TransactionVersion → Reader AddressTableLookupFrame
  | .legacy => return .empty
  | .v0 => AddressTableLookupFrame.tryNew bytes
  | .v1 => throw (.fault .panic)

def tryNewAsLegacyOrV0 (bytes : Slice) (offset : ℕ) : Reader MessageFrame := do
  modify (·.moveTo offset)
  let messageHeader ← MessageHeaderFrame.tryNew bytes
  let staticAccountKeys ← StaticAccountKeysFrame.tryNew bytes
  let recentBlockhashOffset ← checkedOffset .recentBlockhash (← get).offset
  advanceOffsetForType 32 bytes
  let instructions ← InstructionsFrame.tryNewForLegacyAndV0 bytes
  let addressTableLookup ← readLookups bytes messageHeader.version
  let endOffset ← checkedOffset .messageEnd (← get).offset
  return {
    messageHeader := messageHeader
    staticAccountKeys := staticAccountKeys
    recentBlockhashOffset := recentBlockhashOffset
    instructions := instructions
    addressTableLookup := addressTableLookup
    transactionConfigFrame := .notApplicable
    endOffset := endOffset }

/-- What the fixed-size front of a v1 message says. -/
structure V1Front where
  messageHeader : MessageHeaderFrame
  maskOffset : ℕ
  mask : UInt32
  recentBlockhashOffset : UInt16
  numInstructions : UInt8
  numAddresses : UInt8
  deriving DecidableEq, Repr

def fixedV1PrefixLen : ℕ := 1 + 3 + 4 + 32 + 1 + 1

/-- One bounds check covers the whole front. The version byte and the header come first. -/
def readV1MessageHeader (bytes : Slice) : Reader MessageHeaderFrame := do
  checkRemaining bytes (← get).offset fixedV1PrefixLen
  let messageOffset ← offsetAsU16 .message (← get).offset
  let version ← uncheckedReadByte bytes
  rejectIf (version ≠ v1Prefix) .parseError
  let numRequiredSignatures ← uncheckedReadByte bytes
  let numReadonlySignedAccounts ← uncheckedReadByte bytes
  let numReadonlyUnsignedAccounts ← uncheckedReadByte bytes
  return ⟨messageOffset, .v1, numRequiredSignatures, numReadonlySignedAccounts,
    numReadonlyUnsignedAccounts⟩

/-- The mask is loaded in the byte order of the host. -/
def readV1Front (host : Endian) (bytes : Slice) : Reader V1Front := do
  let messageHeader ← readV1MessageHeader bytes
  let maskOffset := (← get).offset
  let mask ← ofOutcome (uncheckedCopyValue host 4 bytes maskOffset)
  modify fun c => c.moveTo (wrappingAdd c.offset 4)
  let recentBlockhashOffset ← checkedOffset .recentBlockhash (← get).offset
  modify fun c => c.moveTo (wrappingAdd c.offset 32)
  let numInstructions ← uncheckedReadByte bytes
  let numAddresses ← uncheckedReadByte bytes
  return {
    messageHeader := messageHeader
    maskOffset := maskOffset
    mask := UInt32.ofNat mask
    recentBlockhashOffset := recentBlockhashOffset
    numInstructions := numInstructions
    numAddresses := numAddresses }

def tryNewAsV1 (host : Endian) (bytes : Slice) : Reader MessageFrame := do
  modify (·.moveTo 0)
  let front ← readV1Front host bytes
  let addressesOffset ← checkedOffset .staticAccountKeys (← get).offset
  advanceOffsetForArray 32 bytes front.numAddresses.toUInt16
  let transactionConfigFrame ← TransactionConfigFrame.tryNew bytes front.maskOffset front.mask
  let instructions ← InstructionsFrame.tryNewForV1 host bytes front.numInstructions
  let endOffset ← checkedOffset .messageEnd (← get).offset
  return {
    messageHeader := front.messageHeader
    staticAccountKeys := ⟨front.numAddresses, addressesOffset⟩
    recentBlockhashOffset := front.recentBlockhashOffset
    instructions := instructions
    addressTableLookup := .empty
    transactionConfigFrame := transactionConfigFrame
    endOffset := endOffset }

/-- Only the full first byte tells v0 and v1 messages apart. -/
def tryNewAsAnyVersion (host : Endian) (bytes : Slice) : Reader MessageFrame :=
  if bytes.bytes.head? = some v1Prefix then tryNewAsV1 host bytes
  else tryNewAsLegacyOrV0 bytes 0

def tryNew (host : Endian) (bytes : Slice) : Reader MessageFrame := do
  let messageFrame ← tryNewAsAnyVersion host bytes
  rejectIf (messageFrame.endOffset.toNat ≠ bytes.len) .parseError
  return messageFrame

def version (frame : MessageFrame) : TransactionVersion := frame.messageHeader.version

def numRequiredSignatures (frame : MessageFrame) : UInt8 :=
  frame.messageHeader.numRequiredSignatures

def messageRange (frame : MessageFrame) : UInt16 × UInt16 :=
  (frame.messageHeader.offset, frame.endOffset)

/-- The offsets in the frame of the instructions. -/
def instructionOffsets : InstructionsFrame → List (OffsetField × UInt16)
  | .legacyAndV0 _ offset _ => [(.instructions, offset)]
  | .v1 _ headersOffset payloadsOffset =>
      [(.v1Headers, headersOffset), (.v1Payloads, payloadsOffset)]

/-- Every offset the frame holds, in the order in which the parser stores them. -/
def storedOffsets (frame : MessageFrame) : List (OffsetField × UInt16) :=
  match frame.version with
  | .legacy =>
      [(.message, frame.messageHeader.offset), (.staticAccountKeys, frame.staticAccountKeys.offset),
        (.recentBlockhash, frame.recentBlockhashOffset)] ++
      instructionOffsets frame.instructions ++ [(.messageEnd, frame.endOffset)]
  | .v0 =>
      [(.message, frame.messageHeader.offset), (.staticAccountKeys, frame.staticAccountKeys.offset),
        (.recentBlockhash, frame.recentBlockhashOffset)] ++
      instructionOffsets frame.instructions ++
      [(.addressTableLookups, frame.addressTableLookup.offset), (.messageEnd, frame.endOffset)]
  | .v1 =>
      [(.message, frame.messageHeader.offset), (.recentBlockhash, frame.recentBlockhashOffset),
        (.staticAccountKeys, frame.staticAccountKeys.offset),
        (.configMask, frame.transactionConfigFrame.maskOffset),
        (.configValues, frame.transactionConfigFrame.valuesOffset)] ++
      instructionOffsets frame.instructions ++ [(.messageEnd, frame.endOffset)]

end MessageFrame

structure TransactionFrame where
  signature : SignatureFrame
  message : MessageFrame
  dataLen : UInt16
  deriving DecidableEq, Repr

namespace TransactionFrame

/-- The first byte of a legacy or v0 transaction is a signature count below 128. -/
def isLegacyOrV0 (bytes : Slice) : Reader Bool :=
  match bytes.bytes.head? with
  | none => fail
  | some firstByte => return firstByte &&& messageVersionPrefix == 0

def tryNewAsLegacyOrV0 (bytes : Slice) : Reader TransactionFrame := do
  modify (·.moveTo 0)
  let signature ← SignatureFrame.tryNew bytes
  let message ← MessageFrame.tryNewAsLegacyOrV0 bytes (← get).offset
  modify fun c => c.noteStored .dataLen c.offset
  return ⟨signature, message, message.endOffset⟩

/-- The signatures follow the message, one for each required signature. -/
def tryNewAsV1 (host : Endian) (bytes : Slice) : Reader TransactionFrame := do
  let message ← MessageFrame.tryNewAsV1 host bytes
  let numSignatures := message.numRequiredSignatures
  modify fun c => c.noteStored .signatures c.offset
  modify (·.moveTo message.endOffset.toNat)
  advanceOffsetForArray 64 bytes numSignatures.toUInt16
  let dataLen ← checkedOffset .dataLen (← get).offset
  return ⟨⟨numSignatures, message.endOffset⟩, message, dataLen⟩

/-- Bytes after the transaction are left alone. -/
def tryNewFromPrefix (host : Endian) (bytes : Slice) : Reader TransactionFrame := do
  if ← isLegacyOrV0 bytes then tryNewAsLegacyOrV0 bytes else tryNewAsV1 host bytes

def tryNew (host : Endian) (bytes : Slice) : Reader TransactionFrame := do
  let transactionFrame ← tryNewFromPrefix host bytes
  rejectIf (transactionFrame.dataLen.toNat ≠ bytes.len) .parseError
  return transactionFrame

/-- Every offset the frame holds, in the order in which the parser stores them. -/
def storedOffsets (frame : TransactionFrame) : List (OffsetField × UInt16) :=
  match frame.message.version with
  | .v1 => frame.message.storedOffsets ++
      [(.signatures, frame.signature.offset), (.dataLen, frame.dataLen)]
  | _ => [(.signatures, frame.signature.offset)] ++ frame.message.storedOffsets ++
      [(.dataLen, frame.dataLen)]

end TransactionFrame

end AgaveSdk.TxView
