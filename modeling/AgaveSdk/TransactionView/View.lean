import AgaveSdk.TransactionView.MessageFrame

/-! Views over serialized messages and transactions. Every accessor reads the bytes again,
trusting the frame. -/
namespace AgaveSdk.TxView
open FallibleState ByteOrder

/-- A borrowed view: the bytes its frame was made for, and the frame. -/
structure MessageViewRef (sanitized : Bool) where
  buffer : Slice
  messageFrame : MessageFrame
  deriving DecidableEq, Repr

structure MessageView (sanitized : Bool) where
  innerData : Slice
  messageFrame : MessageFrame
  deriving DecidableEq, Repr

structure TransactionView (sanitized : Bool) where
  innerData : Slice
  frame : TransactionFrame
  deriving DecidableEq, Repr

abbrev UnsanitizedMessageViewRef := MessageViewRef false

variable {sanitized : Bool}

namespace MessageViewRef

def version (view : MessageViewRef sanitized) : TransactionVersion := view.messageFrame.version

def numRequiredSignatures (view : MessageViewRef sanitized) : UInt8 :=
  view.messageFrame.numRequiredSignatures

def numReadonlySignedStaticAccounts (view : MessageViewRef sanitized) : UInt8 :=
  view.messageFrame.messageHeader.numReadonlySignedAccounts

def numReadonlyUnsignedStaticAccounts (view : MessageViewRef sanitized) : UInt8 :=
  view.messageFrame.messageHeader.numReadonlyUnsignedAccounts

def numStaticAccountKeys (view : MessageViewRef sanitized) : UInt8 :=
  view.messageFrame.staticAccountKeys.numStaticAccounts

def numInstructions (view : MessageViewRef sanitized) : UInt16 :=
  view.messageFrame.instructions.numInstructions

def numAddressTableLookups (view : MessageViewRef sanitized) : UInt8 :=
  view.messageFrame.addressTableLookup.numAddressTableLookups

def totalWritableLookupAccounts (view : MessageViewRef sanitized) : UInt16 :=
  view.messageFrame.addressTableLookup.totalWritableLookupAccounts

def totalReadonlyLookupAccounts (view : MessageViewRef sanitized) : UInt16 :=
  view.messageFrame.addressTableLookup.totalReadonlyLookupAccounts

def staticAccountKeys (view : MessageViewRef sanitized) :
    Outcome TransactionViewError (List Pubkey) :=
  fromRawParts 32 view.buffer view.messageFrame.staticAccountKeys.offset.toNat
    view.numStaticAccountKeys.toNat

def recentBlockhash (view : MessageViewRef sanitized) : Outcome TransactionViewError Hash := do
  let region ← rawRegion view.buffer view.messageFrame.recentBlockhashOffset.toNat 32
  return Vector.ofFn fun i => region.getD i default

def instructionsIter (view : MessageViewRef sanitized) : InstructionsIterator :=
  view.messageFrame.instructions.iter view.buffer

def addressTableLookupIter (view : MessageViewRef sanitized) : AddressTableLookupIterator :=
  view.messageFrame.addressTableLookup.iter view.buffer

/-- A view of the config section of a v1 message, nothing for legacy and v0. -/
def transactionConfig (view : MessageViewRef sanitized) : Option TransactionConfigView :=
  if view.messageFrame.transactionConfigFrame.isPresent then
    some ⟨view.messageFrame.transactionConfigFrame, view.buffer⟩
  else none

/-- The serialized message, without signatures. -/
def data (view : MessageViewRef sanitized) : Outcome TransactionViewError Slice :=
  view.buffer.range view.messageFrame.messageRange.1.toNat view.messageFrame.messageRange.2.toNat

end MessageViewRef

/-- What the getters of a config view return. -/
structure ConfigContents where
  mask : UInt32
  priorityFeeLamports : Option UInt64
  computeUnitLimit : Option UInt32
  loadedAccountsDataSizeLimit : Option UInt32
  requestedHeapSize : Option UInt32
  deriving DecidableEq, Repr

def TransactionConfigView.contents (host : Endian) (view : TransactionConfigView) :
    Outcome TransactionViewError ConfigContents := do
  return {
    mask := view.mask
    priorityFeeLamports := ← view.priorityFeeLamports host
    computeUnitLimit := ← view.computeUnitLimit host
    loadedAccountsDataSizeLimit := ← view.loadedAccountsDataSizeLimit host
    requestedHeapSize := ← view.requestedHeapSize host }

/-- What the accessors of a message return, with both iterators driven to exhaustion. -/
structure MessageContents where
  version : TransactionVersion
  numRequiredSignatures : UInt8
  numReadonlySignedStaticAccounts : UInt8
  numReadonlyUnsignedStaticAccounts : UInt8
  numStaticAccountKeys : UInt8
  numInstructions : UInt16
  numAddressTableLookups : UInt8
  totalWritableLookupAccounts : UInt16
  totalReadonlyLookupAccounts : UInt16
  staticAccountKeys : List Pubkey
  recentBlockhash : Hash
  instructions : List SVMInstruction
  addressTableLookups : List SVMMessageAddressTableLookup
  transactionConfig : Option ConfigContents
  deriving DecidableEq, Repr

/-- The getters of the config section, where there is one. -/
def MessageViewRef.configContents (host : Endian) (view : MessageViewRef sanitized) :
    Outcome TransactionViewError (Option ConfigContents) :=
  match view.transactionConfig with
  | none => return none
  | some config => return some (← config.contents host)

/-- Runs every accessor of a message. -/
def MessageViewRef.contents (host : Endian) (view : MessageViewRef sanitized) :
    Outcome TransactionViewError MessageContents := do
  return {
    version := view.version
    numRequiredSignatures := view.numRequiredSignatures
    numReadonlySignedStaticAccounts := view.numReadonlySignedStaticAccounts
    numReadonlyUnsignedStaticAccounts := view.numReadonlyUnsignedStaticAccounts
    numStaticAccountKeys := view.numStaticAccountKeys
    numInstructions := view.numInstructions
    numAddressTableLookups := view.numAddressTableLookups
    totalWritableLookupAccounts := view.totalWritableLookupAccounts
    totalReadonlyLookupAccounts := view.totalReadonlyLookupAccounts
    staticAccountKeys := ← view.staticAccountKeys
    recentBlockhash := ← view.recentBlockhash
    instructions := ← view.instructionsIter.collect host
    addressTableLookups := ← view.addressTableLookupIter.collect
    transactionConfig := ← view.configContents host }

namespace MessageView

def tryNewUnsanitized (host : Endian) (data : Slice) :
    Outcome TransactionViewError (MessageView false) := do
  let messageFrame ← (exec (MessageFrame.tryNew host data) { offset := 0 }).1
  return ⟨data, messageFrame⟩

def message (view : MessageView sanitized) :
    Outcome TransactionViewError (MessageViewRef sanitized) := do
  return ⟨← view.innerData.upTo view.messageFrame.endOffset.toNat, view.messageFrame⟩

def version (view : MessageView sanitized) : TransactionVersion := view.messageFrame.version

def numRequiredSignatures (view : MessageView sanitized) : UInt8 :=
  view.messageFrame.numRequiredSignatures

def data (view : MessageView sanitized) : Outcome TransactionViewError Slice := do
  (← view.message).data

def contents (host : Endian) (view : MessageView sanitized) :
    Outcome TransactionViewError MessageContents := do
  (← view.message).contents host

end MessageView

namespace TransactionView

def tryNewUnsanitized (host : Endian) (data : Slice) :
    Outcome TransactionViewError (TransactionView false) := do
  let frame ← (exec (TransactionFrame.tryNew host data) { offset := 0 }).1
  return ⟨data, frame⟩

/-- The view of a transaction in front of the data, and the number of bytes it takes. -/
def tryNewUnsanitizedFromPrefix (host : Endian) (data : Slice) :
    Outcome TransactionViewError (TransactionView false × ℕ) := do
  let frame ← (exec (TransactionFrame.tryNewFromPrefix host data) { offset := 0 }).1
  return (⟨data, frame⟩, frame.dataLen.toNat)

/-- The serialized transaction, without trailing bytes. -/
def data (view : TransactionView sanitized) : Outcome TransactionViewError Slice :=
  view.innerData.upTo view.frame.dataLen.toNat

def message (view : TransactionView sanitized) :
    Outcome TransactionViewError (MessageViewRef sanitized) := do
  return ⟨← view.data, view.frame.message⟩

def version (view : TransactionView sanitized) : TransactionVersion := view.frame.message.version

def numSignatures (view : TransactionView sanitized) : UInt8 := view.frame.signature.numSignatures

def numRequiredSignatures (view : TransactionView sanitized) : UInt8 :=
  view.frame.message.numRequiredSignatures

def signatures (view : TransactionView sanitized) :
    Outcome TransactionViewError (List Signature) := do
  fromRawParts 64 (← view.data) view.frame.signature.offset.toNat
    view.frame.signature.numSignatures.toNat

def messageData (view : TransactionView sanitized) : Outcome TransactionViewError Slice := do
  (← view.message).data

def contents (host : Endian) (view : TransactionView sanitized) :
    Outcome TransactionViewError MessageContents := do
  (← view.message).contents host

end TransactionView

end AgaveSdk.TxView
