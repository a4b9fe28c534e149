import AgaveSdk.TransactionView.View

/-! The checks that turn an unsanitized view into a sanitized one. -/
namespace AgaveSdk.TxView
open FallibleState ByteOrder Draining

def rejectInsane (c : Prop) [Decidable c] : Outcome TransactionViewError Unit :=
  failIf c (Stop.err TransactionViewError.sanitizeError)

def isLegacyOrV0 : TransactionVersion → Bool
  | .legacy | .v0 => true
  | .v1 => false

/-- Legacy and v0 transactions fit one packet. -/
def sanitizeTransactionSize (view : TransactionView false) : Outcome TransactionViewError Unit := do
  rejectInsane ((← view.data).len > packetDataSize)

/-- The transaction formed by signing a legacy or v0 message fits one packet. -/
def sanitizeMessageSize (view : UnsanitizedMessageViewRef) :
    Outcome TransactionViewError Unit := do
  let signedLen := wrappingAdd (wrappingMul view.numRequiredSignatures.toNat 64) (← view.data).len
  rejectInsane (wrappingAdd signedLen 1 > packetDataSize)

/-- The last check subtracts before it is known that there are enough keys. -/
def sanitizeMessageHeader (view : UnsanitizedMessageViewRef) :
    Outcome TransactionViewError Unit := do
  rejectInsane (view.numRequiredSignatures < 1)
  rejectInsane (view.numReadonlySignedStaticAccounts ≥ view.numRequiredSignatures)
  rejectInsane (view.numReadonlyUnsignedStaticAccounts >
    view.numStaticAccountKeys - view.numRequiredSignatures)

def sanitizeSignatures (view : TransactionView false) : Outcome TransactionViewError Unit :=
  rejectInsane (view.numSignatures ≠ view.numRequiredSignatures)

def sanitizeRequiredSignatures (view : UnsanitizedMessageViewRef) :
    Outcome TransactionViewError Unit :=
  rejectInsane (view.numStaticAccountKeys < view.numRequiredSignatures)

def saturatingAdd (x y : UInt16) : UInt16 := UInt16.ofNat (min (x.toNat + y.toNat) 65535)

def totalNumberOfAccounts (view : UnsanitizedMessageViewRef) : UInt16 :=
  saturatingAdd (saturatingAdd view.numStaticAccountKeys.toUInt16 view.totalWritableLookupAccounts)
    view.totalReadonlyLookupAccounts

def sanitizeAccountAccess (view : UnsanitizedMessageViewRef) :
    Outcome TransactionViewError Unit :=
  rejectInsane (isLegacyOrV0 view.version ∧ totalNumberOfAccounts view > 256)

/-- The body of the loop over the instructions. -/
def sanitizeInstruction (maxProgramIdIndex maxAccountIndex : UInt8) (instruction : SVMInstruction) :
    Outcome TransactionViewError Unit := do
  rejectInsane (instruction.programIdIndex > maxProgramIdIndex)
  rejectInsane (instruction.programIdIndex = 0)
  forM instruction.accounts fun accountIndex => rejectInsane (accountIndex > maxAccountIndex)

def sanitizeInstructions (host : Endian) (view : UnsanitizedMessageViewRef) :
    Outcome TransactionViewError Unit :=
  let maxProgramIdIndex := view.numStaticAccountKeys - 1
  let maxAccountIndex := (totalNumberOfAccounts view - 1).toUInt8
  forEach (InstructionsIterator.next host) (sanitizeInstruction maxProgramIdIndex maxAccountIndex)
    (view.instructionsIter.len + 1) view.instructionsIter

def sanitizeAddressTableLookup (lookup : SVMMessageAddressTableLookup) :
    Outcome TransactionViewError Unit :=
  rejectInsane (lookup.writableIndexes.isEmpty ∧ lookup.readonlyIndexes.isEmpty)

def sanitizeAddressTableLookups (view : UnsanitizedMessageViewRef) :
    Outcome TransactionViewError Unit :=
  forEach AddressTableLookupIterator.next sanitizeAddressTableLookup
    (view.addressTableLookupIter.len + 1) view.addressTableLookupIter

def sanitizeMessageBody (host : Endian) (view : UnsanitizedMessageViewRef) :
    Outcome TransactionViewError Unit := do
  sanitizeMessageHeader view
  sanitizeRequiredSignatures view
  sanitizeAccountAccess view
  sanitizeInstructions host view
  sanitizeAddressTableLookups view

def sanitize (host : Endian) (view : TransactionView false) :
    Outcome TransactionViewError Unit := do
  if isLegacyOrV0 view.version then sanitizeTransactionSize view
  sanitizeSignatures view
  sanitizeMessageBody host (← view.message)

def sanitizeMessage (host : Endian) (view : UnsanitizedMessageViewRef) :
    Outcome TransactionViewError Unit := do
  if isLegacyOrV0 view.version then sanitizeMessageSize view
  sanitizeMessageBody host view

namespace MessageView

def sanitize (host : Endian) (view : MessageView false) :
    Outcome TransactionViewError (MessageView true) := do
  sanitizeMessage host (← view.message)
  return ⟨view.innerData, view.messageFrame⟩

def tryNewSanitized (host : Endian) (data : Slice) :
    Outcome TransactionViewError (MessageView true) := do
  (← tryNewUnsanitized host data).sanitize host

end MessageView

namespace TransactionView

def sanitize (host : Endian) (view : TransactionView false) :
    Outcome TransactionViewError (TransactionView true) := do
  TxView.sanitize host view
  return ⟨view.innerData, view.frame⟩

def tryNewSanitized (host : Endian) (data : Slice) :
    Outcome TransactionViewError (TransactionView true) := do
  (← tryNewUnsanitized host data).sanitize host

def tryNewSanitizedFromPrefix (host : Endian) (data : Slice) :
    Outcome TransactionViewError (TransactionView true × ℕ) := do
  let parsed ← tryNewUnsanitizedFromPrefix host data
  return (← parsed.1.sanitize host, parsed.2)

end TransactionView

end AgaveSdk.TxView
