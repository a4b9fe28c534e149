import AgaveSdk.Library.ByteOrder
import AgaveSdk.Library.LossyUtf8
import AgaveSdk.Library.Segments
import AgaveSdk.SchedulerHandshake.SetupSession

/-! The messages of the handshake. Both ends run on one host, so raw copies of integers are in the
same byte order. -/
namespace AgaveSdk.SchedulerHandshake
open FallibleState ByteOrder Segments

def bufferSize : ℕ := 1024

/-- A field of eight bytes as it stands in memory. -/
def fieldBytes (host : Endian) (n : UInt64) : List UInt8 := hostBytes host 8 n.toNat

/-- The field at the given position of a structure of such fields. -/
def fieldAt (host : Endian) (bytes : List UInt8) (position : ℕ) : UInt64 :=
  UInt64.ofNat (load host ((bytes.drop (8 * position)).take 8))

namespace ProtocolVersions

def fields (v : ProtocolVersions) : List UInt64 :=
  [v.handshake, v.schedulerBindings, v.shaq, v.rtsAlloc]

def serializedSize : ℕ := 32

def toBytes (host : Endian) (v : ProtocolVersions) : List UInt8 :=
  v.fields.flatMap (fieldBytes host)

def tryFromBytes (host : Endian) (buffer : List UInt8) : Option ProtocolVersions :=
  if buffer.length ≠ serializedSize then none
  else some ⟨fieldAt host buffer 0, fieldAt host buffer 1, fieldAt host buffer 2,
    fieldAt host buffer 3⟩

end ProtocolVersions

namespace ClientLogon

def fields (logon : ClientLogon) : List UInt64 :=
  [logon.workerCount, logon.checkWorkerCount, logon.simulateWorkerCount, logon.allocatorSize,
    logon.allocatorHandles, logon.tpuToPackCapacity, logon.progressTrackerCapacity,
    logon.packToWorkerCapacity, logon.workerToPackCapacity, logon.packToCheckWorkerCapacity,
    logon.checkWorkerToPackCapacity, logon.packToSimulateWorkerCapacity,
    logon.simulateWorkerToPackCapacity]

def size : ℕ := 104

def toBytes (host : Endian) (logon : ClientLogon) : List UInt8 :=
  logon.fields.flatMap (fieldBytes host)

def tryFromBytes (host : Endian) (buffer : List UInt8) : Option ClientLogon :=
  if buffer.length ≠ size then none
  else
    let field := fieldAt host buffer
    some ⟨field 0, field 1, field 2, field 3, field 4, field 5, field 6, field 7, field 8, field 9,
      field 10, field 11, field 12⟩

end ClientLogon

def logonEnd : ℕ := ProtocolVersions.serializedSize + ClientLogon.size

/-- A buffer of fixed size that keeps its content from one use to the next. -/
structure Buffer where
  bytes : List UInt8
  length_eq : bytes.length = bufferSize

namespace Buffer

def zeroed : Buffer := ⟨List.replicate bufferSize 0, List.length_replicate⟩

theorem write_length (b : Buffer) (offset : ℕ) (data : List UInt8) :
    (overwrite b.bytes offset (data.take (bufferSize - offset))).length = bufferSize := by
  have hb := b.length_eq
  by_cases h : offset ≤ bufferSize
  · rw [overwrite_length (by rw [hb, List.length_take]; omega), hb]
  · have hz : bufferSize - offset = 0 := by omega
    simp [hz, overwrite, hb]

/-- Writes what fits behind the offset. -/
def write (b : Buffer) (offset : ℕ) (data : List UInt8) : Buffer :=
  ⟨overwrite b.bytes offset (data.take (bufferSize - offset)), b.write_length offset data⟩

end Buffer

/-- What one read of a stream finds: bytes, after which the time may be up, or an error. A stream
without a further event has ended. -/
inductive ReadEvent where
  | data (bytes : List UInt8) (late : Bool)
  | error (text : String)
  deriving DecidableEq, Repr

/-- What happens to the server while it serves one connection. -/
structure Connection where
  acceptError : Option String
  timeoutError : Option String
  events : List ReadEvent
  environment : Environment
  sendError : Option String
  nonblockingError : Option String
  write : Except String ℕ

/-- The buffer of the server, the calls it made, and what it sent on the connection. -/
structure Server where
  buffer : Buffer
  calls : Calls
  sent : List UInt8
  sentFiles : List ℕ

/-- A step that fails with the given i/o error, if any. -/
def tryIo (failure : Option String) : Comp Server AgaveHandshakeError Unit :=
  match failure with
  | none => return ()
  | some text => throw (.err (.io text))

namespace Server

def new : Server := ⟨Buffer.zeroed, .empty, [], []⟩

/-- The loop that fills the buffer. Its position stays below the size of the buffer, so advancing
it cannot overflow. -/
def fillBuffer : List ReadEvent → ℕ → Comp Server AgaveHandshakeError Unit
  | [], bufferLen =>
      failIf (bufferLen < bufferSize) (.err .eofDuringHandshake : Stop AgaveHandshakeError)
  | event :: events, bufferLen =>
      if bufferLen < bufferSize then
        match event with
        | .error text => throw (.err (.io text))
        | .data bytes late => do
            let read := (bytes.take (bufferSize - bufferLen)).length
            modify fun server => { server with buffer := server.buffer.write bufferLen bytes }
            failIf (read = 0) (.err .eofDuringHandshake : Stop AgaveHandshakeError)
            failIf (late = true) (.err .timeout : Stop AgaveHandshakeError)
            fillBuffer events (bufferLen + read)
      else return ()

/-- The versions and then the logon message at the front of a full buffer. -/
def parseLogon (host : Endian) (current : ProtocolVersions) (buffer : List UInt8) :
    Outcome AgaveHandshakeError ClientLogon :=
  match ProtocolVersions.tryFromBytes host (buffer.take ProtocolVersions.serializedSize) with
  | none => .error (.fault .panic)
  | some clientVersions =>
      if clientVersions ≠ current then .error (.err (.version current clientVersions))
      else
        match ClientLogon.tryFromBytes host
          ((buffer.take logonEnd).drop ProtocolVersions.serializedSize) with
        | none => .error (.fault .panic)
        | some logon => .ok logon

def recvLogon (host : Endian) (current : ProtocolVersions) (events : List ReadEvent) :
    Comp Server AgaveHandshakeError ClientLogon := do
  fillBuffer events 0
  let server ← get
  ofOutcome (parseLogon host current server.buffer.bytes)

def handleLogon (host : Endian) (current : ProtocolVersions) (connection : Connection) :
    Comp Server AgaveHandshakeError AgaveSession := do
  let logon ← recvLogon host current connection.events
  let (session, files) ← zoom Server.calls (fun calls server => { server with calls := calls })
    (setupSession connection.environment logon)
  tryIo connection.sendError
  modify fun server => { server with sent := [logonSuccess], sentFiles := files }
  return session

/-- The length of a reason in one byte, or the largest one. -/
def reasonLen (reason : List UInt8) : UInt8 :=
  if reason.length < 256 then UInt8.ofNat reason.length else 255

def writeRejection (reason : List UInt8) (buffer : Buffer) : Buffer :=
  ((buffer.write 0 [logonFailure]).write 1 [reasonLen reason]).write 2
    (reason.take (reasonLen reason).toNat)

/-- Builds the rejection in the buffer and writes it to the stream. -/
def reject (debug : LibraryError → String) (connection : Connection) (err : AgaveHandshakeError) :
    Comp Server AgaveHandshakeError AgaveSession := do
  let reason := (err.display debug).toByteArray.data.toList
  let bufferLen := 2 + (reasonLen reason).toNat
  modify fun server => { server with buffer := writeRejection reason server.buffer }
  tryIo connection.nonblockingError
  match connection.write with
  | .error text => throw (.err (.io text))
  | .ok written =>
      modify fun server => { server with sent := (server.buffer.bytes.take bufferLen).take written }
      throw (.err err)

/-- The server at the start of a connection. -/
def connected (server : Server) : Server := { server with sent := [], sentFiles := [] }

def accept (host : Endian) (current : ProtocolVersions) (debug : LibraryError → String)
    (connection : Connection) : Comp Server AgaveHandshakeError AgaveSession := do
  modify connected
  tryIo connection.acceptError
  tryIo connection.timeoutError
  recover (handleLogon host current connection) (reject debug connection)

end Server

inductive ControlMessage where
  | scmRights (fds : List ℕ)
  | other
  deriving DecidableEq, Repr

/-- The result of `recvmsg`. The control messages cannot be listed when they were cut off. -/
structure Received where
  bytes : List UInt8
  cmsgs : Option (List ControlMessage)

namespace Client

def sendLogon (host : Endian) (logon : ClientLogon) (versions : ProtocolVersions) : List UInt8 :=
  overwrite (overwrite (List.replicate bufferSize 0) 0 (versions.toBytes host))
    ProtocolVersions.serializedSize (logon.toBytes host)

/-- Indexing past the received bytes panics. -/
def recvResponse (msg : Except String Received) : Outcome ClientHandshakeError (List ℕ) :=
  match msg with
  | .error text => .error (.err (.io text))
  | .ok msg =>
      match msg.bytes with
      | [] => .error (.err (.io "unexpected end of file"))
      | first :: rest =>
          if first = logonFailure then
            match rest with
            | [] => .error (.fault .panic)
            | reasonLen :: reason =>
                if reasonLen.toNat ≤ reason.length then
                  .error (.err (.rejected (LossyUtf8.decode (reason.take reasonLen.toNat))))
                else .error (.fault .panic)
          else
            match msg.cmsgs with
            | some (.scmRights fds :: _) => .ok fds
            | _ => .error (.fault .panic)

end Client
end AgaveSdk.SchedulerHandshake
