import AgaveSdk.SchedulerHandshake.Shared
import Mathlib.Order.Basic

/-! Setting up a session. The server creates the files and its own endpoints, the client joins the
files it was sent. -/
namespace AgaveSdk.SchedulerHandshake
open FallibleState

/-- What the code asks of the operating system, of `rts_alloc` and of `shaq`. -/
inductive Call where
  | memfdCreate (pageSize : PageSize)
  | createAllocator (file fileSize : ℕ) (allocatorCount : UInt32) (slabSize : ℕ)
  | joinFromExisting (allocator : Allocator)
  | joinAllocator (file : ℕ)
  | createEndpoint (flavour : Flavour) (kind : EndpointKind) (message : Message)
      (file fileSize : ℕ)
  | joinEndpoint (flavour : Flavour) (kind : EndpointKind) (message : Message) (file : ℕ)
  deriving DecidableEq, Repr

/-- The calls made so far, in order. A call is numbered by the calls before it, and files are told
apart by the numbers of the calls that created them. -/
structure Calls where
  made : List Call

namespace Calls

def empty : Calls := ⟨[]⟩

def count (calls : Calls) : ℕ := calls.made.length

def add (calls : Calls) (call : Call) : Calls := ⟨calls.made ++ [call]⟩

@[simp] theorem count_add (calls : Calls) (call : Call) :
    (calls.add call).count = calls.count + 1 := by
  simp [count, add]

/-- Later states have made more calls. -/
instance : Preorder Calls := Preorder.lift count

end Calls

/-- The world around a setup: the sizes that `shaq` needs, and the calls that fail, by the number
of the call. -/
structure Environment where
  minimumFileSize : MinimumFileSize
  failure : ℕ → Call → Option String

abbrev Setup (ε α : Type) := Comp Calls ε α

/-- Makes a call and returns its number. -/
def request {ε : Type} (env : Environment) (error : String → ε) (call : Call) : Setup ε ℕ := do
  let calls ← get
  modify fun calls => calls.add call
  match env.failure calls.count call with
  | none => return calls.count
  | some text => throw (.err (error text))

def createShmem (env : Environment) (pageSize : PageSize) : Setup String ℕ :=
  request env id (.memfdCreate pageSize)

def alignFileSize (size : ℕ) (pageSize : PageSize) : Outcome String ℕ :=
  okOr (checkedFileSize size pageSize) "file size cannot be represented"

/-- Try to create with huge pages, fallback to regular pages. -/
def createWithPages {ε α : Type} (create : PageSize → Setup ε α) : PageSize → Setup ε α
  | .huge => orTry (create .huge) (create .standard)
  | .standard => create .standard

namespace Server

/-- The closure `create` of `create_allocator`. -/
def createAllocatorFile (env : Environment) (logon : ClientLogon) (allocatorCount : UInt32)
    (pageSize : PageSize) : Setup LibraryError (ℕ × Allocator) := do
  let allocatorFile ← mapErr .io (createShmem env pageSize)
  let allocatorFileSize ← mapErr .io (ofOutcome (alignFileSize logon.allocatorSize.toNat pageSize))
  let _ ← request env .own
    (.createAllocator allocatorFile allocatorFileSize allocatorCount hugePageSize)
  return (allocatorFile, ⟨allocatorFile⟩)

def createAllocator (env : Environment) (logon : ClientLogon) :
    Setup LibraryError (ℕ × Allocator) :=
  match logon.allocatorCount with
  | none => throw (.fault .panic)
  | some allocatorCount => createWithPages (createAllocatorFile env logon allocatorCount) .huge

/-- The closure `create` of each function that creates a queue. -/
def createEndpoint (env : Environment) (flavour : Flavour) (kind : EndpointKind) (message : Message)
    (capacity : UInt64) (pageSize : PageSize) :
    Setup LibraryError (ℕ × Endpoint flavour kind message) := do
  let file ← mapErr .io (createShmem env pageSize)
  let minimumFileSize ← ofOutcome ((env.minimumFileSize flavour message capacity).mapError .err)
  let fileSize ← mapErr .io (ofOutcome (alignFileSize minimumFileSize pageSize))
  let _ ← request env .own (.createEndpoint flavour kind message file fileSize)
  return (file, ⟨file⟩)

def createProducer (env : Environment) (message : Message) (capacity : UInt64)
    (pageSize : PageSize) : Setup LibraryError (ℕ × Endpoint .spsc .producer message) :=
  createWithPages (createEndpoint env .spsc .producer message capacity) pageSize

def createConsumer (env : Environment) (capacity : UInt64) :
    Setup LibraryError (ℕ × Endpoint .spsc .consumer .packToExecutionWorker) :=
  createWithPages (createEndpoint env .spsc .consumer .packToExecutionWorker capacity) .huge

def createMpmcProducer (env : Environment) (message : Message) (capacity : UInt64)
    (pageSize : PageSize) : Setup LibraryError (ℕ × Endpoint .mpmc .producer message) :=
  createWithPages (createEndpoint env .mpmc .producer message capacity) pageSize

def createMpmcConsumer (env : Environment) (message : Message) (capacity : UInt64) :
    Setup LibraryError (ℕ × Endpoint .mpmc .consumer message) :=
  createWithPages (createEndpoint env .mpmc .consumer message capacity) .huge

/-- A second handle of the allocator, on the same file. -/
def joinFromExisting (env : Environment) (allocator : Allocator) :
    Setup LibraryError Allocator := do
  let _ ← request env .own (.joinFromExisting allocator)
  return allocator

/-- One round of the fold over the workers. -/
def addWorker (env : Environment) (logon : ClientLogon) (allocator : Allocator)
    (acc : List ℕ × List AgaveWorkerSession) :
    Setup AgaveHandshakeError (List ℕ × List AgaveWorkerSession) := do
  let workerAllocator ← mapErr .rtsAlloc (joinFromExisting env allocator)
  let (packToWorkerFile, packToWorker) ←
    mapErr .shaq (createConsumer env logon.packToWorkerCapacity)
  let (workerToPackFile, workerToPack) ←
    mapErr .shaq (createProducer env .executionWorkerToPack logon.workerToPackCapacity .huge)
  return (acc.1 ++ [packToWorkerFile, workerToPackFile],
    acc.2 ++ [⟨workerAllocator, packToWorker, workerToPack⟩])

/-- Workers that share one queue of requests and one of responses. -/
def sharedWorkers {α : Type} (env : Environment) (allocator : Allocator) (count : UInt64)
    (request response : Message) (requestCapacity responseCapacity : UInt64)
    (session :
      Allocator → Endpoint .mpmc .consumer request → Endpoint .mpmc .producer response → α) :
    Setup AgaveHandshakeError (List ℕ × List α) :=
  if count = 0 then return ([], [])
  else do
    let (requestFile, requestQueue) ← mapErr .shaq (createMpmcConsumer env request requestCapacity)
    let (responseFile, responseQueue) ←
      mapErr .shaq (createMpmcProducer env response responseCapacity .huge)
    let workers ← (List.range count.toNat).mapM fun _ => do
      let workerAllocator ← mapErr .rtsAlloc (joinFromExisting env allocator)
      return session workerAllocator requestQueue responseQueue
    return ([requestFile, responseFile], workers)

def checkWorkers (env : Environment) (logon : ClientLogon) (allocator : Allocator) :
    Setup AgaveHandshakeError (List ℕ × List AgaveCheckWorkerSession) :=
  sharedWorkers env allocator logon.checkWorkerCount .packToCheckWorker .checkWorkerToPack
    logon.packToCheckWorkerCapacity logon.checkWorkerToPackCapacity AgaveCheckWorkerSession.mk

def simulateWorkers (env : Environment) (logon : ClientLogon) (allocator : Allocator) :
    Setup AgaveHandshakeError (List ℕ × List AgaveSimulateWorkerSession) :=
  sharedWorkers env allocator logon.simulateWorkerCount .packToExecutionWorker
    .executionWorkerToPack logon.packToSimulateWorkerCapacity logon.simulateWorkerToPackCapacity
    AgaveSimulateWorkerSession.mk

/-- Creates the server endpoints and files in protocol order for one client setup. -/
def setupSession (env : Environment) (logon : ClientLogon) :
    Setup AgaveHandshakeError (AgaveSession × List ℕ) := do
  ofOutcome (logon.validate env.minimumFileSize)
  let (allocatorFile, allocator) ← mapErr .rtsAlloc (createAllocator env logon)
  let (tpuToPackFile, tpuToPackQueue) ←
    mapErr .shaq (createProducer env .tpuToPack logon.tpuToPackCapacity .huge)
  let (progressTrackerFile, progressTracker) ←
    mapErr .shaq (createProducer env .progress logon.progressTrackerCapacity .standard)
  let (workerFiles, workers) ←
    (List.range logon.workerCount.toNat).foldlM (fun acc _ => addWorker env logon allocator acc)
      ([], [])
  let (checkFiles, checkWorkers) ← checkWorkers env logon allocator
  let (simulateFiles, simulateWorkers) ← simulateWorkers env logon allocator
  return (⟨⟨allocator, tpuToPackQueue⟩, progressTracker, workers, checkWorkers, simulateWorkers⟩,
    [allocatorFile, tpuToPackFile, progressTrackerFile] ++ workerFiles ++ checkFiles ++
      simulateFiles)

end Server

namespace Client

/-- The maximum size in bytes of the control message that holds the files, four bytes each. -/
def cmsgMaxSize : ℕ := (globalShmem + maxWorkers * workerShmem + checkShmem + simulateShmem) * 4

/-- `split_at`, which panics when the index is past the end. -/
def splitAt (files : List ℕ) (index : ℕ) : Outcome ClientHandshakeError (List ℕ × List ℕ) :=
  if index ≤ files.length then .ok (files.take index, files.drop index)
  else .error (.fault .panic)

/-- `chunks(2)`, whose last chunk may be short. -/
def chunksOfTwo : List ℕ → List (List ℕ)
  | [] => []
  | [a] => [[a]]
  | a :: b :: files => [a, b] :: chunksOfTwo files

def joinAllocator (env : Environment) (file : ℕ) : Setup ClientHandshakeError Allocator := do
  let _ ← request env (fun error => .rtsAlloc (.own error)) (.joinAllocator file)
  return ⟨file⟩

def joinEndpoint (env : Environment) (flavour : Flavour) (kind : EndpointKind) (message : Message)
    (file : ℕ) : Setup ClientHandshakeError (Endpoint flavour kind message) := do
  let _ ← request env (fun error => .shaq (.own error)) (.joinEndpoint flavour kind message file)
  return ⟨file⟩

/-- The branch `if let [request_file, response_file]` for workers that share two queues. -/
def joinShared {α : Type} (env : Environment) (request response : Message)
    (session : Endpoint .mpmc .producer request → Endpoint .mpmc .consumer response → α) :
    List ℕ → Setup ClientHandshakeError (Option α)
  | [requestFile, responseFile] => do
      let requestQueue ← joinEndpoint env .mpmc .producer request requestFile
      let responseQueue ← joinEndpoint env .mpmc .consumer response responseFile
      return some (session requestQueue responseQueue)
  | _ => return none

/-- The closure over the chunks, which panics unless a chunk holds two files. -/
def joinWorker (env : Environment) : List ℕ → Setup ClientHandshakeError ClientWorkerSession
  | [packToWorker, workerToPack] => do
      let packToWorker ← joinEndpoint env .spsc .producer .packToExecutionWorker packToWorker
      let workerToPack ← joinEndpoint env .spsc .consumer .executionWorkerToPack workerToPack
      return ⟨packToWorker, workerToPack⟩
  | _ => throw (.fault .panic)

/-- Joins the client endpoints from files created by the matching server setup. -/
def setupSession (env : Environment) (logon : ClientLogon) (files : List ℕ) :
    Setup ClientHandshakeError ClientSession := do
  let expectedFileCount ← ofOutcome (okOr logon.expectedFileCount .protocolViolation)
  failIf (files.length ≠ expectedFileCount) (.err .protocolViolation : Stop ClientHandshakeError)
  let (globalFiles, remainingFiles) ← ofOutcome (splitAt files globalShmem)
  let workerFileCount ←
    ofOutcome (okOr (checkedMul logon.workerCount.toNat workerShmem) .protocolViolation)
  let (workerFiles, remainingFiles) ← ofOutcome (splitAt remainingFiles workerFileCount)
  let checkFileCount := if logon.checkWorkerCount > 0 then checkShmem else 0
  let (checkFiles, simulateFiles) ← ofOutcome (splitAt remainingFiles checkFileCount)
  match globalFiles with
  | [allocatorFile, tpuToPackFile, progressTrackerFile] =>
      let allocator ← joinAllocator env allocatorFile
      let checkWorkers ←
        joinShared env .packToCheckWorker .checkWorkerToPack ClientCheckWorkerSession.mk checkFiles
      let simulateWorkers ←
        joinShared env .packToExecutionWorker .executionWorkerToPack
          ClientSimulateWorkerSession.mk simulateFiles
      let tpuToPack ← joinEndpoint env .spsc .consumer .tpuToPack tpuToPackFile
      let progressTracker ← joinEndpoint env .spsc .consumer .progress progressTrackerFile
      let workers ← (chunksOfTwo workerFiles).mapM (joinWorker env)
      return ⟨allocator, tpuToPack, progressTracker, workers, checkWorkers, simulateWorkers⟩
  | _ => throw (.fault .panic)

end Client

inductive SessionSetupError where
  | server (error : AgaveHandshakeError)
  | client (error : ClientHandshakeError)
  deriving DecidableEq, Repr

/-- Creates both sides of a local session without a socket. -/
def setupLocalSession (env : Environment) (logon : ClientLogon) :
    Setup SessionSetupError (AgaveSession × ClientSession) := do
  let (agave, files) ← mapErr .server (Server.setupSession env logon)
  let client ← mapErr .client (Client.setupSession env logon files)
  return (agave, client)

end AgaveSdk.SchedulerHandshake
