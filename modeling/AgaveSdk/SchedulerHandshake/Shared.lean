import AgaveSdk.Library.FallibleState

/-! What the two ends of a scheduler handshake share: the logon message and its validation, the
errors, and the sessions that each end holds. A `usize` has 64 bits. -/
namespace AgaveSdk.SchedulerHandshake
open FallibleState

def maxWorkers : ℕ := 64
def logonSuccess : UInt8 := 0x01
def logonFailure : UInt8 := 0x02
def globalShmem : ℕ := 3
def checkShmem : ℕ := 2
def simulateShmem : ℕ := 2
def workerShmem : ℕ := 2
def standardPageSize : ℕ := 4096
def hugePageSize : ℕ := 2 * 1024 * 1024
def pointerOffsetLimit : ℕ := 2 ^ 63 - 1

inductive PageSize where
  | standard
  | huge
  deriving DecidableEq, Repr

def PageSize.bytes : PageSize → ℕ
  | .standard => standardPageSize
  | .huge => hugePageSize

structure ProtocolVersions where
  handshake : UInt64
  schedulerBindings : UInt64
  shaq : UInt64
  rtsAlloc : UInt64
  deriving DecidableEq, Repr

def ProtocolVersions.display (v : ProtocolVersions) : String :=
  s!"handshake={v.handshake}, scheduler-bindings={v.schedulerBindings}, shaq={v.shaq}, " ++
    s!"rts-alloc={v.rtsAlloc}"

structure ClientLogon where
  workerCount : UInt64
  checkWorkerCount : UInt64
  simulateWorkerCount : UInt64
  allocatorSize : UInt64
  allocatorHandles : UInt64
  tpuToPackCapacity : UInt64
  progressTrackerCapacity : UInt64
  packToWorkerCapacity : UInt64
  workerToPackCapacity : UInt64
  packToCheckWorkerCapacity : UInt64
  checkWorkerToPackCapacity : UInt64
  packToSimulateWorkerCapacity : UInt64
  simulateWorkerToPackCapacity : UInt64
  deriving DecidableEq, Repr

/-- The message types of the queues. -/
inductive Message where
  | tpuToPack
  | progress
  | packToExecutionWorker
  | executionWorkerToPack
  | packToCheckWorker
  | checkWorkerToPack
  deriving DecidableEq, Repr

/-- The modules `shaq::spsc` and `shaq::mpmc`. -/
inductive Flavour where
  | spsc
  | mpmc
  deriving DecidableEq, Repr

inductive EndpointKind where
  | producer
  | consumer
  deriving DecidableEq, Repr

def EndpointKind.opposite : EndpointKind → EndpointKind
  | .producer => .consumer
  | .consumer => .producer

/-- An error of `rts_alloc` or `shaq`: an i/o error it wraps, or one of its own. An i/o error is
known by its text. -/
inductive LibraryError where
  | io (error : String)
  | own (error : String)
  deriving DecidableEq, Repr

inductive AgaveHandshakeError where
  | io (error : String)
  | timeout
  | eofDuringHandshake
  | version (server client : ProtocolVersions)
  | workerCount (count : UInt64)
  | checkWorkerCount (count : UInt64)
  | simulateWorkerCount (count : UInt64)
  | allocatorHandles (count : UInt64)
  | allocatorSize (size : UInt64)
  | queueCapacity (field : String) (capacity : UInt64)
  | rtsAlloc (error : LibraryError)
  | shaq (error : LibraryError)
  deriving DecidableEq, Repr

/-- The text of an error. How the libraries print their own errors is a parameter. -/
def AgaveHandshakeError.display (debug : LibraryError → String) : AgaveHandshakeError → String
  | .io error => s!"Io; err={error}"
  | .timeout => "Timeout"
  | .eofDuringHandshake => "Close during handshake"
  | .version server client =>
      "Version; server=(" ++ server.display ++ "); client=(" ++ client.display ++ ")"
  | .workerCount count => s!"Worker count; count={count}"
  | .checkWorkerCount count => s!"Check worker count; count={count}"
  | .simulateWorkerCount count => s!"Simulate worker count; count={count}"
  | .allocatorHandles count => s!"Allocator handles; count={count}"
  | .allocatorSize size => s!"Allocator size cannot be represented; size={size}"
  | .queueCapacity field capacity =>
      s!"Queue capacity cannot be represented; field={field}, capacity={capacity}"
  | .rtsAlloc error => "Rts alloc; err=" ++ debug error
  | .shaq error => "Shaq; err=" ++ debug error

inductive ClientHandshakeError where
  | io (error : String)
  | timedOut
  | protocolViolation
  | rejected (reason : String)
  | rtsAlloc (error : LibraryError)
  | shaq (error : LibraryError)
  deriving DecidableEq, Repr

def checkedAdd (a b : ℕ) : Option ℕ := if a + b < 2 ^ 64 then some (a + b) else none

def checkedMul (a b : ℕ) : Option ℕ := if a * b < 2 ^ 64 then some (a * b) else none

theorem checkedAdd_eq_some {a b c : ℕ} : checkedAdd a b = some c ↔ a + b = c ∧ c < 2 ^ 64 := by
  unfold checkedAdd
  split <;> simp <;> omega

theorem checkedMul_eq_some {a b c : ℕ} : checkedMul a b = some c ↔ a * b = c ∧ c < 2 ^ 64 := by
  unfold checkedMul
  split <;> simp <;> omega

def checkedNextMultipleOf (a b : ℕ) : Option ℕ :=
  if b = 0 then none
  else if a % b = 0 then some a
  else checkedAdd a (b - a % b)

/-- Rounds up to a page boundary while keeping the mapping size within pointer-offset limits. -/
def checkedFileSize (size : ℕ) (pageSize : PageSize) : Option ℕ :=
  (checkedNextMultipleOf size pageSize.bytes).filter (· ≤ pointerOffsetLimit)

/-- `try_minimum_file_size`, for each module of `shaq` and each message type. -/
abbrev MinimumFileSize := Flavour → Message → UInt64 → Except LibraryError ℕ

def rejectIf (c : Prop) [Decidable c] (e : AgaveHandshakeError) :
    Outcome AgaveHandshakeError Unit :=
  failIf c (.err e)

namespace ClientLogon

def expectedFileCount (logon : ClientLogon) : Option ℕ := do
  let checkFiles := if logon.checkWorkerCount > 0 then checkShmem else 0
  let simulateFiles := if logon.simulateWorkerCount > 0 then simulateShmem else 0
  let count ← checkedMul logon.workerCount.toNat workerShmem
  let count ← checkedAdd count globalShmem
  let count ← checkedAdd count checkFiles
  checkedAdd count simulateFiles

def allocatorCount (logon : ClientLogon) : Option UInt32 := do
  if logon.allocatorHandles = 0 then none
  -- The TPU uses one handle, in addition to the worker and external process handles.
  let count ← checkedAdd logon.workerCount.toNat logon.checkWorkerCount.toNat
  let count ← checkedAdd count logon.simulateWorkerCount.toNat
  let count ← checkedAdd count logon.allocatorHandles.toNat
  let count ← checkedAdd count 1
  if count < 2 ^ 32 then some (UInt32.ofNat count) else none

def validateQueueCapacity (field : String) (capacity : UInt64)
    (minimumFileSize : UInt64 → Except LibraryError ℕ) (pageSize : PageSize) :
    Outcome AgaveHandshakeError Unit := do
  let size ← okOr (minimumFileSize capacity).toOption (.queueCapacity field capacity)
  let _ ← okOr (checkedFileSize size pageSize) (.queueCapacity field capacity)
  return ()

def validate (minimumFileSize : MinimumFileSize) (logon : ClientLogon) :
    Outcome AgaveHandshakeError Unit := do
  rejectIf (¬ (1 ≤ logon.workerCount.toNat ∧ logon.workerCount.toNat ≤ maxWorkers))
    (.workerCount logon.workerCount)
  rejectIf (logon.checkWorkerCount.toNat > maxWorkers) (.checkWorkerCount logon.checkWorkerCount)
  rejectIf (logon.simulateWorkerCount.toNat > maxWorkers)
    (.simulateWorkerCount logon.simulateWorkerCount)
  let _ ← okOr logon.allocatorCount (.allocatorHandles logon.allocatorHandles)
  let _ ←
    okOr (checkedFileSize logon.allocatorSize.toNat .huge) (.allocatorSize logon.allocatorSize)
  validateQueueCapacity "tpu_to_pack_capacity" logon.tpuToPackCapacity
    (minimumFileSize .spsc .tpuToPack) .huge
  validateQueueCapacity "progress_tracker_capacity" logon.progressTrackerCapacity
    (minimumFileSize .spsc .progress) .standard
  validateQueueCapacity "pack_to_worker_capacity" logon.packToWorkerCapacity
    (minimumFileSize .spsc .packToExecutionWorker) .huge
  validateQueueCapacity "worker_to_pack_capacity" logon.workerToPackCapacity
    (minimumFileSize .spsc .executionWorkerToPack) .huge
  if logon.checkWorkerCount > 0 then
    validateQueueCapacity "pack_to_check_worker_capacity" logon.packToCheckWorkerCapacity
      (minimumFileSize .mpmc .packToCheckWorker) .huge
    validateQueueCapacity "check_worker_to_pack_capacity" logon.checkWorkerToPackCapacity
      (minimumFileSize .mpmc .checkWorkerToPack) .huge
  if logon.simulateWorkerCount > 0 then
    validateQueueCapacity "pack_to_simulate_worker_capacity" logon.packToSimulateWorkerCapacity
      (minimumFileSize .mpmc .packToExecutionWorker) .huge
    validateQueueCapacity "simulate_worker_to_pack_capacity" logon.simulateWorkerToPackCapacity
      (minimumFileSize .mpmc .executionWorkerToPack) .huge

/-- The file of a queue of the capacity has a size that can be represented. -/
def QueueFits (minimumFileSize : UInt64 → Except LibraryError ℕ) (capacity : UInt64)
    (pageSize : PageSize) : Prop :=
  ∃ size, minimumFileSize capacity = .ok size ∧ ∃ n, checkedFileSize size pageSize = some n

/-- What validation establishes. -/
structure Validated (minimumFileSize : MinimumFileSize) (logon : ClientLogon) : Prop where
  workers : 1 ≤ logon.workerCount.toNat ∧ logon.workerCount.toNat ≤ maxWorkers
  checkWorkers : logon.checkWorkerCount.toNat ≤ maxWorkers
  simulateWorkers : logon.simulateWorkerCount.toNat ≤ maxWorkers
  allocatorCount : ∃ count, logon.allocatorCount = some count
  allocatorSize : ∃ n, checkedFileSize logon.allocatorSize.toNat .huge = some n
  tpuToPack : QueueFits (minimumFileSize .spsc .tpuToPack) logon.tpuToPackCapacity .huge
  progressTracker :
    QueueFits (minimumFileSize .spsc .progress) logon.progressTrackerCapacity .standard
  packToWorker :
    QueueFits (minimumFileSize .spsc .packToExecutionWorker) logon.packToWorkerCapacity .huge
  workerToPack :
    QueueFits (minimumFileSize .spsc .executionWorkerToPack) logon.workerToPackCapacity .huge
  check : logon.checkWorkerCount > 0 →
    QueueFits (minimumFileSize .mpmc .packToCheckWorker) logon.packToCheckWorkerCapacity .huge ∧
      QueueFits (minimumFileSize .mpmc .checkWorkerToPack) logon.checkWorkerToPackCapacity .huge
  simulate : logon.simulateWorkerCount > 0 →
    QueueFits (minimumFileSize .mpmc .packToExecutionWorker) logon.packToSimulateWorkerCapacity
        .huge ∧
      QueueFits (minimumFileSize .mpmc .executionWorkerToPack) logon.simulateWorkerToPackCapacity
        .huge

theorem validateQueueCapacity_eq_ok {field : String} {capacity : UInt64}
    {minimumFileSize : UInt64 → Except LibraryError ℕ} {pageSize : PageSize} {u : Unit} :
    validateQueueCapacity field capacity minimumFileSize pageSize = .ok u ↔
      QueueFits minimumFileSize capacity pageSize := by
  unfold validateQueueCapacity QueueFits
  cases minimumFileSize capacity with
  | error e => simp [Except.toOption]
  | ok size => simp [Except.toOption, pure, Except.pure]

theorem validate_eq_ok {minimumFileSize : MinimumFileSize} {logon : ClientLogon} :
    logon.validate minimumFileSize = .ok () ↔ Validated minimumFileSize logon := by
  simp only [validate, rejectIf, outcome_bind_ok, outcome_failIf_ok, okOr_eq_ok, exists_const,
    validateQueueCapacity_eq_ok, not_not, gt_iff_lt, not_lt]
  constructor
  · rintro ⟨h₁, h₂, h₃, count, h₄, n, h₅, h₆, h₇, h₈, h₉, h⟩
    refine ⟨h₁, h₂, h₃, ⟨count, h₄⟩, ⟨n, h₅⟩, h₆, h₇, h₈, h₉, fun hc => ?_, fun hs => ?_⟩
    · rw [if_pos hc] at h
      simp only [outcome_bind_ok, exists_const, validateQueueCapacity_eq_ok] at h
      exact ⟨h.1, h.2.1⟩
    · simp only [if_pos hs] at h
      split at h
      · simp only [outcome_bind_ok, exists_const, validateQueueCapacity_eq_ok] at h
        exact h.2.2
      · simpa [validateQueueCapacity_eq_ok] using h
  · rintro ⟨h₁, h₂, h₃, ⟨count, h₄⟩, ⟨n, h₅⟩, h₆, h₇, h₈, h₉, hc, hs⟩
    refine ⟨h₁, h₂, h₃, count, h₄, n, h₅, h₆, h₇, h₈, h₉, ?_⟩
    split <;> split <;> simp_all [validateQueueCapacity_eq_ok, pure, Except.pure]

end ClientLogon

/-- A mapped allocator, known by the file it maps. -/
structure Allocator where
  file : ℕ
  deriving DecidableEq, Repr

/-- `Producer<T>` or `Consumer<T>` of `shaq::spsc` or `shaq::mpmc`, known by the file it maps. -/
structure Endpoint (flavour : Flavour) (kind : EndpointKind) (message : Message) where
  file : ℕ
  deriving DecidableEq, Repr

structure ClientWorkerSession where
  packToWorker : Endpoint .spsc .producer .packToExecutionWorker
  workerToPack : Endpoint .spsc .consumer .executionWorkerToPack
  deriving DecidableEq, Repr

structure ClientCheckWorkerSession where
  packToCheckWorker : Endpoint .mpmc .producer .packToCheckWorker
  checkWorkerToPack : Endpoint .mpmc .consumer .checkWorkerToPack
  deriving DecidableEq, Repr

structure ClientSimulateWorkerSession where
  packToSimulateWorker : Endpoint .mpmc .producer .packToExecutionWorker
  simulateWorkerToPack : Endpoint .mpmc .consumer .executionWorkerToPack
  deriving DecidableEq, Repr

structure ClientSession where
  allocator : Allocator
  tpuToPack : Endpoint .spsc .consumer .tpuToPack
  progressTracker : Endpoint .spsc .consumer .progress
  workers : List ClientWorkerSession
  checkWorkers : Option ClientCheckWorkerSession
  simulateWorkers : Option ClientSimulateWorkerSession
  deriving DecidableEq, Repr

structure AgaveTpuToPackSession where
  allocator : Allocator
  producer : Endpoint .spsc .producer .tpuToPack
  deriving DecidableEq, Repr

structure AgaveWorkerSession where
  allocator : Allocator
  packToWorker : Endpoint .spsc .consumer .packToExecutionWorker
  workerToPack : Endpoint .spsc .producer .executionWorkerToPack
  deriving DecidableEq, Repr

structure AgaveCheckWorkerSession where
  allocator : Allocator
  packToCheckWorker : Endpoint .mpmc .consumer .packToCheckWorker
  checkWorkerToPack : Endpoint .mpmc .producer .checkWorkerToPack
  deriving DecidableEq, Repr

structure AgaveSimulateWorkerSession where
  allocator : Allocator
  packToSimulateWorker : Endpoint .mpmc .consumer .packToExecutionWorker
  simulateWorkerToPack : Endpoint .mpmc .producer .executionWorkerToPack
  deriving DecidableEq, Repr

structure AgaveSession where
  tpuToPack : AgaveTpuToPackSession
  progressTracker : Endpoint .spsc .producer .progress
  workers : List AgaveWorkerSession
  checkWorkers : List AgaveCheckWorkerSession
  simulateWorkers : List AgaveSimulateWorkerSession
  deriving DecidableEq, Repr

end AgaveSdk.SchedulerHandshake
