import AgaveSdk.SchedulerHandshake.AllocatorHandles
import Mathlib.Order.Bounds.Basic

/-! Validation against setup: the handles that are counted, and the sizes that are computed. -/
namespace AgaveSdk.SchedulerHandshake
open FallibleState

variable {logon : ClientLogon} {env env' : Environment}

theorem PageSize.bytes_pos (pageSize : PageSize) : 0 < pageSize.bytes := by
  cases pageSize <;> decide

theorem PageSize.standard_dvd (pageSize : PageSize) : standardPageSize ∣ pageSize.bytes := by
  cases pageSize <;> decide

/-- The sizes in whole pages that hold the given number of bytes. -/
def wholePages (pageSize : PageSize) (size : ℕ) : Set ℕ := {n | pageSize.bytes ∣ n ∧ size ≤ n}

def roundUp (size bytes : ℕ) : ℕ := if size % bytes = 0 then size else size + (bytes - size % bytes)

theorem isLeast_roundUp (pageSize : PageSize) (size : ℕ) :
    IsLeast (wholePages pageSize size) (roundUp size pageSize.bytes) := by
  have hpos := pageSize.bytes_pos
  generalize hb : pageSize.bytes = bytes at hpos
  have hlt := Nat.mod_lt size hpos
  have hdiv := Nat.div_add_mod size bytes
  rw [wholePages, hb, roundUp]
  split
  next hr => exact ⟨⟨Nat.dvd_of_mod_eq_zero hr, le_rfl⟩, fun n hn => hn.2⟩
  next hr =>
    have hup : size + (bytes - size % bytes) = bytes * (size / bytes + 1) := by
      rw [Nat.mul_add, Nat.mul_one]
      omega
    refine ⟨⟨⟨_, hup⟩, by omega⟩, ?_⟩
    rintro n ⟨⟨pages, rfl⟩, hle⟩
    -- the number of pages is not below the quotient, and not equal to it
    rw [hup]
    apply Nat.mul_le_mul_left
    by_contra hpages
    have hmul := Nat.mul_le_mul_left bytes (show pages ≤ size / bytes by omega)
    omega

/-- A size is computed exactly if the least number of whole pages is within the limit. -/
theorem checkedFileSize_eq_some {size n : ℕ} {pageSize : PageSize} :
    checkedFileSize size pageSize = some n ↔
      IsLeast (wholePages pageSize size) n ∧ n ≤ pointerOffsetLimit := by
  have hround : checkedFileSize size pageSize = some n ↔
      roundUp size pageSize.bytes = n ∧ n ≤ pointerOffsetLimit := by
    have hpos := pageSize.bytes_pos
    rw [checkedFileSize, checkedNextMultipleOf, if_neg hpos.ne', roundUp,
      Option.filter_eq_some_iff]
    split
    next => simp
    next =>
      rw [checkedAdd_eq_some, decide_eq_true_iff]
      unfold pointerOffsetLimit
      omega
  rw [hround]
  constructor
  · rintro ⟨rfl, hle⟩
    exact ⟨isLeast_roundUp pageSize size, hle⟩
  · rintro ⟨hleast, hle⟩
    exact ⟨(isLeast_roundUp pageSize size).unique hleast, hle⟩

theorem alignFileSize_eq_ok {size n : ℕ} {pageSize : PageSize} :
    alignFileSize size pageSize = .ok n ↔
      IsLeast (wholePages pageSize size) n ∧ n ≤ pointerOffsetLimit :=
  okOr_eq_ok.trans checkedFileSize_eq_some

/-- Where the pages of one size fit, fewer bytes in standard pages do. -/
theorem standard_fits {size n : ℕ} {pageSize : PageSize}
    (h : alignFileSize size pageSize = .ok n) :
    ∃ m, alignFileSize size .standard = .ok m ∧ m ≤ n := by
  obtain ⟨hleast, hle⟩ := alignFileSize_eq_ok.mp h
  have hround := isLeast_roundUp .standard size
  have hm : roundUp size PageSize.standard.bytes ≤ n :=
    hround.2 ⟨Nat.dvd_trans pageSize.standard_dvd hleast.1.1, hleast.1.2⟩
  exact ⟨_, alignFileSize_eq_ok.mpr ⟨hround, hm.trans hle⟩, hm⟩

/-- A queue that a setup creates, and the page size it tries first. -/
structure QueueRequest where
  flavour : Flavour
  message : Message
  capacity : UInt64
  pageSize : PageSize

/-- The queues that a setup for the logon creates. -/
def queueRequests (logon : ClientLogon) : List QueueRequest :=
  [⟨.spsc, .tpuToPack, logon.tpuToPackCapacity, .huge⟩,
    ⟨.spsc, .progress, logon.progressTrackerCapacity, .standard⟩,
    ⟨.spsc, .packToExecutionWorker, logon.packToWorkerCapacity, .huge⟩,
    ⟨.spsc, .executionWorkerToPack, logon.workerToPackCapacity, .huge⟩] ++
  (if logon.checkWorkerCount > 0 then
    [⟨.mpmc, .packToCheckWorker, logon.packToCheckWorkerCapacity, .huge⟩,
      ⟨.mpmc, .checkWorkerToPack, logon.checkWorkerToPackCapacity, .huge⟩] else []) ++
  (if logon.simulateWorkerCount > 0 then
    [⟨.mpmc, .packToExecutionWorker, logon.packToSimulateWorkerCapacity, .huge⟩,
      ⟨.mpmc, .executionWorkerToPack, logon.simulateWorkerToPackCapacity, .huge⟩] else [])

/-- The number of bytes that a file must hold, where there is one, and its first page size. -/
structure FileRequest where
  size : Except LibraryError ℕ
  pageSize : PageSize

def QueueRequest.file (minimumFileSize : MinimumFileSize) (request : QueueRequest) : FileRequest :=
  ⟨minimumFileSize request.flavour request.message request.capacity, request.pageSize⟩

/-- The files that a setup for the logon creates: that of the allocator and one for each queue. -/
def fileRequests (minimumFileSize : MinimumFileSize) (logon : ClientLogon) : List FileRequest :=
  ⟨.ok logon.allocatorSize.toNat, .huge⟩ ::
    (queueRequests logon).map (QueueRequest.file minimumFileSize)

/-- Some number of whole pages holds the bytes and is within the limit. -/
def FileRequest.Representable (request : FileRequest) : Prop :=
  ∃ size n, request.size = .ok size ∧ IsLeast (wholePages request.pageSize size) n ∧
    n ≤ pointerOffsetLimit

def WorkersInRange (logon : ClientLogon) : Prop :=
  (1 ≤ logon.workerCount.toNat ∧ logon.workerCount.toNat ≤ maxWorkers) ∧
    logon.checkWorkerCount.toNat ≤ maxWorkers ∧ logon.simulateWorkerCount.toNat ≤ maxWorkers

theorem allocatorCount_eq_some {count : UInt32} :
    logon.allocatorCount = some count ↔ logon.allocatorHandles ≠ 0 ∧
      count.toNat = serverHandles logon + logon.allocatorHandles.toNat := by
  rw [ClientLogon.allocatorCount, serverHandles]
  by_cases hzero : logon.allocatorHandles = 0
  · simp [hzero]
  · simp only [hzero, ↓reduceIte, Option.bind_eq_bind, Option.bind_eq_some_iff, checkedAdd_eq_some,
      ne_eq, not_false_eq_true, true_and, Option.ite_none_right_eq_some,
      Option.some.injEq]
    constructor
    · rintro ⟨_, ⟨rfl, -⟩, _, ⟨rfl, -⟩, _, ⟨rfl, -⟩, _, ⟨rfl, -⟩, hlt, rfl⟩
      rw [UInt32.toNat_ofNat']
      omega
    · intro hcount
      have hlt := count.toNat_lt
      refine ⟨_, ⟨rfl, by omega⟩, _, ⟨rfl, by omega⟩, _, ⟨rfl, by omega⟩, _, ⟨rfl, by omega⟩,
        by omega, ?_⟩
      rw [← UInt32.toNat_inj, UInt32.toNat_ofNat']
      omega

theorem queueFits_iff (minimumFileSize : MinimumFileSize) (request : QueueRequest) :
    (request.file minimumFileSize).Representable ↔
      ClientLogon.QueueFits (minimumFileSize request.flavour request.message) request.capacity
        request.pageSize := by
  simp only [ClientLogon.QueueFits, checkedFileSize_eq_some, FileRequest.Representable,
    QueueRequest.file, exists_and_left]

theorem forall_mem_ite_nil {α : Type} {p : α → Prop} {c : Prop} [Decidable c] {l : List α} :
    (∀ a ∈ if c then l else [], p a) ↔ (c → ∀ a ∈ l, p a) := by
  split <;> simp_all

/-- Validation succeeds exactly if the counts and all sizes are good. -/
theorem validated_iff {minimumFileSize : MinimumFileSize} :
    ClientLogon.Validated minimumFileSize logon ↔ WorkersInRange logon ∧
      (∃ count, logon.allocatorCount = some count) ∧
      ∀ request ∈ fileRequests minimumFileSize logon, request.Representable := by
  have hallocator : FileRequest.Representable ⟨.ok logon.allocatorSize.toNat, .huge⟩ ↔
      ∃ n, checkedFileSize logon.allocatorSize.toNat .huge = some n := by
    simp [FileRequest.Representable, checkedFileSize_eq_some]
  have hqueues : (∀ request ∈ fileRequests minimumFileSize logon, request.Representable) ↔
      (∃ n, checkedFileSize logon.allocatorSize.toNat .huge = some n) ∧
        ∀ request ∈ queueRequests logon, ClientLogon.QueueFits
          (minimumFileSize request.flavour request.message) request.capacity request.pageSize := by
    simp only [fileRequests, List.forall_mem_cons, List.forall_mem_map, hallocator, queueFits_iff]
  rw [hqueues, queueRequests]
  simp only [List.forall_mem_append, List.forall_mem_cons, forall_mem_ite_nil]
  constructor
  · intro h
    refine ⟨⟨h.workers, h.checkWorkers, h.simulateWorkers⟩, h.allocatorCount, h.allocatorSize,
      ⟨⟨h.tpuToPack, h.progressTracker, h.packToWorker, h.workerToPack, by simp⟩, fun hc => ?_⟩,
      fun hs => ?_⟩
    · exact ⟨(h.check hc).1, (h.check hc).2, by simp⟩
    · exact ⟨(h.simulate hs).1, (h.simulate hs).2, by simp⟩
  · rintro ⟨⟨hw, hc, hs⟩, hcount, hsize, ⟨⟨ht, hp, hpw, hwp, -⟩, hcheck⟩, hsimulate⟩
    exact ⟨hw, hc, hs, hcount, hsize, ht, hp, hpw, hwp, fun h => ⟨(hcheck h).1, (hcheck h).2.1⟩,
      fun h => ⟨(hsimulate h).1, (hsimulate h).2.1⟩⟩

/-- A file and an object on it, for sizes that are known for each page size. -/
def createSized {β : Type} (env : Environment) (call : ℕ → ℕ → Call) (object : ℕ → β)
    (fileSize : ℕ) (pageSize : PageSize) : Setup LibraryError (ℕ × β) := do
  let file ← mapErr .io (createShmem env pageSize)
  let _ ← request env .own (call file fileSize)
  return (file, object file)

theorem createEndpoint_eq {flavour : Flavour} {kind : EndpointKind} {message : Message}
    {capacity : UInt64} {pageSize : PageSize} {size n : ℕ}
    (hsize : env.minimumFileSize flavour message capacity = .ok size)
    (hn : alignFileSize size pageSize = .ok n) :
    Server.createEndpoint env flavour kind message capacity pageSize =
      createSized env (.createEndpoint flavour kind message) Endpoint.mk n pageSize := by
  rw [Server.createEndpoint, hsize]
  apply bind_congr
  intro file
  change ofOutcome (.ok size) >>= _ = _
  rw [ofOutcome_ok_bind, hn]
  rfl

theorem createAllocatorFile_eq {count : UInt32} {pageSize : PageSize} {n : ℕ}
    (hn : alignFileSize logon.allocatorSize.toNat pageSize = .ok n) :
    Server.createAllocatorFile env logon count pageSize =
      createSized env (fun file fileSize => .createAllocator file fileSize count hugePageSize)
        Allocator.mk n pageSize := by
  rw [Server.createAllocatorFile, hn]
  rfl

/-- The size of a file is one of those that are computed for the request. -/
def FileRequest.Computes (request : FileRequest) (fileSize : ℕ) : Prop :=
  ∃ size pageSize, request.size = .ok size ∧
    (pageSize = request.pageSize ∨ pageSize = .standard) ∧
    alignFileSize size pageSize = .ok fileSize

/-- Files are given sizes that were computed for them, and the allocator its number of handles. -/
def SizedCall (minimumFileSize : MinimumFileSize) (logon : ClientLogon) : Call → Prop
  | .createAllocator _ fileSize allocatorCount _ => logon.allocatorCount = some allocatorCount ∧
      FileRequest.Computes ⟨.ok logon.allocatorSize.toNat, .huge⟩ fileSize
  | .createEndpoint flavour _ message _ fileSize => ∃ request ∈ queueRequests logon,
      request.flavour = flavour ∧ request.message = message ∧
        (request.file minimumFileSize).Computes fileSize
  | _ => True

/-- Two worlds that differ neither in the sizes of the queues of the logon nor in how they answer
calls with sizes computed for it. -/
structure Agrees (logon : ClientLogon) (env env' : Environment) : Prop where
  sizes : ∀ request ∈ queueRequests logon,
    request.file env.minimumFileSize = request.file env'.minimumFileSize
  failures : ∀ n call, SizedCall env.minimumFileSize logon call →
    env.failure n call = env'.failure n call

namespace Agrees

variable {ε : Type} {error : String → ε} {call : Call}

theorem request (h : Agrees logon env env') (hcall : SizedCall env.minimumFileSize logon call) :
    SchedulerHandshake.request env error call = SchedulerHandshake.request env' error call := by
  apply bind_congr
  intro calls
  apply bind_congr
  intro _
  rw [h.failures calls.count call hcall]

theorem createSized {β : Type} {object : ℕ → β} {fileSize : ℕ} {pageSize : PageSize}
    {call : ℕ → ℕ → Call} (h : Agrees logon env env')
    (hcall : ∀ file, SizedCall env.minimumFileSize logon (call file fileSize)) :
    SchedulerHandshake.createSized env call object fileSize pageSize =
      SchedulerHandshake.createSized env' call object fileSize pageSize := by
  have hshmem : SizedCall env.minimumFileSize logon (.memfdCreate pageSize) := trivial
  rw [SchedulerHandshake.createSized, SchedulerHandshake.createSized, createShmem, createShmem,
    h.request hshmem]
  apply bind_congr
  intro file
  rw [h.request (hcall file)]

theorem createWithPages {α : Type} {create create' : PageSize → Setup ε α} {first : PageSize}
    (h : ∀ pageSize, pageSize = first ∨ pageSize = .standard → create pageSize = create' pageSize) :
    SchedulerHandshake.createWithPages create first =
      SchedulerHandshake.createWithPages create' first := by
  cases first with
  | standard => exact h .standard (.inr rfl)
  | huge =>
    rw [SchedulerHandshake.createWithPages, SchedulerHandshake.createWithPages, h .huge (.inl rfl),
      h .standard (.inr rfl)]

/-- A size that can be represented is computed at each page size that is tried. -/
theorem exists_size {size : ℕ} {first pageSize : PageSize}
    (hn : ∃ n, checkedFileSize size first = some n) (hp : pageSize = first ∨ pageSize = .standard) :
    ∃ n, alignFileSize size pageSize = .ok n := by
  obtain ⟨n, hn⟩ := hn
  have hfirst : alignFileSize size first = .ok n := okOr_eq_ok.mpr hn
  rcases hp with rfl | rfl
  · exact ⟨n, hfirst⟩
  · obtain ⟨m, hm, -⟩ := standard_fits hfirst
    exact ⟨m, hm⟩

theorem createAllocator (h : Agrees logon env env')
    (hv : ClientLogon.Validated env.minimumFileSize logon) :
    Server.createAllocator env logon = Server.createAllocator env' logon := by
  obtain ⟨count, hcount⟩ := hv.allocatorCount
  simp only [Server.createAllocator, hcount]
  apply createWithPages
  intro pageSize hp
  obtain ⟨n, hn⟩ := exists_size hv.allocatorSize hp
  rw [createAllocatorFile_eq hn, createAllocatorFile_eq hn]
  exact h.createSized fun file => ⟨hcount, _, pageSize, rfl, hp, hn⟩

theorem createQueue (h : Agrees logon env env')
    (hv : ClientLogon.Validated env.minimumFileSize logon) (kind : EndpointKind)
    {queue : QueueRequest} (hmem : queue ∈ queueRequests logon) :
    SchedulerHandshake.createWithPages
        (Server.createEndpoint env queue.flavour kind queue.message queue.capacity)
        queue.pageSize =
      SchedulerHandshake.createWithPages
        (Server.createEndpoint env' queue.flavour kind queue.message queue.capacity)
        queue.pageSize := by
  have hfile : queue.file env.minimumFileSize ∈ fileRequests env.minimumFileSize logon :=
    List.mem_cons_of_mem _ (List.mem_map_of_mem hmem)
  obtain ⟨size, hsize, hpages⟩ := (queueFits_iff _ queue).mp ((validated_iff.mp hv).2.2 _ hfile)
  have hsize' : env'.minimumFileSize queue.flavour queue.message queue.capacity = .ok size :=
    (congrArg FileRequest.size (h.sizes queue hmem)).symm.trans hsize
  apply createWithPages
  intro pageSize hp
  obtain ⟨n, hn⟩ := exists_size hpages hp
  rw [createEndpoint_eq hsize hn, createEndpoint_eq hsize' hn]
  exact h.createSized fun file => ⟨queue, hmem, rfl, rfl, size, pageSize, hsize, hp, hn⟩

theorem joinFromExisting (h : Agrees logon env env') :
    Server.joinFromExisting env = Server.joinFromExisting env' := by
  funext allocator
  have hjoin : SizedCall env.minimumFileSize logon (.joinFromExisting allocator) := trivial
  rw [Server.joinFromExisting, Server.joinFromExisting, h.request hjoin]

theorem sharedWorkers {α : Type} {allocator : Allocator} {count : UInt64}
    {request response : Message} {requestCapacity responseCapacity : UInt64}
    {session : Allocator → Endpoint .mpmc .consumer request → Endpoint .mpmc .producer response → α}
    (h : Agrees logon env env')
    (hqueues : count > 0 →
      Server.createMpmcConsumer env request requestCapacity =
        Server.createMpmcConsumer env' request requestCapacity ∧
      Server.createMpmcProducer env response responseCapacity .huge =
        Server.createMpmcProducer env' response responseCapacity .huge) :
    Server.sharedWorkers env allocator count request response requestCapacity responseCapacity
        session =
      Server.sharedWorkers env' allocator count request response requestCapacity responseCapacity
        session := by
  unfold Server.sharedWorkers
  split
  case isTrue => rfl
  case isFalse hcount =>
    obtain ⟨hconsumer, hproducer⟩ := hqueues (UInt64.pos_iff_ne_zero.mpr hcount)
    rw [hconsumer, hproducer, h.joinFromExisting]

theorem validated (h : Agrees logon env env')
    (hv : ClientLogon.Validated env.minimumFileSize logon) :
    ClientLogon.Validated env'.minimumFileSize logon := by
  obtain ⟨hworkers, hcount, hfiles⟩ := validated_iff.mp hv
  refine validated_iff.mpr ⟨hworkers, hcount, ?_⟩
  rwa [fileRequests, ← List.map_congr_left h.sizes]

/-- A setup for a logon that was validated makes no other calls and computes no other sizes. -/
theorem setupSession (h : Agrees logon env env')
    (hv : ClientLogon.Validated env.minimumFileSize logon) :
    Server.setupSession env logon = Server.setupSession env' logon := by
  have hqueue := fun kind queue => @createQueue _ _ _ h hv kind queue
  have htpu : Server.createProducer env .tpuToPack logon.tpuToPackCapacity .huge = _ :=
    hqueue .producer ⟨.spsc, .tpuToPack, _, .huge⟩ (by simp [queueRequests])
  have hprogress :
      Server.createProducer env .progress logon.progressTrackerCapacity .standard = _ :=
    hqueue .producer ⟨.spsc, .progress, _, .standard⟩ (by simp [queueRequests])
  have hrequests : Server.createConsumer env logon.packToWorkerCapacity = _ :=
    hqueue .consumer ⟨.spsc, .packToExecutionWorker, _, .huge⟩ (by simp [queueRequests])
  have hresponses :
      Server.createProducer env .executionWorkerToPack logon.workerToPackCapacity .huge = _ :=
    hqueue .producer ⟨.spsc, .executionWorkerToPack, _, .huge⟩ (by simp [queueRequests])
  have hworker : Server.addWorker env logon = Server.addWorker env' logon := by
    funext allocator acc
    rw [Server.addWorker, Server.addWorker, h.joinFromExisting, hrequests, hresponses]
    rfl
  have hcheck : Server.checkWorkers env logon = Server.checkWorkers env' logon := by
    funext allocator
    refine h.sharedWorkers fun hcount => ⟨?_, ?_⟩
    · exact hqueue .consumer ⟨.mpmc, .packToCheckWorker, _, .huge⟩ (by simp [queueRequests, hcount])
    · exact hqueue .producer ⟨.mpmc, .checkWorkerToPack, _, .huge⟩ (by simp [queueRequests, hcount])
  have hsimulate : Server.simulateWorkers env logon = Server.simulateWorkers env' logon := by
    funext allocator
    refine h.sharedWorkers fun hcount => ⟨?_, ?_⟩
    · exact hqueue .consumer ⟨.mpmc, .packToExecutionWorker, _, .huge⟩
        (by simp [queueRequests, hcount])
    · exact hqueue .producer ⟨.mpmc, .executionWorkerToPack, _, .huge⟩
        (by simp [queueRequests, hcount])
  rw [Server.setupSession, Server.setupSession, ClientLogon.validate_eq_ok.mpr hv,
    ClientLogon.validate_eq_ok.mpr (h.validated hv), h.createAllocator hv, htpu, hprogress, hworker,
    hcheck, hsimulate]
  rfl

end Agrees

/-- The allocators of a session on the server. -/
def AgaveSession.allocators (session : AgaveSession) : List Allocator :=
  session.tpuToPack.allocator :: (session.workers.map (·.allocator) ++
    session.checkWorkers.map (·.allocator) ++ session.simulateWorkers.map (·.allocator))

theorem server_allocators {s s' : Calls} {session : AgaveSession} {files : List ℕ}
    (h : Returns (Server.setupSession env logon) s (session, files) s') :
    session.allocators.length = serverHandles logon := by
  obtain ⟨l, rfl, -, -⟩ := server_layout h
  simp only [AgaveSession.allocators, Layout.server, serverHandles, List.length_cons,
    List.length_append, List.length_map, l.workers_length,
    shared_count l.check_isSome, shared_count l.simulate_isSome]
  omega

/-- A world that refuses calls and sizes which no setup for the sample asks for. -/
def guardedEnvironment : Environment where
  minimumFileSize flavour message capacity :=
    if flavour = .mpmc ∧ message = .progress then .error (.own "unknown queue")
    else sampleEnvironment.minimumFileSize flavour message capacity
  failure _ call :=
    match call with
    | .createAllocator _ _ allocatorCount _ => if allocatorCount = 7 then none else some "refused"
    | _ => none

theorem sample_agrees_guarded : Agrees sampleLogon sampleEnvironment guardedEnvironment where
  sizes request hmem := by
    have hknown : ∀ request ∈ queueRequests sampleLogon,
        ¬ (request.flavour = .mpmc ∧ request.message = .progress) := by decide
    simp only [QueueRequest.file, guardedEnvironment, if_neg (hknown request hmem)]
  failures n call hcall := by
    have hcount : sampleLogon.allocatorCount = some 7 := by decide
    cases call with
    | createAllocator file fileSize allocatorCount slabSize =>
      obtain rfl : (7 : UInt32) = allocatorCount := Option.some.inj (hcount.symm.trans hcall.1)
      rfl
    | _ => rfl

end AgaveSdk.SchedulerHandshake
