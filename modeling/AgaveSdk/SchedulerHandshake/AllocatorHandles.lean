import AgaveSdk.SchedulerHandshake.SessionAttachment

/-! The calls that give out allocators. The server's session holds one allocator for each of them
that succeeds during its setup, and no other. -/
namespace AgaveSdk.SchedulerHandshake
open FallibleState

variable {env : Environment} {logon : ClientLogon} {ε : Type} {error : String → ε} {call : Call}

/-- The call creates an allocator, or joins one. -/
def Call.givesAllocator : Call → Bool
  | .createAllocator _ _ _ _ | .joinFromExisting _ | .joinAllocator _ => true
  | _ => false

/-- The number of calls so far that gave out an allocator. -/
def Calls.handles (env : Environment) (calls : Calls) : ℕ :=
  calls.made.zipIdx.countP fun (call, number) =>
    call.givesAllocator && (env.failure number call).isNone

theorem Calls.handles_add (calls : Calls) (call : Call) :
    (calls.add call).handles env = calls.handles env +
      (call.givesAllocator && (env.failure calls.count call).isNone).toNat := by
  simp only [handles, add, count, List.zipIdx_append, List.countP_append, Nat.zero_add,
    List.zipIdx_singleton, List.countP_singleton]
  cases call.givesAllocator && (env.failure calls.made.length call).isNone <;> rfl

theorem adds_request :
    Adds (Calls.handles env) (request env error call) call.givesAllocator.toNat := by
  intro s n s' h
  obtain ⟨hnone, -, rfl⟩ := returns_request.mp h
  rw [Calls.handles_add, hnone]
  simp

theorem stopsBefore_request : StopsBefore (Calls.handles env) (request env error call) := by
  intro s e s' h
  simp only [request, exec_bind, exec_get, exec_modify] at h
  cases hf : env.failure s.count call with
  | none =>
    rw [hf, exec_pure] at h
    cases h
  | some text =>
    rw [hf, exec_throw] at h
    cases h
    rw [Calls.handles_add, hf]
    simp

theorem adds_createShmem (pageSize : PageSize) :
    Adds (Calls.handles env) (createShmem env pageSize) 0 := adds_request

theorem stopsBefore_createShmem (pageSize : PageSize) :
    StopsBefore (Calls.handles env) (createShmem env pageSize) := stopsBefore_request

theorem adds_createWithPages {α : Type} {create : PageSize → Setup ε α} {n : ℕ}
    (h : ∀ pageSize, Adds (Calls.handles env) (create pageSize) n)
    (hs : ∀ pageSize, StopsBefore (Calls.handles env) (create pageSize)) (pageSize : PageSize) :
    Adds (Calls.handles env) (createWithPages create pageSize) n := by
  cases pageSize with
  | huge => exact (h .huge).orTry (hs .huge) (h .standard)
  | standard => exact h .standard

/-- A file with an allocator on it is one handle, also where huge pages failed before. -/
theorem adds_createAllocator :
    Adds (Calls.handles env) (Server.createAllocator env logon) 1 := by
  unfold Server.createAllocator
  cases logon.allocatorCount with
  | none => exact adds_throw _ 1
  | some count =>
    refine adds_createWithPages (fun pageSize => ?_) (fun pageSize => ?_) .huge
    · refine Adds.of_eq (Adds.bind ((adds_createShmem pageSize).mapErr _) fun file =>
        Adds.bind ((adds_ofOutcome _).mapErr _) fun fileSize =>
          Adds.bind adds_request fun _ => adds_pure _) ?_
      rfl
    · unfold Server.createAllocatorFile
      refine StopsBefore.bind ((stopsBefore_createShmem pageSize).mapErr _)
        ((adds_createShmem pageSize).mapErr _) fun file => ?_
      refine StopsBefore.bind ((stopsBefore_ofOutcome _).mapErr _) ((adds_ofOutcome _).mapErr _)
        fun fileSize => ?_
      exact stopsBefore_request.bind_total fun _ => total_pure _

/-- The file of a queue is none. -/
theorem adds_createQueue {flavour : Flavour} {kind : EndpointKind} {message : Message}
    {capacity : UInt64} {pageSize : PageSize} :
    Adds (Calls.handles env)
      (createWithPages (Server.createEndpoint env flavour kind message capacity) pageSize) 0 := by
  refine adds_createWithPages (fun pageSize => ?_) (fun pageSize => ?_) pageSize
  · refine Adds.of_eq (Adds.bind ((adds_createShmem pageSize).mapErr _) fun file =>
      Adds.bind (adds_ofOutcome _) fun minimum => Adds.bind ((adds_ofOutcome _).mapErr _)
        fun fileSize => Adds.bind adds_request fun _ => adds_pure _) ?_
    rfl
  · unfold Server.createEndpoint
    refine StopsBefore.bind ((stopsBefore_createShmem pageSize).mapErr _)
      ((adds_createShmem pageSize).mapErr _) fun file => ?_
    refine StopsBefore.bind (stopsBefore_ofOutcome _) (adds_ofOutcome _) fun minimum => ?_
    refine StopsBefore.bind ((stopsBefore_ofOutcome _).mapErr _) ((adds_ofOutcome _).mapErr _)
      fun fileSize => ?_
    exact stopsBefore_request.bind_total fun _ => total_pure _

theorem adds_joinFromExisting (allocator : Allocator) :
    Adds (Calls.handles env) (Server.joinFromExisting env allocator) 1 :=
  adds_request.bind fun _ => adds_pure _

theorem adds_addWorker (allocator : Allocator) (acc : List ℕ × List AgaveWorkerSession) :
    Adds (Calls.handles env) (Server.addWorker env logon allocator acc) 1 :=
  ((adds_joinFromExisting allocator).mapErr _).bind fun _ => (adds_createQueue.mapErr _).bind
    fun _ => (adds_createQueue.mapErr _).bind fun _ => adds_pure _

theorem adds_sharedWorkers {α : Type} (allocator : Allocator) (count : UInt64)
    (request response : Message) (requestCapacity responseCapacity : UInt64)
    (session :
      Allocator → Endpoint .mpmc .consumer request → Endpoint .mpmc .producer response → α) :
    Adds (Calls.handles env) (Server.sharedWorkers env allocator count request response
      requestCapacity responseCapacity session) count.toNat := by
  unfold Server.sharedWorkers
  split
  case isTrue hzero =>
    subst hzero
    exact adds_pure _
  case isFalse =>
    refine Adds.of_eq (Adds.bind (adds_createQueue.mapErr _) fun requests =>
      Adds.bind (adds_createQueue.mapErr _) fun responses =>
        Adds.bind (adds_mapM _ fun _ => Adds.bind ((adds_joinFromExisting allocator).mapErr _)
          fun _ => adds_pure _) fun workers => adds_pure _) ?_
    simp

/-- The allocators that the server holds in a session. -/
def serverHandles (logon : ClientLogon) : ℕ :=
  1 + logon.workerCount.toNat + logon.checkWorkerCount.toNat + logon.simulateWorkerCount.toNat

/-- A setup that returns a session made one call for each allocator of the server that succeeded. -/
theorem adds_setupSession :
    Adds (Calls.handles env) (Server.setupSession env logon) (serverHandles logon) := by
  unfold Server.setupSession
  refine Adds.of_eq (Adds.bind (adds_ofOutcome _) fun _ =>
    Adds.bind (adds_createAllocator.mapErr _) fun allocator =>
    Adds.bind (adds_createQueue.mapErr _) fun tpuToPack =>
    Adds.bind (adds_createQueue.mapErr _) fun progressTracker =>
    Adds.bind (adds_foldlM _ (fun acc _ => adds_addWorker _ acc) _) fun workers =>
    Adds.bind (adds_sharedWorkers _ _ _ _ _ _ _) fun checkWorkers =>
    Adds.bind (adds_sharedWorkers _ _ _ _ _ _ _) fun simulateWorkers => adds_pure _) ?_
  rw [List.length_range, serverHandles]
  omega

end AgaveSdk.SchedulerHandshake
