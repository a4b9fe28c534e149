import AgaveSdk.SchedulerHandshake.SessionLayout
import Mathlib.Data.List.Forall2

/-! Both ends of a session attach to the same files in opposite roles. -/
namespace AgaveSdk.SchedulerHandshake
open FallibleState

variable {env : Environment} {logon : ClientLogon}

theorem validateQueueCapacity_noFault (field : String) (capacity : UInt64)
    (minimumFileSize : UInt64 → Except LibraryError ℕ) (pageSize : PageSize) :
    NoFault (ClientLogon.validateQueueCapacity field capacity minimumFileSize pageSize) :=
  (noFault_okOr _ _).bind fun _ _ => (noFault_okOr _ _).bind fun _ _ => noFault_ok ()

theorem validate_noFault (minimumFileSize : MinimumFileSize) (logon : ClientLogon) :
    NoFault (logon.validate minimumFileSize) := by
  have hq := validateQueueCapacity_noFault
  simp only [ClientLogon.validate]
  refine (noFault_failIf _ _).bind fun _ _ => (noFault_failIf _ _).bind fun _ _ =>
    (noFault_failIf _ _).bind fun _ _ => (noFault_okOr _ _).bind fun _ _ =>
    (noFault_okOr _ _).bind fun _ _ => (hq _ _ _ _).bind fun _ _ => (hq _ _ _ _).bind fun _ _ =>
    (hq _ _ _ _).bind fun _ _ => (hq _ _ _ _).bind fun _ _ => ?_
  split <;> split
  · exact (hq _ _ _ _).bind fun _ _ => (hq _ _ _ _).bind fun _ _ =>
      (hq _ _ _ _).bind fun _ _ => hq _ _ _ _
  · exact (hq _ _ _ _).bind fun _ _ => (hq _ _ _ _).bind fun _ _ => noFault_ok ()
  · exact (hq _ _ _ _).bind fun _ _ => hq _ _ _ _
  · exact noFault_ok ()

theorem joinFromExisting_safe (allocator : Allocator) (s : Calls) :
    Safe (Server.joinFromExisting env allocator) s :=
  (safe_request s).bind fun _ t _ => safe_pure _ t

theorem addWorker_safe (allocator : Allocator) (acc : List ℕ × List AgaveWorkerSession)
    (s : Calls) :
    Safe (Server.addWorker env logon allocator acc) s :=
  (safe_mapErr _ (joinFromExisting_safe allocator s)).bind fun _ t _ =>
    (((createConsumer_creates _).mapErr _).safe t).bind fun _ u _ =>
      (((createProducer_creates _ _ _).mapErr _).safe u).bind fun _ v _ => safe_pure _ v

theorem sharedWorkers_safe {α : Type} (allocator : Allocator) (count : UInt64)
    (request response : Message) (requestCapacity responseCapacity : UInt64)
    (session : Allocator → Endpoint .mpmc .consumer request → Endpoint .mpmc .producer response → α)
    (s : Calls) :
    Safe (Server.sharedWorkers env allocator count request response requestCapacity
      responseCapacity session) s := by
  unfold Server.sharedWorkers
  split
  · exact safe_pure _ s
  · exact (((createMpmcConsumer_creates _ _).mapErr _).safe s).bind fun _ t _ =>
      (((createMpmcProducer_creates _ _ _).mapErr _).safe t).bind fun _ u _ =>
        (safe_mapM _ (fun _ v => (safe_mapErr _ (joinFromExisting_safe allocator v)).bind
          fun _ w _ => safe_pure _ w) u).bind fun _ v _ => safe_pure _ v

theorem server_safe (env : Environment) (logon : ClientLogon) (s : Calls) :
    Safe (Server.setupSession env logon) s := by
  refine (safe_ofOutcome (validate_noFault _ _) s).bind fun _ t hv => ?_
  have hvalid := ClientLogon.validate_eq_ok.mp (returns_ofOutcome.mp hv).1
  obtain ⟨count, hcount⟩ := hvalid.allocatorCount
  exact (((createAllocator_creates hcount).mapErr _).safe t).bind fun _ u _ =>
    (((createProducer_creates _ _ _).mapErr _).safe u).bind fun _ v _ =>
    (((createProducer_creates _ _ _).mapErr _).safe v).bind fun _ w _ =>
    (safe_foldlM _ (fun acc _ s => addWorker_safe _ acc s) _ w).bind fun _ x _ =>
    (sharedWorkers_safe _ _ _ _ _ _ _ x).bind fun _ y _ =>
    (sharedWorkers_safe _ _ _ _ _ _ _ y).bind fun _ z _ => safe_pure _ z

theorem total_createEndpoint (h : env.Willing) {flavour : Flavour} (kind : EndpointKind)
    {message : Message} {capacity : UInt64} {pageSize : PageSize}
    (hq : ClientLogon.QueueFits (env.minimumFileSize flavour message) capacity pageSize) :
    Total (Server.createEndpoint env flavour kind message capacity pageSize) := by
  obtain ⟨size, hsize, n, hn⟩ := hq
  have hmin : (env.minimumFileSize flavour message capacity).mapError Stop.err = .ok size := by
    rw [hsize]
    rfl
  have halign : alignFileSize size pageSize = .ok n := okOr_eq_ok.mpr hn
  simp only [Server.createEndpoint, hmin, ofOutcome_ok_bind]
  exact ((total_request h).mapErr _).bind fun _ => ((total_ofOutcome halign).mapErr _).bind fun _ =>
    (total_request h).bind fun _ => total_pure _

theorem total_createAllocator (h : env.Willing)
    (hcount : ∃ count, logon.allocatorCount = some count)
    (hsize : ∃ n, checkedFileSize logon.allocatorSize.toNat .huge = some n) :
    Total (Server.createAllocator env logon) := by
  obtain ⟨count, hcount⟩ := hcount
  obtain ⟨n, hn⟩ := hsize
  have halign : alignFileSize logon.allocatorSize.toNat .huge = .ok n := okOr_eq_ok.mpr hn
  simp only [Server.createAllocator, hcount]
  exact total_createWithPages <| ((total_request h).mapErr _).bind fun _ =>
    ((total_ofOutcome halign).mapErr _).bind fun _ => (total_request h).bind fun _ => total_pure _

theorem total_joinFromExisting (h : env.Willing) (allocator : Allocator) :
    Total (Server.joinFromExisting env allocator) :=
  (total_request h).bind fun _ => total_pure _

theorem total_sharedWorkers {α : Type} (h : env.Willing) (allocator : Allocator) {count : UInt64}
    {request response : Message} {requestCapacity responseCapacity : UInt64}
    (session : Allocator → Endpoint .mpmc .consumer request → Endpoint .mpmc .producer response → α)
    (hq : count > 0 →
      ClientLogon.QueueFits (env.minimumFileSize .mpmc request) requestCapacity .huge ∧
      ClientLogon.QueueFits (env.minimumFileSize .mpmc response) responseCapacity .huge) :
    Total (Server.sharedWorkers env allocator count request response requestCapacity
      responseCapacity session) := by
  unfold Server.sharedWorkers
  split
  case isTrue => exact total_pure _
  case isFalse hc =>
    obtain ⟨hreq, hresp⟩ := hq (UInt64.pos_iff_ne_zero.mpr hc)
    exact ((total_createWithPages (total_createEndpoint h _ hreq)).mapErr _).bind fun _ =>
      ((total_createWithPages (total_createEndpoint h _ hresp)).mapErr _).bind fun _ =>
      (total_mapM _ fun _ => ((total_joinFromExisting h _).mapErr _).bind fun _ =>
        total_pure _).bind fun _ => total_pure _

/-- A valid logon gets a session where no call fails. -/
theorem server_total (h : env.Willing) (hv : ClientLogon.Validated env.minimumFileSize logon) :
    Total (Server.setupSession env logon) := by
  have hworker (allocator : Allocator) (acc : List ℕ × List AgaveWorkerSession) :
      Total (Server.addWorker env logon allocator acc) :=
    ((total_joinFromExisting h allocator).mapErr _).bind fun _ =>
      ((total_createWithPages (total_createEndpoint h _ hv.packToWorker)).mapErr _).bind fun _ =>
      ((total_createWithPages (total_createEndpoint h _ hv.workerToPack)).mapErr _).bind fun _ =>
      total_pure _
  exact (total_ofOutcome (ClientLogon.validate_eq_ok.mpr hv)).bind fun _ =>
    ((total_createAllocator h hv.allocatorCount hv.allocatorSize).mapErr _).bind fun _ =>
    ((total_createWithPages (total_createEndpoint h _ hv.tpuToPack)).mapErr _).bind fun _ =>
    ((total_createWithPages (total_createEndpoint h _ hv.progressTracker)).mapErr _).bind fun _ =>
    (total_foldlM _ (fun acc _ => hworker _ acc) _).bind fun _ =>
    (total_sharedWorkers h _ _ hv.check).bind fun _ =>
    (total_sharedWorkers h _ _ hv.simulate).bind fun _ => total_pure _

/-- The two ends of one queue: the same file, flavour and message type, in opposite roles. -/
def Mates {flavour flavour' : Flavour} {kind kind' : EndpointKind} {message message' : Message}
    (a : Endpoint flavour kind message) (b : Endpoint flavour' kind' message') : Prop :=
  a.file = b.file ∧ flavour = flavour' ∧ kind' = kind.opposite ∧ message = message'

/-- The sessions of both ends agree on the queues, and the files are those of the server's
endpoints in protocol order. -/
structure Attached (logon : ClientLogon) (server : AgaveSession) (files : List ℕ)
    (client : ClientSession) : Prop where
  allocator : client.allocator = server.tpuToPack.allocator
  tpuToPack : Mates server.tpuToPack.producer client.tpuToPack
  progressTracker : Mates server.progressTracker client.progressTracker
  worker_count : server.workers.length = logon.workerCount.toNat
  workers : List.Forall₂ (fun w c => w.allocator = client.allocator ∧
    Mates w.packToWorker c.packToWorker ∧ Mates w.workerToPack c.workerToPack)
    server.workers client.workers
  check_present : client.checkWorkers.isSome = true ↔ logon.checkWorkerCount > 0
  check_count : server.checkWorkers.length = logon.checkWorkerCount.toNat
  check : ∀ w ∈ server.checkWorkers, ∃ c ∈ client.checkWorkers, w.allocator = client.allocator ∧
    Mates w.packToCheckWorker c.packToCheckWorker ∧ Mates w.checkWorkerToPack c.checkWorkerToPack
  simulate_present : client.simulateWorkers.isSome = true ↔ logon.simulateWorkerCount > 0
  simulate_count : server.simulateWorkers.length = logon.simulateWorkerCount.toNat
  simulate : ∀ w ∈ server.simulateWorkers, ∃ c ∈ client.simulateWorkers,
    w.allocator = client.allocator ∧ Mates w.packToSimulateWorker c.packToSimulateWorker ∧
      Mates w.simulateWorkerToPack c.simulateWorkerToPack
  files_eq : files =
    [server.tpuToPack.allocator.file, server.tpuToPack.producer.file,
      server.progressTracker.file] ++
      server.workers.flatMap (fun w => [w.packToWorker.file, w.workerToPack.file]) ++
      server.checkWorkers.head?.toList.flatMap
        (fun w => [w.packToCheckWorker.file, w.checkWorkerToPack.file]) ++
      server.simulateWorkers.head?.toList.flatMap
        (fun w => [w.packToSimulateWorker.file, w.simulateWorkerToPack.file])

theorem shared_count {α : Type} {pair : Option (ℕ × ℕ)} {count : UInt64}
    (h : pair.isSome = true ↔ count > 0) (session : ℕ × ℕ → α) :
    (pair.toList.flatMap fun pair => List.replicate count.toNat (session pair)).length =
      count.toNat := by
  cases pair with
  | none =>
    have hc : count = 0 := by simpa [UInt64.pos_iff_ne_zero] using h
    simp [hc]
  | some pair => simp

/-- The first of the workers that share two queues tells their files. -/
theorem shared_files {α : Type} {pair : Option (ℕ × ℕ)} {count : UInt64}
    (h : pair.isSome = true ↔ count > 0) {session : ℕ × ℕ → α} {files : α → List ℕ}
    (hf : ∀ pair, files (session pair) = pairFiles pair) :
    ((pair.toList.flatMap fun pair =>
      List.replicate count.toNat (session pair)).head?.toList.flatMap files) =
      pair.toList.flatMap pairFiles := by
  cases pair with
  | none => rfl
  | some pair =>
    have hc : 0 < count.toNat := UInt64.lt_iff_toNat_lt.mp (h.mp rfl)
    obtain ⟨n, hn⟩ := Nat.exists_eq_succ_of_ne_zero (Nat.pos_iff_ne_zero.mp hc)
    simp [hn, List.replicate_succ, hf]

theorem layout_attached (l : Layout logon) : Attached logon l.server l.files l.client where
  allocator := rfl
  tpuToPack := ⟨rfl, rfl, rfl, rfl⟩
  progressTracker := ⟨rfl, rfl, rfl, rfl⟩
  worker_count := by simp [Layout.server, l.workers_length]
  workers := by
    refine List.forall₂_map_left_iff.mpr (List.forall₂_map_right_iff.mpr (List.forall₂_same.mpr ?_))
    exact fun pair _ => ⟨rfl, ⟨rfl, rfl, rfl, rfl⟩, rfl, rfl, rfl, rfl⟩
  check_present := by simpa [Layout.client] using l.check_isSome
  check_count := shared_count l.check_isSome _
  check w hw := by
    obtain ⟨pair, hp, hw⟩ := List.mem_flatMap.mp hw
    obtain rfl := List.eq_of_mem_replicate hw
    refine ⟨⟨⟨pair.1⟩, ⟨pair.2⟩⟩, ?_, rfl, ⟨rfl, rfl, rfl, rfl⟩, rfl, rfl, rfl, rfl⟩
    exact Option.mem_map_of_mem _ (Option.mem_toList.mp hp)
  simulate_present := by simpa [Layout.client] using l.simulate_isSome
  simulate_count := shared_count l.simulate_isSome _
  simulate w hw := by
    obtain ⟨pair, hp, hw⟩ := List.mem_flatMap.mp hw
    obtain rfl := List.eq_of_mem_replicate hw
    refine ⟨⟨⟨pair.1⟩, ⟨pair.2⟩⟩, ?_, rfl, ⟨rfl, rfl, rfl, rfl⟩, rfl, rfl, rfl, rfl⟩
    exact Option.mem_map_of_mem _ (Option.mem_toList.mp hp)
  files_eq := by
    have hc : l.server.checkWorkers.head?.toList.flatMap
        (fun w => [w.packToCheckWorker.file, w.checkWorkerToPack.file]) =
        l.check.toList.flatMap pairFiles := shared_files l.check_isSome fun _ => rfl
    have hs : l.server.simulateWorkers.head?.toList.flatMap
        (fun w => [w.packToSimulateWorker.file, w.simulateWorkerToPack.file]) =
        l.simulate.toList.flatMap pairFiles := shared_files l.simulate_isSome fun _ => rfl
    rw [hc, hs, Layout.server, List.flatMap_map]
    rfl

theorem client_violation {files : List ℕ} (h : logon.expectedFileCount ≠ some files.length)
    (s : Calls) :
    exec (Client.setupSession env logon files) s = (.error (.err .protocolViolation), s) := by
  unfold Client.setupSession
  rw [exec_bind, exec_ofOutcome]
  cases he : logon.expectedFileCount with
  | none => rfl
  | some n =>
    have hn : files.length ≠ n := fun hn => h (by rw [he, hn])
    simp [okOr, failIf, hn, exec_throw]

theorem client_stops {files : List ℕ} (h : logon.expectedFileCount = some files.length)
    (s : Calls) :
    StopsOnly JoinError (Client.setupSession env logon files) s := by
  obtain ⟨l, rfl⟩ := exists_layout (expectedFileCount_eq_some.mp h).1
  rw [client_layout l h]
  exact (joinLayout_joins l).stops s

theorem client_outcome (env : Environment) (logon : ClientLogon) (files : List ℕ) (s : Calls) :
    Safe (Client.setupSession env logon files) s ∧
      ((exec (Client.setupSession env logon files) s).1 = .error (.err .protocolViolation) ↔
        logon.expectedFileCount ≠ some files.length) := by
  by_cases h : logon.expectedFileCount = some files.length
  · have hs : StopsOnly JoinError (Client.setupSession env logon files) s := client_stops h s
    refine ⟨hs.safe (by simp [JoinError]), fun he => ?_, fun hn => absurd h hn⟩
    exact absurd (hs _ he) (by simp [JoinError])
  · rw [Safe, client_violation h s]
    exact ⟨fun f => by simp, by simp [h]⟩

theorem fileTotal_le (hv : ClientLogon.Validated env.minimumFileSize logon) :
    fileTotal logon ≤ Client.cmsgMaxSize / 4 := by
  have hw := hv.workers.2
  have hs (count : UInt64) : sharedFiles count ≤ 2 := by unfold sharedFiles; split <;> omega
  have hc := hs logon.checkWorkerCount
  have hd := hs logon.simulateWorkerCount
  unfold fileTotal
  simp only [Client.cmsgMaxSize, globalShmem, maxWorkers, workerShmem, checkShmem,
    simulateShmem] at hw ⊢
  omega

/-- Whatever the server lays out for a valid logon, the client finds. -/
theorem sessions_attach (env clientEnv : Environment) (logon : ClientLogon) :
    (logon.validate env.minimumFileSize = .ok () → ∀ s,
      Safe (Server.setupSession env logon) s ∧
      (env.Willing →
        ∃ server files s', Returns (Server.setupSession env logon) s (server, files) s') ∧
      ∀ server files s', Returns (Server.setupSession env logon) s (server, files) s' →
        logon.expectedFileCount = some files.length ∧ files.length ≤ Client.cmsgMaxSize / 4 ∧
        files.Nodup ∧ ∀ t,
          (clientEnv.Willing →
            ∃ client t', Returns (Client.setupSession clientEnv logon files) t client t') ∧
          ∀ client t', Returns (Client.setupSession clientEnv logon files) t client t' →
            Attached logon server files client) ∧
    ∀ files t, Safe (Client.setupSession clientEnv logon files) t ∧
      ((exec (Client.setupSession clientEnv logon files) t).1 = .error (.err .protocolViolation) ↔
        logon.expectedFileCount ≠ some files.length) := by
  refine ⟨fun hv s => ⟨server_safe env logon s, fun hw => ?_, fun server files s' hr => ?_⟩,
    client_outcome clientEnv logon⟩
  · obtain ⟨⟨server, files⟩, s', hr⟩ := server_total hw (ClientLogon.validate_eq_ok.mp hv) s
    exact ⟨server, files, s', hr⟩
  · have hvalid := ClientLogon.validate_eq_ok.mp hv
    obtain ⟨l, rfl, rfl, hfresh⟩ := server_layout hr
    have hle : l.files.length ≤ Client.cmsgMaxSize / 4 := l.files_length ▸ fileTotal_le hvalid
    have hcount : logon.expectedFileCount = some l.files.length := by
      refine expectedFileCount_eq_some.mpr ⟨l.files_length, lt_of_le_of_lt hle ?_⟩
      decide
    refine ⟨hcount, hle, hfresh.nodup, fun t => ?_⟩
    rw [client_layout l hcount]
    have hj : Joins clientEnv (joinLayout clientEnv l) l.client := joinLayout_joins l
    refine ⟨fun hw => hj.total hw t, fun client t' hc => ?_⟩
    rw [hj.returns hc]
    exact layout_attached l

def sampleEnvironment : Environment where
  minimumFileSize _ _ capacity := .ok (4096 + 64 * capacity.toNat)
  failure _ _ := none

/-- Two workers and three check workers, no simulate workers. -/
def sampleLogon : ClientLogon where
  workerCount := 2
  checkWorkerCount := 3
  simulateWorkerCount := 0
  allocatorSize := 1073741824
  allocatorHandles := 1
  tpuToPackCapacity := 65536
  progressTrackerCapacity := 256
  packToWorkerCapacity := 1024
  workerToPackCapacity := 1024
  packToCheckWorkerCapacity := 1024
  checkWorkerToPackCapacity := 1024
  packToSimulateWorkerCapacity := 0
  simulateWorkerToPackCapacity := 0

/-- A logon that leaves no allocator to the client. -/
def handlelessLogon : ClientLogon := { sampleLogon with allocatorHandles := 0 }

/-- A world in which the client cannot join the allocator. -/
def joinlessEnvironment : Environment :=
  { sampleEnvironment with
    failure _ call := match call with
      | .joinAllocator _ => some "refused"
      | _ => none }

theorem sample_sessions_attach :
    sampleLogon.validate sampleEnvironment.minimumFileSize = .ok () ∧
      ∃ server files client s t,
        Returns (Server.setupSession sampleEnvironment sampleLogon) .empty (server, files) s ∧
        Returns (Client.setupSession sampleEnvironment sampleLogon files) s client t ∧
        files.length = 9 ∧ files.Nodup ∧ Attached sampleLogon server files client := by
  have hv : sampleLogon.validate sampleEnvironment.minimumFileSize = .ok () := by decide
  have hwilling : sampleEnvironment.Willing := fun _ _ => rfl
  obtain ⟨hserver, -⟩ := sessions_attach sampleEnvironment sampleEnvironment sampleLogon
  obtain ⟨-, htotal, hall⟩ := hserver hv .empty
  obtain ⟨server, files, s, hs⟩ := htotal hwilling
  obtain ⟨hcount, -, hnodup, hclient⟩ := hall server files s hs
  obtain ⟨hjoin, hattached⟩ := hclient s
  obtain ⟨client, t, hc⟩ := hjoin hwilling
  have hlen : sampleLogon.expectedFileCount = some 9 := by decide
  refine ⟨hv, server, files, client, s, t, hs, hc, ?_, hnodup, hattached client t hc⟩
  exact Option.some.inj (hcount.symm.trans hlen)

/-- As many files as one control message holds are as many as the client expects. -/
theorem Layout.expectedFileCount_of_le {l : Layout logon}
    (h : l.files.length ≤ Client.cmsgMaxSize / 4) :
    logon.expectedFileCount = some l.files.length :=
  expectedFileCount_eq_some.mpr ⟨l.files_length, lt_of_le_of_lt h (by decide)⟩

theorem validated_of_setupSession {s s' : Calls} {server : AgaveSession} {files : List ℕ}
    (h : Returns (Server.setupSession env logon) s (server, files) s') :
    ClientLogon.Validated env.minimumFileSize logon := by
  simp only [Server.setupSession, returns_bind, returns_ofOutcome] at h
  obtain ⟨u, t, ⟨hv, -⟩, -⟩ := h
  exact ClientLogon.validate_eq_ok.mp hv

/-- The joins behind a local setup, on the files that it laid out. -/
theorem local_join {s s' : Calls} {server : AgaveSession} {files : List ℕ}
    (h : Returns (Server.setupSession env logon) s (server, files) s') :
    ∃ client, Joins env (Client.setupSession env logon files) client ∧
      Attached logon server files client ∧ files.Nodup := by
  have hv := validated_of_setupSession h
  obtain ⟨l, rfl, rfl, hfresh⟩ := server_layout h
  refine ⟨l.client, ?_, layout_attached l, hfresh.nodup⟩
  rw [client_layout l (Layout.expectedFileCount_of_le (l.files_length ▸ fileTotal_le hv))]
  exact joinLayout_joins l

/-- A local setup reports what is wrong with the message before it creates anything. Otherwise it
fails only with an error of a call, on the side that made the call, and it returns two sessions
that are attached to each other. -/
theorem local_session_attached (env : Environment) (logon : ClientLogon) (s : Calls) :
    (∀ e, logon.validate env.minimumFileSize = .error (.err e) →
      exec (setupLocalSession env logon) s = (.error (.err (.server e)), s)) ∧
    Safe (setupLocalSession env logon) s ∧
    (∀ e, (exec (setupLocalSession env logon) s).1 = .error (.err (.client e)) →
      JoinError (.err e)) ∧
    (∀ server client s', Returns (setupLocalSession env logon) s (server, client) s' →
      ClientLogon.Validated env.minimumFileSize logon ∧
        ∃ files, files.Nodup ∧ Attached logon server files client) ∧
    (env.Willing → ClientLogon.Validated env.minimumFileSize logon →
      ∃ sessions s', Returns (setupLocalSession env logon) s sessions s') := by
  refine ⟨fun e he => ?_, ?_, fun e he => ?_, fun server client s' hr => ?_, fun hw hv => ?_⟩
  · simp only [setupLocalSession, Server.setupSession, exec_bind, exec_mapErr, exec_ofOutcome, he]
  · apply (safe_mapErr _ (server_safe env logon s)).bind
    rintro ⟨server, files⟩ t ht
    obtain ⟨client, hjoins, -⟩ := local_join (returns_mapErr.mp ht)
    have hsafe : Safe (Client.setupSession env logon files) t :=
      (hjoins.stops t).safe (by simp [JoinError])
    exact (safe_mapErr _ hsafe).bind fun _ u _ => safe_pure _ u
  · rw [setupLocalSession, exec_bind, exec_mapErr] at he
    rcases hs : exec (Server.setupSession env logon) s with ⟨(e' | f) | ⟨server, files⟩, t⟩
    · rw [hs] at he
      cases he
    · rw [hs] at he
      cases he
    · obtain ⟨client, hjoins, -⟩ := local_join hs
      rw [hs] at he
      simp only [exec_bind, exec_mapErr] at he
      rcases hc : exec (Client.setupSession env logon files) t with ⟨(e' | f) | c, u⟩
      · rw [hc] at he
        cases he
        exact hjoins.stops t _ (by rw [hc])
      · rw [hc] at he
        cases he
      · rw [hc] at he
        cases he
  · simp only [setupLocalSession, returns_bind, returns_mapErr, returns_pure] at hr
    obtain ⟨⟨server, files⟩, t, ht, c, u, hc, ⟨⟩, rfl⟩ := hr
    obtain ⟨client, hjoins, hattached, hnodup⟩ := local_join ht
    rw [hjoins.returns hc]
    exact ⟨validated_of_setupSession ht, files, hnodup, hattached⟩
  · obtain ⟨⟨server, files⟩, t, ht⟩ := server_total hw hv s
    obtain ⟨client, hjoins, -⟩ := local_join ht
    obtain ⟨c, u, hc⟩ := hjoins.total hw t
    refine ⟨(server, c), u, ?_⟩
    simp only [setupLocalSession, returns_bind, returns_mapErr, returns_pure]
    exact ⟨_, t, ht, c, u, hc, rfl, rfl⟩

/-- A message without handles, a join that fails, and a setup that works. -/
theorem sample_local_session :
    exec (setupLocalSession sampleEnvironment handlelessLogon) .empty =
        (.error (.err (.server (.allocatorHandles 0))), .empty) ∧
      (∃ e, (exec (setupLocalSession joinlessEnvironment sampleLogon) .empty).1 =
        .error (.err (.client e)) ∧ JoinError (.err e)) ∧
      ∃ server client files s,
        Returns (setupLocalSession sampleEnvironment sampleLogon) .empty (server, client) s ∧
          files.Nodup ∧ Attached sampleLogon server files client := by
  obtain ⟨hinvalid, -⟩ := local_session_attached sampleEnvironment handlelessLogon .empty
  obtain ⟨-, -, hjoin, -⟩ := local_session_attached joinlessEnvironment sampleLogon .empty
  obtain ⟨-, -, -, hattached, htotal⟩ :=
    local_session_attached sampleEnvironment sampleLogon .empty
  refine ⟨hinvalid (.allocatorHandles 0) (by decide), ?_, ?_⟩
  · have he : (exec (setupLocalSession joinlessEnvironment sampleLogon) .empty).1 =
        .error (.err (.client (.rtsAlloc (.own "refused")))) := rfl
    exact ⟨_, he, hjoin _ he⟩
  · have hv : ClientLogon.Validated sampleEnvironment.minimumFileSize sampleLogon :=
      ClientLogon.validate_eq_ok.mp (by decide)
    obtain ⟨⟨server, client⟩, s, hs⟩ := htotal (fun _ _ => rfl) hv
    obtain ⟨-, files, hnodup, hfiles⟩ := hattached server client s hs
    exact ⟨server, client, files, s, hs, hnodup, hfiles⟩

end AgaveSdk.SchedulerHandshake
