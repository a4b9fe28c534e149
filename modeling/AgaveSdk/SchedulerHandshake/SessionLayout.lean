import AgaveSdk.SchedulerHandshake.SetupSession

/-! The layout of the files of a session. The server's list is the file list of a layout, a list of
the expected length is the file list of a layout, and the client reads the layout back from it. -/
namespace AgaveSdk.SchedulerHandshake
open FallibleState

/-- Which file serves which purpose in a session for the logon. The workers have a request and a
response file each, the check workers have two files together, and so do the simulate workers. -/
structure Layout (logon : ClientLogon) where
  allocator : ℕ
  tpuToPack : ℕ
  progressTracker : ℕ
  workers : List (ℕ × ℕ)
  check : Option (ℕ × ℕ)
  simulate : Option (ℕ × ℕ)
  workers_length : workers.length = logon.workerCount.toNat
  check_isSome : check.isSome = true ↔ logon.checkWorkerCount > 0
  simulate_isSome : simulate.isSome = true ↔ logon.simulateWorkerCount > 0

def pairFiles (pair : ℕ × ℕ) : List ℕ := [pair.1, pair.2]

variable {logon : ClientLogon}

namespace Layout

/-- The files in protocol order. -/
def files (l : Layout logon) : List ℕ :=
  [l.allocator, l.tpuToPack, l.progressTracker] ++ l.workers.flatMap pairFiles ++
    l.check.toList.flatMap pairFiles ++ l.simulate.toList.flatMap pairFiles

def server (l : Layout logon) : AgaveSession where
  tpuToPack := ⟨⟨l.allocator⟩, ⟨l.tpuToPack⟩⟩
  progressTracker := ⟨l.progressTracker⟩
  workers := l.workers.map fun pair => ⟨⟨l.allocator⟩, ⟨pair.1⟩, ⟨pair.2⟩⟩
  checkWorkers := l.check.toList.flatMap fun pair =>
    List.replicate logon.checkWorkerCount.toNat ⟨⟨l.allocator⟩, ⟨pair.1⟩, ⟨pair.2⟩⟩
  simulateWorkers := l.simulate.toList.flatMap fun pair =>
    List.replicate logon.simulateWorkerCount.toNat ⟨⟨l.allocator⟩, ⟨pair.1⟩, ⟨pair.2⟩⟩

def client (l : Layout logon) : ClientSession where
  allocator := ⟨l.allocator⟩
  tpuToPack := ⟨l.tpuToPack⟩
  progressTracker := ⟨l.progressTracker⟩
  workers := l.workers.map fun pair => ⟨⟨pair.1⟩, ⟨pair.2⟩⟩
  checkWorkers := l.check.map fun pair => ⟨⟨pair.1⟩, ⟨pair.2⟩⟩
  simulateWorkers := l.simulate.map fun pair => ⟨⟨pair.1⟩, ⟨pair.2⟩⟩

end Layout

/-- The number of files of a session, without a bound on its size. -/
def sharedFiles (count : UInt64) : ℕ := if count > 0 then 2 else 0

def fileTotal (logon : ClientLogon) : ℕ :=
  logon.workerCount.toNat * 2 + 3 + sharedFiles logon.checkWorkerCount +
    sharedFiles logon.simulateWorkerCount

theorem expectedFileCount_eq_some {n : ℕ} :
    logon.expectedFileCount = some n ↔ n = fileTotal logon ∧ n < 2 ^ 64 := by
  simp only [ClientLogon.expectedFileCount, workerShmem, globalShmem, checkShmem, simulateShmem,
    fileTotal, sharedFiles, Option.bind_eq_bind, Option.bind_eq_some_iff, checkedMul_eq_some,
    checkedAdd_eq_some]
  constructor
  · rintro ⟨a, ⟨rfl, -⟩, b, ⟨rfl, -⟩, c, ⟨rfl, -⟩, rfl, hn⟩
    exact ⟨rfl, hn⟩
  · rintro ⟨rfl, hn⟩
    exact ⟨_, ⟨rfl, by omega⟩, _, ⟨rfl, by omega⟩, _, ⟨rfl, by omega⟩, rfl, hn⟩

theorem flatMap_pairFiles_length (pairs : List (ℕ × ℕ)) :
    (pairs.flatMap pairFiles).length = pairs.length * 2 := by
  induction pairs with
  | nil => rfl
  | cons pair pairs ih => simp only [List.flatMap_cons, List.length_append, List.length_cons, ih,
      pairFiles, List.length_nil]; omega

theorem shared_length {pair : Option (ℕ × ℕ)} {count : UInt64}
    (h : pair.isSome = true ↔ count > 0) :
    (pair.toList.flatMap pairFiles).length = sharedFiles count := by
  rw [flatMap_pairFiles_length, sharedFiles]
  cases pair with
  | none =>
    rw [if_neg (by simpa using h)]
    rfl
  | some p =>
    rw [if_pos (by simpa using h)]
    rfl

theorem Layout.files_length (l : Layout logon) : l.files.length = fileTotal logon := by
  simp only [Layout.files, List.length_append, List.length_cons, List.length_nil,
    flatMap_pairFiles_length l.workers, l.workers_length, shared_length l.check_isSome,
    shared_length l.simulate_isSome, fileTotal]
  omega

theorem exists_pairs (files : List ℕ) {n : ℕ} (h : files.length = n * 2) :
    ∃ pairs : List (ℕ × ℕ), pairs.length = n ∧ pairs.flatMap pairFiles = files := by
  induction n generalizing files with
  | zero =>
    obtain rfl : files = [] := List.length_eq_zero_iff.mp (by simpa using h)
    exact ⟨[], rfl, rfl⟩
  | succ n ih =>
    match files with
    | [] | [_] => simp at h; try omega
    | a :: b :: files =>
      obtain ⟨pairs, hl, hp⟩ := ih files (by simp at h; omega)
      exact ⟨(a, b) :: pairs, by simp [hl], by simp [pairFiles, hp]⟩

theorem exists_shared (files : List ℕ) {count : UInt64} (h : files.length = sharedFiles count) :
    ∃ pair : Option (ℕ × ℕ), (pair.isSome = true ↔ count > 0) ∧
      pair.toList.flatMap pairFiles = files := by
  unfold sharedFiles at h
  split at h
  case isTrue hc =>
    obtain ⟨a, b, rfl⟩ := List.length_eq_two.mp h
    exact ⟨some (a, b), by simpa using hc, rfl⟩
  case isFalse hc =>
    obtain rfl := List.length_eq_zero_iff.mp h
    exact ⟨none, by simpa using hc, rfl⟩

/-- Every list of the expected length is the list of a layout. -/
theorem exists_layout {files : List ℕ} (h : files.length = fileTotal logon) :
    ∃ l : Layout logon, l.files = files := by
  unfold fileTotal at h
  match files with
  | [] | [_] | [_, _] => simp at h; try omega
  | a :: t :: p :: rest =>
    have hr : rest.length = logon.workerCount.toNat * 2 + sharedFiles logon.checkWorkerCount +
        sharedFiles logon.simulateWorkerCount := by simp at h; omega
    let workerFiles := rest.take (logon.workerCount.toNat * 2)
    let remaining := rest.drop (logon.workerCount.toNat * 2)
    let checkFiles := remaining.take (sharedFiles logon.checkWorkerCount)
    let simulateFiles := remaining.drop (sharedFiles logon.checkWorkerCount)
    have hw : workerFiles.length = logon.workerCount.toNat * 2 := by simp [workerFiles]; omega
    have hc : checkFiles.length = sharedFiles logon.checkWorkerCount := by
      simp [checkFiles, remaining]; omega
    have hs : simulateFiles.length = sharedFiles logon.simulateWorkerCount := by
      simp [simulateFiles, remaining]; omega
    obtain ⟨workers, hn, hwf⟩ := exists_pairs workerFiles hw
    obtain ⟨check, hcs, hcf⟩ := exists_shared checkFiles hc
    obtain ⟨simulate, hss, hsf⟩ := exists_shared simulateFiles hs
    refine ⟨⟨a, t, p, workers, check, simulate, hn, hcs, hss⟩, ?_⟩
    simp only [Layout.files]
    rw [hwf, hcf, hsf, List.append_assoc, List.append_assoc, List.take_append_drop,
      List.take_append_drop]
    rfl

/-- Different files, created by calls with numbers from `s` to before `s'`. -/
structure Fresh (s s' : ℕ) (files : List ℕ) : Prop where
  le : s ≤ s'
  nodup : files.Nodup
  range : ∀ f ∈ files, s ≤ f ∧ f < s'

theorem Fresh.nil {s s' : ℕ} (h : s ≤ s') : Fresh s s' [] := ⟨h, List.nodup_nil, by simp⟩

theorem Fresh.singleton {s s' : ℕ} (h : s < s') : Fresh s s' [s] :=
  ⟨Nat.le_of_lt h, by simp, by simpa using h⟩

theorem Fresh.append {s s' s'' : ℕ} {xs ys : List ℕ} (hx : Fresh s s' xs) (hy : Fresh s' s'' ys) :
    Fresh s s'' (xs ++ ys) where
  le := Nat.le_trans hx.le hy.le
  nodup := by
    refine List.nodup_append.mpr ⟨hx.nodup, hy.nodup, fun f hf g hg => ?_⟩
    have h₁ := hx.range f hf
    have h₂ := hy.range g hg
    omega
  range f hf := by
    have h₁ := hx.le
    have h₂ := hy.le
    rcases List.mem_append.mp hf with hf | hf
    · have := hx.range f hf
      omega
    · have := hy.range f hf
      omega

theorem Fresh.mono {t s s' : ℕ} {xs : List ℕ} (h : Fresh s s' xs) (ht : t ≤ s) : Fresh t s' xs := by
  simpa using (Fresh.nil ht).append h

variable {env : Environment} {ε : Type} {error : String → ε} {call : Call}

theorem returns_request {s s' : Calls} {n : ℕ} :
    Returns (request env error call) s n s' ↔
      env.failure s.count call = none ∧ s.count = n ∧ s.add call = s' := by
  unfold request
  rw [returns_get_bind, returns_modify_bind]
  cases h : env.failure s.count call <;> simp

theorem ascends_request : Ascends (request env error call) := by
  intro s
  have hle : s ≤ s.add call := (Nat.le_succ _).trans (Calls.count_add s call).ge
  simp only [request, exec_bind, exec_get, exec_modify]
  cases env.failure s.count call with
  | none => exact hle
  | some text => exact hle

theorem stopsOnly_request (allowed : Stop ε → Prop) (h : ∀ text, allowed (.err (error text)))
    (s : Calls) : StopsOnly allowed (request env error call) s := by
  intro e
  simp only [request, exec_bind, exec_get, exec_modify]
  cases env.failure s.count call with
  | none => simp [exec_pure]
  | some text =>
    rintro ⟨⟩
    exact h text

theorem safe_request (s : Calls) : Safe (request env error call) s :=
  (stopsOnly_request (fun e => ∃ e', e = .err e') (fun _ => ⟨_, rfl⟩) s).safe (by simp)

/-- No call fails. -/
def Environment.Willing (env : Environment) : Prop := ∀ n call, env.failure n call = none

theorem total_request (h : env.Willing) : Total (request env error call) :=
  fun s => ⟨s.count, s.add call, returns_request.mpr ⟨h s.count call, rfl, rfl⟩⟩

/-- A step that creates one file and an object on it. -/
structure Creates {β : Type} (file : β → ℕ) (create : Setup ε (ℕ × β)) : Prop where
  fresh : ∀ {s f b s'}, Returns create s (f, b) s' → file b = f ∧ Fresh s.count s'.count [f]
  ascends : Ascends create
  safe : ∀ s, Safe create s

variable {β : Type} {file : β → ℕ}

theorem Creates.mapErr {ε' : Type} {create : Setup ε (ℕ × β)} (h : Creates file create)
    (f : ε → ε') : Creates file (mapErr f create) where
  fresh hr := h.fresh (returns_mapErr.mp hr)
  ascends := h.ascends.mapErr f
  safe s := safe_mapErr f (h.safe s)

theorem createWithPages_creates {create : PageSize → Setup ε (ℕ × β)}
    (h : ∀ pageSize, Creates file (create pageSize)) (pageSize : PageSize) :
    Creates file (createWithPages create pageSize) := by
  cases pageSize with
  | standard => exact h .standard
  | huge =>
    refine ⟨fun hr => ?_, (h .huge).ascends.orTry (h .standard).ascends,
      fun s => safe_orTry ((h .huge).safe s) (h .standard).safe⟩
    obtain hr | ⟨e, t, he, hr⟩ := orTry_cases hr
    · exact (h .huge).fresh hr
    · obtain ⟨hf, hfr⟩ := (h .standard).fresh hr
      exact ⟨hf, hfr.mono ((h .huge).ascends.le he)⟩

theorem total_createWithPages {create : PageSize → Setup ε (ℕ × β)} {pageSize : PageSize}
    (h : Total (create pageSize)) : Total (createWithPages create pageSize) := by
  cases pageSize with
  | standard => exact h
  | huge => exact h.orTry _

theorem alignFileSize_noFault (size : ℕ) (pageSize : PageSize) :
    NoFault (alignFileSize size pageSize) := noFault_okOr _ _

theorem mapError_noFault {α : Type} (x : Except ε α) :
    NoFault (x.mapError Stop.err : Outcome ε α) := by
  intro f
  cases x <;> simp [Except.mapError]

theorem returns_createShmem {pageSize : PageSize} {s s' : Calls} {f : ℕ}
    (h : Returns (createShmem env pageSize) s f s') :
    f = s.count ∧ s' = s.add (.memfdCreate pageSize) := by
  obtain ⟨-, rfl, rfl⟩ := returns_request.mp h
  exact ⟨rfl, rfl⟩

theorem createAllocatorFile_creates (count : UInt32) (pageSize : PageSize) :
    Creates Allocator.file (Server.createAllocatorFile env logon count pageSize) where
  fresh hr := by
    simp only [Server.createAllocatorFile, returns_bind, returns_mapErr, returns_ofOutcome,
      returns_pure] at hr
    obtain ⟨f, s₁, hf, size, s₂, ⟨-, rfl⟩, n, s₃, hn, ⟨⟩, rfl⟩ := hr
    obtain ⟨rfl, rfl⟩ := returns_createShmem hf
    obtain ⟨-, -, rfl⟩ := returns_request.mp hn
    exact ⟨rfl, .singleton (by simp only [Calls.count_add]; omega)⟩
  ascends := (ascends_request.mapErr _).bind fun _ => ((ascends_ofOutcome _).mapErr _).bind fun _ =>
    ascends_request.bind fun _ => ascends_pure _
  safe s := (safe_mapErr _ (safe_request s)).bind fun _ t _ =>
    (safe_mapErr _ (safe_ofOutcome (alignFileSize_noFault _ _) t)).bind fun _ u _ =>
      (safe_request u).bind fun _ v _ => safe_pure _ v

theorem createEndpoint_creates (flavour : Flavour) (kind : EndpointKind) (message : Message)
    (capacity : UInt64) (pageSize : PageSize) :
    Creates Endpoint.file (Server.createEndpoint env flavour kind message capacity pageSize) where
  fresh hr := by
    simp only [Server.createEndpoint, returns_bind, returns_mapErr, returns_ofOutcome,
      returns_pure] at hr
    obtain ⟨f, s₁, hf, minimum, s₂, ⟨-, rfl⟩, size, s₃, ⟨-, rfl⟩, n, s₄, hn, ⟨⟩, rfl⟩ := hr
    obtain ⟨rfl, rfl⟩ := returns_createShmem hf
    obtain ⟨-, -, rfl⟩ := returns_request.mp hn
    exact ⟨rfl, .singleton (by simp only [Calls.count_add]; omega)⟩
  ascends := (ascends_request.mapErr _).bind fun _ => (ascends_ofOutcome _).bind fun _ =>
    ((ascends_ofOutcome _).mapErr _).bind fun _ => ascends_request.bind fun _ => ascends_pure _
  safe s := (safe_mapErr _ (safe_request s)).bind fun _ t _ =>
    (safe_ofOutcome (mapError_noFault _) t).bind fun _ u _ =>
      (safe_mapErr _ (safe_ofOutcome (alignFileSize_noFault _ _) u)).bind fun _ v _ =>
        (safe_request v).bind fun _ w _ => safe_pure _ w

theorem createProducer_creates (message : Message) (capacity : UInt64) (pageSize : PageSize) :
    Creates Endpoint.file (Server.createProducer env message capacity pageSize) :=
  createWithPages_creates (createEndpoint_creates _ _ _ capacity) pageSize

theorem createConsumer_creates (capacity : UInt64) :
    Creates Endpoint.file (Server.createConsumer env capacity) :=
  createWithPages_creates (createEndpoint_creates _ _ _ capacity) .huge

theorem createMpmcProducer_creates (message : Message) (capacity : UInt64) (pageSize : PageSize) :
    Creates Endpoint.file (Server.createMpmcProducer env message capacity pageSize) :=
  createWithPages_creates (createEndpoint_creates _ _ _ capacity) pageSize

theorem createMpmcConsumer_creates (message : Message) (capacity : UInt64) :
    Creates Endpoint.file (Server.createMpmcConsumer env message capacity) :=
  createWithPages_creates (createEndpoint_creates _ _ _ capacity) .huge

theorem createAllocator_creates {count : UInt32} (h : logon.allocatorCount = some count) :
    Creates Allocator.file (Server.createAllocator env logon) := by
  simp only [Server.createAllocator, h]
  exact createWithPages_creates (createAllocatorFile_creates count) .huge

theorem returns_joinFromExisting {allocator a : Allocator} {s s' : Calls}
    (h : Returns (Server.joinFromExisting env allocator) s a s') :
    a = allocator ∧ s.count ≤ s'.count := by
  simp only [Server.joinFromExisting, returns_bind, returns_pure, returns_request] at h
  obtain ⟨n, t, ⟨-, rfl, rfl⟩, rfl, rfl⟩ := h
  exact ⟨rfl, by simp⟩

/-- The files and sessions of the workers after some rounds of the fold. -/
structure WorkersSoFar (allocator : Allocator) (s₀ : Calls) (rounds : ℕ)
    (acc : List ℕ × List AgaveWorkerSession) (s : Calls) : Prop where
  pairs : ∃ pairs : List (ℕ × ℕ), pairs.length = rounds ∧ acc.1 = pairs.flatMap pairFiles ∧
    acc.2 = pairs.map fun pair => ⟨allocator, ⟨pair.1⟩, ⟨pair.2⟩⟩
  fresh : Fresh s₀.count s.count acc.1

theorem addWorker_keeps {allocator : Allocator} {s₀ s s' : Calls} {rounds : ℕ}
    {acc acc' : List ℕ × List AgaveWorkerSession} (h : WorkersSoFar allocator s₀ rounds acc s)
    (hr : Returns (Server.addWorker env logon allocator acc) s acc' s') :
    WorkersSoFar allocator s₀ (rounds + 1) acc' s' := by
  simp only [Server.addWorker, returns_bind, returns_mapErr, returns_pure] at hr
  obtain ⟨a, s₁, ha, ⟨f, c⟩, s₂, hc, ⟨g, p⟩, s₃, hp, rfl, rfl⟩ := hr
  obtain ⟨rfl, hle⟩ := returns_joinFromExisting ha
  obtain ⟨rfl, hf⟩ := (createConsumer_creates _).fresh hc
  obtain ⟨rfl, hg⟩ := (createProducer_creates _ _ _).fresh hp
  obtain ⟨pairs, hl, hfiles, hsessions⟩ := h.pairs
  constructor
  · refine ⟨pairs ++ [(c.file, p.file)], by simp [hl], ?_, ?_⟩
    · simp [hfiles, pairFiles]
    · simp [hsessions]
  · exact h.fresh.append ((hf.mono hle).append hg)

theorem sharedWorkers_layout {α : Type} {allocator : Allocator} {count : UInt64}
    {request response : Message} {requestCapacity responseCapacity : UInt64}
    {session : Allocator → Endpoint .mpmc .consumer request → Endpoint .mpmc .producer response → α}
    {s s' : Calls} {files : List ℕ} {workers : List α}
    (h : Returns (Server.sharedWorkers env allocator count request response requestCapacity
      responseCapacity session) s (files, workers) s') :
    Fresh s.count s'.count files ∧ ∃ pair : Option (ℕ × ℕ), (pair.isSome = true ↔ count > 0) ∧
      files = pair.toList.flatMap pairFiles ∧ workers = pair.toList.flatMap fun pair =>
        List.replicate count.toNat (session allocator ⟨pair.1⟩ ⟨pair.2⟩) := by
  unfold Server.sharedWorkers at h
  split at h
  case isTrue hc =>
    obtain ⟨⟨⟩, rfl⟩ := returns_pure.mp h
    exact ⟨.nil le_rfl, none, by simp [hc], rfl, rfl⟩
  case isFalse hc =>
    simp only [returns_bind, returns_mapErr, returns_pure] at h
    obtain ⟨⟨f, c⟩, s₁, hf, ⟨g, p⟩, s₂, hg, ws, s₃, hw, ⟨⟩, rfl⟩ := h
    obtain ⟨rfl, hf⟩ := (createMpmcConsumer_creates _ _).fresh hf
    obtain ⟨rfl, hg⟩ := (createMpmcProducer_creates _ _ _).fresh hg
    have hle : s₂ ≤ s₃ := by
      refine (ascends_mapM _ fun _ => ?_).le hw
      exact ((ascends_request.bind fun _ => ascends_pure _).mapErr _).bind fun _ => ascends_pure _
    have hws := returns_mapM (g := fun _ => session allocator c p) (fun _ t b t' hb => by
      simp only [returns_bind, returns_mapErr, returns_pure] at hb
      obtain ⟨a, u, ha, rfl, -⟩ := hb
      rw [(returns_joinFromExisting ha).1]) hw
    refine ⟨by simpa using (hf.append hg).append (.nil hle), some (c.file, p.file), ?_, rfl, ?_⟩
    · simpa [UInt64.pos_iff_ne_zero] using hc
    · simpa [List.map_const'] using hws

/-- Whatever a setup on the server returns lays out its files. -/
theorem server_layout {s s' : Calls} {session : AgaveSession} {files : List ℕ}
    (h : Returns (Server.setupSession env logon) s (session, files) s') :
    ∃ l : Layout logon, session = l.server ∧ files = l.files ∧ Fresh s.count s'.count files := by
  simp only [Server.setupSession, returns_bind, returns_mapErr, returns_ofOutcome,
    returns_pure] at h
  obtain ⟨u, s₀, ⟨hv, rfl⟩, ⟨a, allocator⟩, s₁, ha, ⟨t, tpuToPack⟩, s₂, ht, ⟨p, progress⟩, s₃, hp,
    ⟨workerFiles, workers⟩, s₄, hw, ⟨checkFiles, check⟩, s₅, hc, ⟨simulateFiles, simulate⟩, s₆, hs,
    ⟨⟩, rfl⟩ := h
  obtain ⟨count, hcount⟩ := (ClientLogon.validate_eq_ok.mp hv).allocatorCount
  obtain ⟨rfl, ha⟩ := (createAllocator_creates hcount).fresh ha
  obtain ⟨rfl, ht⟩ := (createProducer_creates _ _ _).fresh ht
  obtain ⟨rfl, hp⟩ := (createProducer_creates _ _ _).fresh hp
  have hw := hw.foldlM_inv (WorkersSoFar allocator s₃) (fun _ _ _ _ _ _ => addWorker_keeps)
    (n := 0) ⟨⟨[], rfl, rfl, rfl⟩, .nil le_rfl⟩
  obtain ⟨⟨pairs, hl, rfl, rfl⟩, hwf⟩ := hw
  obtain ⟨hcf, c, hci, rfl, rfl⟩ := sharedWorkers_layout hc
  obtain ⟨hsf, d, hdi, rfl, rfl⟩ := sharedWorkers_layout hs
  refine ⟨⟨allocator.file, tpuToPack.file, progress.file, pairs, c, d, by simpa using hl, hci, hdi⟩,
    rfl, rfl, ?_⟩
  exact ((((ha.append ht).append hp).append hwf).append hcf).append hsf

theorem chunksOfTwo_pairs (pairs : List (ℕ × ℕ)) :
    Client.chunksOfTwo (pairs.flatMap pairFiles) = pairs.map pairFiles := by
  induction pairs with
  | nil => rfl
  | cons pair pairs ih =>
    rw [List.flatMap_cons, List.map_cons, ← ih]
    rfl

theorem splitAt_append (xs ys : List ℕ) {n : ℕ} (h : xs.length = n) :
    Client.splitAt (xs ++ ys) n = .ok (xs, ys) := by
  unfold Client.splitAt
  rw [if_pos (by simp [h]), ← h, List.take_left, List.drop_left]

/-- The joins of the client, on the files of a layout. -/
def joinLayout (env : Environment) (l : Layout logon) :
    Setup ClientHandshakeError ClientSession := do
  let allocator ← Client.joinAllocator env l.allocator
  let checkWorkers ← Client.joinShared env .packToCheckWorker .checkWorkerToPack
    ClientCheckWorkerSession.mk (l.check.toList.flatMap pairFiles)
  let simulateWorkers ← Client.joinShared env .packToExecutionWorker .executionWorkerToPack
    ClientSimulateWorkerSession.mk (l.simulate.toList.flatMap pairFiles)
  let tpuToPack ← Client.joinEndpoint env .spsc .consumer .tpuToPack l.tpuToPack
  let progressTracker ← Client.joinEndpoint env .spsc .consumer .progress l.progressTracker
  let workers ← l.workers.mapM fun pair => Client.joinWorker env (pairFiles pair)
  return ⟨allocator, tpuToPack, progressTracker, workers, checkWorkers, simulateWorkers⟩

theorem client_layout (l : Layout logon) (h : logon.expectedFileCount = some l.files.length) :
    Client.setupSession env logon l.files = joinLayout env l := by
  have hlt := (expectedFileCount_eq_some.mp h).2
  rw [l.files_length] at hlt
  have hmul : checkedMul logon.workerCount.toNat workerShmem = some (logon.workerCount.toNat * 2) :=
    checkedMul_eq_some.mpr ⟨rfl, by unfold fileTotal at hlt; omega⟩
  have hglobal : Client.splitAt l.files globalShmem =
      .ok ([l.allocator, l.tpuToPack, l.progressTracker], l.workers.flatMap pairFiles ++
        (l.check.toList.flatMap pairFiles ++ l.simulate.toList.flatMap pairFiles)) := by
    rw [Layout.files, List.append_assoc, List.append_assoc]
    exact splitAt_append _ _ rfl
  have hworkers : Client.splitAt (l.workers.flatMap pairFiles ++
      (l.check.toList.flatMap pairFiles ++ l.simulate.toList.flatMap pairFiles))
      (logon.workerCount.toNat * 2) = .ok _ :=
    splitAt_append _ _ (by rw [flatMap_pairFiles_length, l.workers_length])
  have hcheck : Client.splitAt (l.check.toList.flatMap pairFiles ++
      l.simulate.toList.flatMap pairFiles)
      (if logon.checkWorkerCount > 0 then checkShmem else 0) = .ok _ :=
    splitAt_append _ _ (shared_length l.check_isSome)
  simp only [Client.setupSession, h, okOr, ofOutcome_ok_bind, hmul, hglobal, hworkers, hcheck,
    chunksOfTwo_pairs, List.mapM_map]
  exact failIf_neg_bind (by simp) _ _

/-- The errors of a join. -/
def JoinError : Stop ClientHandshakeError → Prop
  | .err (.rtsAlloc _) | .err (.shaq _) => True
  | _ => False

/-- A step that joins files: it fails only with a join error, it returns the given object, and it
does so when no call fails. -/
structure Joins {α : Type} (env : Environment) (join : Setup ClientHandshakeError α) (a : α) :
    Prop where
  stops : ∀ s, StopsOnly JoinError join s
  returns : ∀ {s b s'}, Returns join s b s' → b = a
  total : env.Willing → Total join

theorem joins_pure {α : Type} (a : α) : Joins env (pure a) a where
  stops := stopsOnly_pure _ a
  returns h := (returns_pure.mp h).1.symm
  total _ := total_pure a

theorem Joins.bind {α γ : Type} {join : Setup ClientHandshakeError α} {a : α}
    {next : α → Setup ClientHandshakeError γ} {c : γ} (h : Joins env join a)
    (hn : Joins env (next a) c) : Joins env (join >>= next) c where
  stops s := (h.stops s).bind fun b t hb => by
    rw [h.returns hb]
    exact hn.stops t
  returns hr := by
    obtain ⟨b, t, hb, hc⟩ := returns_bind.mp hr
    rw [h.returns hb] at hc
    exact hn.returns hc
  total hs s := by
    obtain ⟨b, t, hb⟩ := h.total hs s
    obtain rfl := h.returns hb
    obtain ⟨c, u, hc⟩ := hn.total hs t
    exact ⟨c, u, returns_bind.mpr ⟨b, t, hb, hc⟩⟩

theorem joins_request {α : Type} {error : String → ClientHandshakeError}
    (he : ∀ text, JoinError (.err (error text))) (a : α) :
    Joins env (do let _ ← request env error call; return a) a where
  stops s := (stopsOnly_request JoinError he s).bind fun _ t _ => stopsOnly_pure _ a t
  returns h := by
    obtain ⟨n, t, -, ha⟩ := returns_bind.mp h
    exact (returns_pure.mp ha).1.symm
  total hs := (total_request hs).bind fun _ => total_pure a

theorem joins_mapM {α γ : Type} {join : α → Setup ClientHandshakeError γ} {object : α → γ}
    (h : ∀ a, Joins env (join a) (object a)) (as : List α) :
    Joins env (as.mapM join) (as.map object) := by
  induction as with
  | nil => exact joins_pure []
  | cons a as ih =>
    rw [List.mapM_cons]
    exact (h a).bind (ih.bind (joins_pure _))

theorem joinEndpoint_joins (flavour : Flavour) (kind : EndpointKind) (message : Message) (f : ℕ) :
    Joins env (Client.joinEndpoint env flavour kind message f) ⟨f⟩ :=
  joins_request (by simp [JoinError]) _

theorem joinShared_joins {α : Type} {request response : Message}
    (session : Endpoint .mpmc .producer request → Endpoint .mpmc .consumer response → α)
    (pair : Option (ℕ × ℕ)) :
    Joins env (Client.joinShared env request response session (pair.toList.flatMap pairFiles))
      (pair.map fun pair => session ⟨pair.1⟩ ⟨pair.2⟩) := by
  cases pair with
  | none => exact joins_pure none
  | some pair =>
    exact (joinEndpoint_joins _ _ _ _).bind ((joinEndpoint_joins _ _ _ _).bind (joins_pure _))

theorem joinWorker_joins (pair : ℕ × ℕ) :
    Joins env (Client.joinWorker env (pairFiles pair)) ⟨⟨pair.1⟩, ⟨pair.2⟩⟩ :=
  (joinEndpoint_joins _ _ _ _).bind ((joinEndpoint_joins _ _ _ _).bind (joins_pure _))

theorem joinLayout_joins (l : Layout logon) : Joins env (joinLayout env l) l.client :=
  (joins_request (by simp [JoinError]) _).bind <|
    (joinShared_joins _ l.check).bind <|
    (joinShared_joins _ l.simulate).bind <|
    (joinEndpoint_joins _ _ _ _).bind <|
    (joinEndpoint_joins _ _ _ _).bind <|
    (joins_mapM joinWorker_joins l.workers).bind (joins_pure _)

end AgaveSdk.SchedulerHandshake
