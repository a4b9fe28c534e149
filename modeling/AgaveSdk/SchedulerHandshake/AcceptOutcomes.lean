import AgaveSdk.SchedulerHandshake.Rejections
import AgaveSdk.SchedulerHandshake.SessionAttachment

/-! What `accept` leaves behind on every connection: either a session, whose files are sent after
the logon message was read in full, or an error, of which at most the rejection is sent. -/
namespace AgaveSdk.SchedulerHandshake
open FallibleState ByteOrder

variable {host : Endian} {current : ProtocolVersions} {debug : LibraryError → String}
  {connection : Connection} {env : Environment} {logon : ClientLogon}

theorem gather_length {events : List ReadEvent} {received bytes : List UInt8}
    (hl : received.length ≤ bufferSize) (h : gather events received = .ok bytes) :
    bytes.length = bufferSize := by
  induction events generalizing received with
  | nil =>
    unfold gather at h
    split at h
    · cases h
    · cases h
      omega
  | cons event events ih =>
    unfold gather at h
    split at h
    case isFalse =>
      cases h
      omega
    case isTrue hlt =>
      cases event with
      | error text => cases h
      | data new late =>
        simp only at h
        split at h
        · cases h
        split at h
        · cases h
        apply ih _ h
        rw [List.length_append, List.length_take]
        omega

theorem gather_noFault (events : List ReadEvent) (received : List UInt8) :
    NoFault (gather events received) := by
  induction events generalizing received with
  | nil =>
    unfold gather
    split
    · simp [NoFault]
    · exact noFault_ok _
  | cons event events ih =>
    unfold gather
    split
    case isFalse => exact noFault_ok _
    case isTrue =>
      cases event with
      | error text => simp [NoFault]
      | data new late =>
        simp only
        split
        · simp [NoFault]
        split
        · simp [NoFault]
        · exact ih _

/-- The two structures lie within a full buffer. -/
theorem parseLogon_noFault {bytes : List UInt8} (h : bytes.length = bufferSize) :
    NoFault (Server.parseLogon host current bytes) := by
  have hv : (bytes.take ProtocolVersions.serializedSize).length =
      ProtocolVersions.serializedSize := by
    rw [List.length_take, h]
    decide
  have hl : ((bytes.take logonEnd).drop ProtocolVersions.serializedSize).length =
      ClientLogon.size := by
    rw [List.length_drop, List.length_take, h]
    decide
  intro f
  simp only [Server.parseLogon, ProtocolVersions.tryFromBytes, ClientLogon.tryFromBytes, hv, hl,
    ne_eq, not_true_eq_false, if_false]
  split <;> simp

/-- The loop changes nothing but the buffer. -/
theorem fillBuffer_state (events : List ReadEvent) (n : ℕ) (server : Server) :
    ∃ buffer, (exec (Server.fillBuffer events n) server).2 = { server with buffer := buffer } := by
  induction events generalizing n server with
  | nil =>
    refine ⟨server.buffer, ?_⟩
    rw [Server.fillBuffer, exec_failIf]
  | cons event events ih =>
    unfold Server.fillBuffer
    split
    case isFalse => exact ⟨server.buffer, rfl⟩
    case isTrue =>
      cases event with
      | error text => exact ⟨server.buffer, rfl⟩
      | data bytes late =>
        simp only [exec_bind, exec_modify, exec_failIf]
        by_cases hz : (bytes.take (bufferSize - n)).length = 0
        · simp only [if_pos hz]
          exact ⟨_, rfl⟩
        · by_cases hlate : late = true
          · simp only [if_neg hz, if_pos hlate]
            exact ⟨_, rfl⟩
          · simp only [if_neg hz, if_neg hlate]
            exact ih _ _

theorem recvLogon_state (host : Endian) (current : ProtocolVersions) (events : List ReadEvent)
    (server : Server) :
    ∃ buffer, (exec (Server.recvLogon host current events) server).2 =
      { server with buffer := buffer } := by
  obtain ⟨buffer, hb⟩ := fillBuffer_state events 0 server
  refine ⟨buffer, ?_⟩
  rw [Server.recvLogon, exec_bind]
  rcases hr : exec (Server.fillBuffer events 0) server with ⟨e | u, server'⟩
  · rw [hr] at hb
    exact hb
  · rw [hr] at hb
    simp only [exec_bind, exec_get, exec_ofOutcome]
    exact hb

theorem ascends_joinFromExisting (allocator : Allocator) :
    Ascends (Server.joinFromExisting env allocator) :=
  ascends_request.bind fun _ => ascends_pure _

theorem ascends_sharedWorkers {α : Type} (allocator : Allocator) (count : UInt64)
    (request response : Message) (requestCapacity responseCapacity : UInt64)
    (session : Allocator → Endpoint .mpmc .consumer request → Endpoint .mpmc .producer response →
      α) :
    Ascends (Server.sharedWorkers env allocator count request response requestCapacity
      responseCapacity session) := by
  unfold Server.sharedWorkers
  split
  · exact ascends_pure _
  · exact ((createMpmcConsumer_creates _ _).ascends.mapErr _).bind fun _ =>
      ((createMpmcProducer_creates _ _ _).ascends.mapErr _).bind fun _ =>
        (ascends_mapM _ fun _ => ((ascends_joinFromExisting allocator).mapErr _).bind
          fun _ => ascends_pure _).bind fun _ => ascends_pure _

theorem ascends_addWorker (allocator : Allocator) (acc : List ℕ × List AgaveWorkerSession) :
    Ascends (Server.addWorker env logon allocator acc) :=
  ((ascends_joinFromExisting allocator).mapErr _).bind fun _ =>
    ((createConsumer_creates _).ascends.mapErr _).bind fun _ =>
      ((createProducer_creates _ _ _).ascends.mapErr _).bind fun _ => ascends_pure _

theorem ascends_createAllocator : Ascends (Server.createAllocator env logon) := by
  cases h : logon.allocatorCount with
  | none =>
    simp only [Server.createAllocator, h]
    exact fun s => le_rfl
  | some count => exact (createAllocator_creates h).ascends

theorem ascends_setupSession (env : Environment) (logon : ClientLogon) :
    Ascends (Server.setupSession env logon) :=
  (ascends_ofOutcome _).bind fun _ => (ascends_createAllocator.mapErr _).bind fun _ =>
    ((createProducer_creates _ _ _).ascends.mapErr _).bind fun _ =>
    ((createProducer_creates _ _ _).ascends.mapErr _).bind fun _ =>
    (ascends_foldlM _ (fun acc _ => ascends_addWorker _ acc) _).bind fun _ =>
    (ascends_sharedWorkers _ _ _ _ _ _ _).bind fun _ =>
    (ascends_sharedWorkers _ _ _ _ _ _ _).bind fun _ => ascends_pure _

/-- The server read the whole of a logon message, set up a session for it and sent its files. -/
structure Admits (host : Endian) (current : ProtocolVersions) (connection : Connection)
    (calls : Calls) (logon : ClientLogon) (session : AgaveSession) (server : Server) : Prop where
  received : gather connection.events [] >>= Server.parseLogon host current = .ok logon
  setup : Returns (Server.setupSession connection.environment logon) calls
    (session, server.sentFiles) server.calls
  sent : server.sent = [logonSuccess]

theorem recvLogon_noFault (host : Endian) (current : ProtocolVersions) (events : List ReadEvent)
    (server : Server) :
    NoFault (exec (Server.recvLogon host current events) server).1 := by
  rw [recvLogon_eq]
  apply (gather_noFault events []).bind
  intro bytes hb
  exact parseLogon_noFault (gather_length (Nat.zero_le _) hb)

theorem handleLogon_cases {server server' : Server} {result : Outcome AgaveHandshakeError _}
    (h : exec (Server.handleLogon host current connection) server = (result, server')) :
    server.calls ≤ server'.calls ∧
      ((∃ session logon, result = .ok session ∧
          Admits host current connection server.calls logon session server') ∨
        (∃ e, result = .error (.err e)) ∧ server'.sent = server.sent ∧
          server'.sentFiles = server.sentFiles) := by
  obtain ⟨buffer, hb⟩ := recvLogon_state host current connection.events server
  have hsafe := recvLogon_noFault host current connection.events server
  have heq := recvLogon_eq host current connection.events server
  rw [Server.handleLogon, exec_bind] at h
  rcases hr : exec (Server.recvLogon host current connection.events) server with ⟨e | logon, s₁⟩
  · rw [hr] at h hb hsafe
    cases h
    obtain rfl : server' = { server with buffer := buffer } := hb
    obtain ⟨a, ha⟩ | ⟨e', he'⟩ := hsafe.cases
    · cases ha
    · exact ⟨le_rfl, .inr ⟨⟨e', by simpa using he'⟩, rfl, rfl⟩⟩
  · rw [hr] at h hb heq
    obtain rfl : s₁ = { server with buffer := buffer } := hb
    have hle := ascends_setupSession connection.environment logon server.calls
    have hsetup := server_safe connection.environment logon server.calls
    simp only [exec_bind, exec_zoom] at h
    rcases hx : exec (Server.setupSession connection.environment logon) server.calls with
      ⟨e | ⟨session, files⟩, calls⟩
    · rw [hx] at h hle
      rw [Safe, hx] at hsetup
      cases h
      obtain ⟨a, ha⟩ | ⟨e', he'⟩ := hsetup.cases
      · cases ha
      · exact ⟨hle, .inr ⟨⟨e', by simpa using he'⟩, rfl, rfl⟩⟩
    · rw [hx] at h hle
      cases hs : connection.sendError with
      | some text =>
        simp only [hs, tryIo, exec_throw] at h
        cases h
        exact ⟨hle, .inr ⟨⟨_, rfl⟩, rfl, rfl⟩⟩
      | none =>
        simp only [hs, tryIo, exec_pure, exec_modify] at h
        cases h
        exact ⟨hle, .inl ⟨session, logon, rfl, heq.symm, hx, rfl⟩⟩

/-- A rejection is sent as far as the stream takes it, and only for the error that is reported. -/
theorem reject_cases {e : AgaveHandshakeError} {server server' : Server}
    {result : Outcome AgaveHandshakeError _}
    (h : exec (Server.reject debug connection e) server = (result, server')) :
    server'.calls = server.calls ∧ server'.sentFiles = server.sentFiles ∧
      ∃ e', result = .error (.err e') ∧
        (server'.sent = server.sent ∨ server'.sent <+: rejection (reasonBytes debug e')) := by
  rw [Server.reject] at h
  cases hn : connection.nonblockingError with
  | some text =>
    simp only [hn, tryIo, exec_bind, exec_modify, exec_throw] at h
    cases h
    exact ⟨rfl, rfl, _, rfl, .inl rfl⟩
  | none =>
    cases hw : connection.write with
    | error text =>
      simp only [hn, hw, tryIo, exec_bind, exec_modify, exec_pure, exec_throw] at h
      cases h
      exact ⟨rfl, rfl, _, rfl, .inl rfl⟩
    | ok written =>
      simp only [hn, hw, tryIo, exec_bind, exec_modify, exec_pure, exec_throw] at h
      cases h
      refine ⟨rfl, rfl, e, rfl, .inr ?_⟩
      show (rejectionMessage debug e server.buffer).take written <+: _
      rw [rejectionMessage_eq]
      exact List.take_prefix _ _

theorem accept_cases {server server' : Server} {result : Outcome AgaveHandshakeError _}
    (h : exec (Server.accept host current debug connection) server = (result, server')) :
    server.calls ≤ server'.calls ∧
      ((∃ session logon, result = .ok session ∧
          Admits host current connection server.calls logon session server') ∨
        server'.sentFiles = [] ∧ ∃ e, result = .error (.err e) ∧
          server'.sent <+: rejection (reasonBytes debug e)) := by
  rw [Server.accept, exec_bind, exec_modify] at h
  cases ha : connection.acceptError with
  | some text =>
    simp only [ha, tryIo, exec_bind, exec_throw] at h
    cases h
    exact ⟨le_rfl, .inr ⟨rfl, _, rfl, List.nil_prefix⟩⟩
  | none =>
    cases ht : connection.timeoutError with
    | some text =>
      simp only [ha, ht, tryIo, exec_bind, exec_pure, exec_throw] at h
      cases h
      exact ⟨le_rfl, .inr ⟨rfl, _, rfl, List.nil_prefix⟩⟩
    | none =>
      simp only [ha, ht, tryIo, exec_bind, exec_pure, exec_recover] at h
      rcases hx : exec (Server.handleLogon host current connection) server.connected with
        ⟨result₁, s₁⟩
      obtain ⟨hle, ⟨session, logon, rfl, hadmits⟩ | ⟨⟨e, rfl⟩, hsent, hfiles⟩⟩ :=
        handleLogon_cases hx
      · rw [hx] at h
        cases h
        exact ⟨hle, .inl ⟨session, logon, rfl, hadmits⟩⟩
      · rw [hx] at h
        obtain ⟨hcalls, hfiles', e', he', hsent'⟩ := reject_cases h
        refine ⟨hcalls.symm ▸ hle, .inr ⟨hfiles'.trans hfiles, e', he', ?_⟩⟩
        rcases hsent' with hsent' | hsent'
        · rw [hsent', hsent]
          exact List.nil_prefix
        · exact hsent'

theorem accept_admits {server server' : Server} {session : AgaveSession}
    (haccept : connection.acceptError = none) (htimeout : connection.timeoutError = none)
    (h : exec (Server.handleLogon host current connection) server.connected =
      (.ok session, server')) :
    exec (Server.accept host current debug connection) server = (.ok session, server') := by
  rw [Server.accept, haccept, htimeout]
  simp only [exec_bind, exec_modify, tryIo, exec_pure, exec_recover, h]

/-- What the server makes of a logon message that it read in full. -/
def ClientLogon.verdict (minimumFileSize : MinimumFileSize) (current versions : ProtocolVersions)
    (logon : ClientLogon) : Outcome AgaveHandshakeError Unit :=
  if versions ≠ current then .error (.err (.version current versions))
  else logon.validate minimumFileSize

theorem handleLogon_of_verdict {versions : ProtocolVersions} {server : Server}
    (hrecv : (exec (Server.recvLogon host current connection.events) server).1 =
      if versions ≠ current then .error (.err (.version current versions)) else .ok logon)
    (hwilling : connection.environment.Willing) (hsend : connection.sendError = none) :
    (∀ e, logon.verdict connection.environment.minimumFileSize current versions = .error e →
      (exec (Server.handleLogon host current connection) server).1 = .error e) ∧
    (logon.verdict connection.environment.minimumFileSize current versions = .ok () →
      ∃ session, (exec (Server.handleLogon host current connection) server).1 = .ok session) := by
  rw [Server.handleLogon, exec_bind]
  unfold ClientLogon.verdict
  rcases hr : exec (Server.recvLogon host current connection.events) server with ⟨r, s₁⟩
  rw [hr] at hrecv
  split at hrecv
  case isTrue hne =>
    obtain rfl : r = _ := hrecv
    rw [if_pos hne]
    exact ⟨fun e he => by simpa using he, by simp⟩
  case isFalse heq =>
    obtain rfl : r = _ := hrecv
    rw [if_neg heq]
    constructor
    · intro e he
      simp only [exec_bind, exec_zoom, Server.setupSession, exec_ofOutcome, he]
    · intro hv
      obtain ⟨⟨session, files⟩, calls, hx⟩ :=
        server_total hwilling (ClientLogon.validate_eq_ok.mp hv) s₁.calls
      refine ⟨session, ?_⟩
      rw [Returns] at hx
      simp only [exec_bind, exec_zoom, hx, hsend, tryIo, exec_pure, exec_modify]

end AgaveSdk.SchedulerHandshake
