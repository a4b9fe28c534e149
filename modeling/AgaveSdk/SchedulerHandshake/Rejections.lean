import AgaveSdk.SchedulerHandshake.LogonExchange

/-! Rejections under failure: a rejection that arrives in part, and one that cannot be written. -/
namespace AgaveSdk.SchedulerHandshake
open FallibleState ByteOrder

/-- The bytes that the server writes to the stream for an error. -/
def rejectionMessage (debug : LibraryError → String) (e : AgaveHandshakeError) (buffer : Buffer) :
    List UInt8 :=
  (Server.writeRejection (reasonBytes debug e) buffer).bytes.take
    (2 + (Server.reasonLen (reasonBytes debug e)).toNat)

theorem rejectionMessage_eq (debug : LibraryError → String) (e : AgaveHandshakeError)
    (buffer : Buffer) : rejectionMessage debug e buffer = rejection (reasonBytes debug e) :=
  take_writeRejection _ buffer

/-- One byte of a rejection is too short to hold the length that the client reads. -/
theorem recvResponse_singleton (cmsgs : Option (List ControlMessage)) :
    Client.recvResponse (.ok ⟨[logonFailure], cmsgs⟩) = .error (.fault .panic) := rfl

theorem recvResponse_failure (len : UInt8) (reason : List UInt8)
    (cmsgs : Option (List ControlMessage)) :
    Client.recvResponse (.ok ⟨logonFailure :: len :: reason, cmsgs⟩) =
      if len.toNat ≤ reason.length then
        .error (.err (.rejected (LossyUtf8.decode (reason.take len.toNat))))
      else .error (.fault .panic) := rfl

/-- A part of a rejection is its first byte, or the announced length before a part of the reason. -/
theorem rejection_prefix_cases {reason received : List UInt8} (hne : received ≠ [])
    (h : received <+: rejection reason) : received = [logonFailure] ∨ ∃ part,
      received = logonFailure :: Server.reasonLen reason :: part ∧
        part <+: reason.take (min 255 reason.length) := by
  rw [rejection, List.cons_append, List.singleton_append] at h
  cases received with
  | nil => exact absurd rfl hne
  | cons first rest =>
    obtain ⟨rfl, hrest⟩ := List.cons_prefix_cons.mp h
    cases rest with
    | nil => exact .inl rfl
    | cons len part =>
      obtain ⟨rfl, hpart⟩ := List.cons_prefix_cons.mp hrest
      exact .inr ⟨part, rfl, hpart⟩

/-- The client reports an error on a part of a rejection exactly if it is the whole of it. -/
theorem partial_rejection_reported_iff (debug : LibraryError → String) (e : AgaveHandshakeError)
    (buffer : Buffer) (cmsgs : Option (List ControlMessage)) {received : List UInt8}
    (hne : received ≠ []) (h : received <+: rejectionMessage debug e buffer) :
    (∃ error, Client.recvResponse (.ok ⟨received, cmsgs⟩) = .error (.err error)) ↔
      received = rejectionMessage debug e buffer := by
  rw [rejectionMessage_eq] at h ⊢
  constructor
  · rintro ⟨error, herror⟩
    rcases rejection_prefix_cases hne h with rfl | ⟨part, rfl, hpart⟩
    · rw [recvResponse_singleton] at herror
      cases herror
    · rw [recvResponse_failure] at herror
      split at herror
      next hlen =>
        -- the length that was announced has arrived, so nothing is missing
        rw [reasonLen_toNat] at hlen
        have hle := hpart.length_le
        rw [List.length_take] at hle
        rw [hpart.eq_of_length (by rw [List.length_take]; omega)]
        rfl
      next => cases herror
  · rintro rfl
    exact ⟨_, recvResponse_rejection _ cmsgs⟩

theorem whole_timeout_rejection_reported :
    ∃ error, Client.recvResponse
      (.ok ⟨rejectionMessage (fun _ => "") .timeout Buffer.zeroed, some []⟩) =
        .error (.err error) := by
  have hne : rejectionMessage (fun _ => "") .timeout Buffer.zeroed ≠ [] := by
    rw [rejectionMessage_eq]
    exact List.cons_ne_nil _ _
  exact (partial_rejection_reported_iff (fun _ => "") .timeout Buffer.zeroed (some []) hne
    (List.prefix_refl _)).mpr rfl

/-- The first byte alone, and the first byte with the length, make the client panic. -/
theorem cut_timeout_rejection_panics :
    [logonFailure] <+: rejectionMessage (fun _ => "") .timeout Buffer.zeroed ∧
      Client.recvResponse (.ok ⟨[logonFailure], some []⟩) = .error (.fault .panic) ∧
      [logonFailure, 7] <+: rejectionMessage (fun _ => "") .timeout Buffer.zeroed ∧
      Client.recvResponse (.ok ⟨[logonFailure, 7], some []⟩) = .error (.fault .panic) := by
  have hlen : Server.reasonLen (reasonBytes (fun _ => "") .timeout) = 7 := by decide
  rw [rejectionMessage_eq, rejection, hlen]
  refine ⟨?_, rfl, ?_, rfl⟩
  · exact List.cons_prefix_cons.mpr ⟨rfl, List.nil_prefix⟩
  · exact List.prefix_append _ _

/-- The first i/o error while the server tells the client about a failure. -/
def Connection.notificationError (connection : Connection) : Option String :=
  match connection.nonblockingError, connection.write with
  | some text, _ => some text
  | none, .error text => some text
  | none, .ok _ => none

/-- The server reports the error of the notification where there is one. -/
theorem reject_error (debug : LibraryError → String) (connection : Connection)
    (e : AgaveHandshakeError) (server : Server) :
    (exec (Server.reject debug connection e) server).1 =
      .error (.err ((connection.notificationError.map AgaveHandshakeError.io).getD e)) := by
  rw [Server.reject, Connection.notificationError]
  rcases connection.nonblockingError with _ | text
  · rcases connection.write with text | written <;> rfl
  · rfl

theorem accept_error {host : Endian} {current : ProtocolVersions} (debug : LibraryError → String)
    {connection : Connection} {server : Server} {e : AgaveHandshakeError}
    (haccept : connection.acceptError = none) (htimeout : connection.timeoutError = none)
    (he : (exec (Server.handleLogon host current connection) server.connected).1 =
      .error (.err e)) :
    (exec (Server.accept host current debug connection) server).1 =
      .error (.err ((connection.notificationError.map AgaveHandshakeError.io).getD e)) := by
  obtain ⟨server', hexec⟩ : ∃ server', exec (Server.handleLogon host current connection)
      server.connected = (.error (.err e), server') := ⟨_, Prod.ext he rfl⟩
  have hx : exec (Server.accept host current debug connection) server =
      exec (Server.reject debug connection e) server' := by
    rw [Server.accept, haccept, htimeout]
    simp only [exec_bind, exec_modify, tryIo, exec_pure, exec_recover, hexec]
  rw [hx, reject_error]

/-- The error of the handshake is reported exactly if telling the client does not fail otherwise. -/
theorem handshake_error_reported_iff (host : Endian) (current : ProtocolVersions)
    (debug : LibraryError → String) (connection : Connection) (server : Server)
    (e : AgaveHandshakeError) (haccept : connection.acceptError = none)
    (htimeout : connection.timeoutError = none)
    (he : (exec (Server.handleLogon host current connection) server.connected).1 =
      .error (.err e)) :
    (exec (Server.accept host current debug connection) server).1 = .error (.err e) ↔
      ∀ text, connection.notificationError = some text → e = .io text := by
  rw [accept_error debug haccept htimeout he]
  rcases connection.notificationError with _ | text
  · simp
  · simp [eq_comm]

theorem hasty_client_reported :
    (exec (Server.accept .little sampleVersions (fun _ => "") hastyConnection) Server.new).1 =
      .error (.err .eofDuringHandshake) :=
  (handshake_error_reported_iff .little sampleVersions (fun _ => "") hastyConnection Server.new
    .eofDuringHandshake rfl rfl rfl).mpr (by simp [Connection.notificationError, hastyConnection])

/-- A client that closed the stream, so that the rejection cannot be written either. -/
def goneConnection : Connection :=
  { hastyConnection with write := .error "Broken pipe (os error 32)" }

theorem gone_client_misreported :
    (exec (Server.handleLogon .little sampleVersions goneConnection) Server.new.connected).1 =
        .error (.err .eofDuringHandshake) ∧
      (exec (Server.accept .little sampleVersions (fun _ => "") goneConnection) Server.new).1 =
        .error (.err (.io "Broken pipe (os error 32)")) := ⟨rfl, rfl⟩

end AgaveSdk.SchedulerHandshake
