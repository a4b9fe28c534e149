import AgaveSdk.SchedulerHandshake.Handshake

/-! The logon message survives every delivery and every history of the server's buffer, and a
rejection tells the client its reason. -/
namespace AgaveSdk.SchedulerHandshake
open FallibleState ByteOrder Segments

@[simp] theorem fieldBytes_length (host : Endian) (n : UInt64) : (fieldBytes host n).length = 8 :=
  hostBytes_length host 8 n.toNat

theorem flatMap_fieldBytes_length (host : Endian) (fields : List UInt64) :
    (fields.flatMap (fieldBytes host)).length = fields.length * 8 := by
  induction fields with
  | nil => rfl
  | cons n fields ih =>
    rw [List.flatMap_cons, List.length_append, ih, fieldBytes_length, List.length_cons]
    omega

theorem fieldAt_flatMap (host : Endian) {fields : List UInt64} {position : ℕ} {n : UInt64}
    (h : fields[position]? = some n) :
    fieldAt host (fields.flatMap (fieldBytes host)) position = n := by
  induction fields generalizing position with
  | nil => simp at h
  | cons m fields ih =>
    cases position with
    | zero =>
      obtain rfl : m = n := by simpa using h
      have hlt : m.toNat < 256 ^ 8 := m.toNat_lt
      rw [fieldAt, List.flatMap_cons, Nat.mul_zero, List.drop_zero,
        List.take_left' (fieldBytes_length host m), fieldBytes, load_hostBytes host hlt,
        UInt64.ofNat_toNat]
    | succ position =>
      have hp : 8 * (position + 1) = (fieldBytes host m).length + 8 * position := by simp; omega
      rw [← ih (show fields[position]? = some n by simpa using h), fieldAt, fieldAt,
        List.flatMap_cons, hp, ← List.drop_drop, List.drop_left]

theorem ProtocolVersions.toBytes_length (host : Endian) (v : ProtocolVersions) :
    (v.toBytes host).length = serializedSize :=
  flatMap_fieldBytes_length host v.fields

theorem ClientLogon.toBytes_length (host : Endian) (logon : ClientLogon) :
    (logon.toBytes host).length = size :=
  flatMap_fieldBytes_length host logon.fields

theorem ProtocolVersions.tryFromBytes_toBytes (host : Endian) (v : ProtocolVersions) :
    tryFromBytes host (v.toBytes host) = some v := by
  have h {i : ℕ} {n : UInt64} (hi : v.fields[i]? = some n) : fieldAt host (v.toBytes host) i = n :=
    fieldAt_flatMap host hi
  rw [tryFromBytes, if_neg (not_not.mpr (toBytes_length host v)), h (i := 0) rfl, h (i := 1) rfl,
    h (i := 2) rfl, h (i := 3) rfl]

theorem ClientLogon.tryFromBytes_toBytes (host : Endian) (logon : ClientLogon) :
    tryFromBytes host (logon.toBytes host) = some logon := by
  have h {i : ℕ} {n : UInt64} (hi : logon.fields[i]? = some n) :
      fieldAt host (logon.toBytes host) i = n := fieldAt_flatMap host hi
  rw [tryFromBytes, if_neg (not_not.mpr (toBytes_length host logon))]
  dsimp only
  rw [h (i := 0) rfl, h (i := 1) rfl, h (i := 2) rfl, h (i := 3) rfl, h (i := 4) rfl,
    h (i := 5) rfl, h (i := 6) rfl, h (i := 7) rfl, h (i := 8) rfl, h (i := 9) rfl,
    h (i := 10) rfl, h (i := 11) rfl, h (i := 12) rfl]

theorem sendLogon_eq (host : Endian) (logon : ClientLogon) (versions : ProtocolVersions) :
    Client.sendLogon host logon versions = versions.toBytes host ++
      (logon.toBytes host ++ List.replicate (bufferSize - logonEnd) 0) := by
  have hv := versions.toBytes_length host
  have hl := logon.toBytes_length host
  unfold Client.sendLogon
  rw [overwrite, overwrite, List.take_zero, List.nil_append, hv, ← hv, List.take_left,
    ← List.drop_drop, List.drop_left, hl, List.drop_replicate, List.drop_replicate, hv]
  rfl

theorem sendLogon_length (host : Endian) (logon : ClientLogon) (versions : ProtocolVersions) :
    (Client.sendLogon host logon versions).length = bufferSize := by
  rw [sendLogon_eq, List.length_append, List.length_append, versions.toBytes_length,
    logon.toBytes_length, List.length_replicate]
  rfl

/-- The server finds in a full buffer what the client put there. -/
theorem parseLogon_sendLogon (host : Endian) (current versions : ProtocolVersions)
    (logon : ClientLogon) :
    Server.parseLogon host current (Client.sendLogon host logon versions) =
      if versions ≠ current then .error (.err (.version current versions)) else .ok logon := by
  have hv := versions.toBytes_length host
  have hl := logon.toBytes_length host
  have hfront : (Client.sendLogon host logon versions).take ProtocolVersions.serializedSize =
      versions.toBytes host := by
    rw [sendLogon_eq, List.take_left' hv]
  have hback : ((Client.sendLogon host logon versions).take logonEnd).drop
      ProtocolVersions.serializedSize = logon.toBytes host := by
    rw [sendLogon_eq, ← List.append_assoc,
      List.take_left' (by rw [List.length_append, hv, hl]; rfl),
      List.drop_left' hv]
  rw [Server.parseLogon, hfront, hback, ProtocolVersions.tryFromBytes_toBytes,
    ClientLogon.tryFromBytes_toBytes]

/-- The bytes that the events add to those received before. -/
def gather : List ReadEvent → List UInt8 → Outcome AgaveHandshakeError (List UInt8)
  | [], received =>
      if received.length < bufferSize then .error (.err .eofDuringHandshake) else .ok received
  | event :: events, received =>
      if received.length < bufferSize then
        match event with
        | .error text => .error (.err (.io text))
        | .data bytes late =>
            let read := bytes.take (bufferSize - received.length)
            if read.length = 0 then .error (.err .eofDuringHandshake)
            else if late = true then .error (.err .timeout)
            else gather events (received ++ read)
      else .ok received

theorem Buffer.write_front (b : Buffer) {received : List UInt8} (bytes : List UInt8)
    (h : received <+: b.bytes) :
    received ++ bytes.take (bufferSize - received.length) <+:
      (b.write received.length bytes).bytes := by
  simp only [Buffer.write, overwrite]
  rw [← List.prefix_iff_eq_take.mp h, ← List.append_assoc]
  exact List.prefix_append _ _

theorem Buffer.eq_of_front (b : Buffer) {received : List UInt8} (h : received <+: b.bytes)
    (hl : ¬ received.length < bufferSize) : b.bytes = received := by
  have hb := b.length_eq
  exact (h.eq_of_length (by have := h.length_le; omega)).symm

/-- The loop gathers the events behind what it received, and ends with a buffer that holds nothing
else. -/
theorem fillBuffer_gather (events : List ReadEvent) {received : List UInt8} {server : Server}
    (h : received <+: server.buffer.bytes) :
    ∃ server', exec (Server.fillBuffer events received.length) server =
        ((gather events received).map fun _ => (), server') ∧
      ∀ bytes, gather events received = .ok bytes → server'.buffer.bytes = bytes := by
  induction events generalizing received server with
  | nil =>
    by_cases hl : received.length < bufferSize
    · exact ⟨server, by simp [Server.fillBuffer, gather, failIf, hl, exec_throw, Except.map],
        by simp [gather, hl]⟩
    · exact ⟨server, by simp [Server.fillBuffer, gather, failIf, hl, exec_pure, Except.map],
        by simp [gather, hl, server.buffer.eq_of_front h hl]⟩
  | cons event events ih =>
    by_cases hl : received.length < bufferSize
    · cases event with
      | error text =>
        exact ⟨server, by simp [Server.fillBuffer, gather, hl, exec_throw, Except.map],
          by simp [gather, hl]⟩
      | data bytes late =>
        let filled : Server := { server with buffer := server.buffer.write received.length bytes }
        have hw : received ++ bytes.take (bufferSize - received.length) <+: filled.buffer.bytes :=
          server.buffer.write_front bytes h
        obtain ⟨server', hexec, hok⟩ := ih hw
        rw [List.length_append] at hexec
        simp only [Server.fillBuffer, gather, if_pos hl, exec_bind, exec_modify, failIf]
        by_cases hz : (bytes.take (bufferSize - received.length)).length = 0
        · simp only [if_pos hz, exec_throw]
          exact ⟨filled, rfl, by simp⟩
        · simp only [if_neg hz, exec_pure]
          by_cases hlate : late = true
          · simp only [if_pos hlate, exec_throw]
            exact ⟨filled, rfl, by simp⟩
          · simp only [if_neg hlate, exec_pure]
            exact ⟨server', hexec, hok⟩
    · exact ⟨server, by simp [Server.fillBuffer, gather, hl, exec_pure, Except.map],
        by simp [gather, hl, server.buffer.eq_of_front h hl]⟩

/-- The outcome is a function of the events alone. -/
theorem recvLogon_eq (host : Endian) (current : ProtocolVersions) (events : List ReadEvent)
    (server : Server) :
    (exec (Server.recvLogon host current events) server).1 =
      gather events [] >>= Server.parseLogon host current := by
  obtain ⟨server', hexec, hok⟩ :=
    fillBuffer_gather events (List.nil_prefix (l := server.buffer.bytes))
  rw [List.length_nil] at hexec
  rw [Server.recvLogon, exec_bind, hexec]
  cases hg : gather events [] with
  | error e => rfl
  | ok bytes =>
    rw [← hok bytes hg]
    rfl

def arrivals (chunks : List (List UInt8)) : List ReadEvent :=
  chunks.map fun chunk => .data chunk false

theorem gather_arrivals {chunks : List (List UInt8)} (more : List ReadEvent) (received : List UInt8)
    (hne : ∀ chunk ∈ chunks, chunk ≠ [])
    (hl : received.length + chunks.flatten.length ≤ bufferSize) :
    gather (arrivals chunks ++ more) received = gather more (received ++ chunks.flatten) := by
  induction chunks generalizing received with
  | nil => simp [arrivals]
  | cons chunk chunks ih =>
    have hpos : 0 < chunk.length := List.length_pos_iff.mpr (hne chunk (by simp))
    rw [List.flatten_cons, List.length_append] at hl
    have hlt : received.length < bufferSize := by omega
    have htake : chunk.take (bufferSize - received.length) = chunk :=
      List.take_of_length_le (by omega)
    have hz : ¬ chunk.length = 0 := by omega
    have htail := ih (received ++ chunk) (fun c hc => hne c (by simp [hc]))
      (by rw [List.length_append]; omega)
    rw [List.flatten_cons, ← List.append_assoc, ← htail]
    simp [arrivals, gather, hlt, htake, hz]

theorem gather_full (more : List ReadEvent) {received : List UInt8}
    (h : received.length = bufferSize) : gather more received = .ok received := by
  cases more <;> simp [gather, h]

theorem recvLogon_sendLogon (host : Endian) (current versions : ProtocolVersions)
    (logon : ClientLogon) {chunks : List (List UInt8)} (more : List ReadEvent) (server : Server)
    (hsent : chunks.flatten = Client.sendLogon host logon versions)
    (hne : ∀ chunk ∈ chunks, chunk ≠ []) :
    (exec (Server.recvLogon host current (arrivals chunks ++ more)) server).1 =
      if versions ≠ current then .error (.err (.version current versions)) else .ok logon := by
  have hl : chunks.flatten.length = bufferSize := by rw [hsent, sendLogon_length]
  rw [recvLogon_eq, gather_arrivals more [] hne (by rw [hl, List.length_nil]; omega),
    List.nil_append, gather_full more hl, hsent, ← parseLogon_sendLogon]
  rfl

theorem recvLogon_short (host : Endian) (current : ProtocolVersions) {chunks : List (List UInt8)}
    (server : Server) (hshort : chunks.flatten.length < bufferSize)
    (hne : ∀ chunk ∈ chunks, chunk ≠ []) :
    (exec (Server.recvLogon host current (arrivals chunks)) server).1 =
      .error (.err .eofDuringHandshake) := by
  have hg := gather_arrivals [] [] hne (by rw [List.length_nil]; omega)
  rw [List.append_nil, List.nil_append] at hg
  rw [recvLogon_eq, hg, gather, if_pos hshort]
  rfl

theorem Buffer.take_write (b : Buffer) (offset : ℕ) (data : List UInt8)
    (h : offset + data.length ≤ bufferSize) :
    (b.write offset data).bytes.take (offset + data.length) = b.bytes.take offset ++ data := by
  have hb := b.length_eq
  have hd : data.take (bufferSize - offset) = data := List.take_of_length_le (by omega)
  simp only [Buffer.write, overwrite, hd]
  rw [← List.append_assoc]
  exact List.take_left' (by rw [List.length_append, List.length_take]; omega)

theorem reasonLen_toNat (reason : List UInt8) :
    (Server.reasonLen reason).toNat = min 255 reason.length := by
  unfold Server.reasonLen
  split
  case isTrue h =>
    rw [UInt8.toNat_ofNat']
    omega
  case isFalse h =>
    rw [Nat.min_eq_left (by omega)]
    rfl

/-- The bytes that announce a failure for a reason. -/
def rejection (reason : List UInt8) : List UInt8 :=
  [logonFailure, Server.reasonLen reason] ++ reason.take (min 255 reason.length)

theorem rejection_length (reason : List UInt8) :
    (rejection reason).length = 2 + min 255 reason.length := by
  rw [rejection, List.length_append, List.length_take]
  simp

/-- The first two bytes, and as many of the reason as its length byte can announce. -/
def maxRejectionSize : ℕ := 2 + 255

theorem rejection_length_le (reason : List UInt8) :
    (rejection reason).length ≤ maxRejectionSize := by
  rw [rejection_length]
  exact Nat.add_le_add_left (min_le_left 255 _) 2

theorem take_writeRejection (reason : List UInt8) (b : Buffer) :
    (Server.writeRejection reason b).bytes.take (2 + (Server.reasonLen reason).toNat) =
      rejection reason := by
  have hlen : (reason.take (min 255 reason.length)).length = min 255 reason.length := by
    rw [List.length_take]
    omega
  have h₀ : (b.write 0 [logonFailure]).bytes.take 1 = [logonFailure] :=
    b.take_write 0 [logonFailure] (by decide)
  have h₁ : ((b.write 0 [logonFailure]).write 1 [Server.reasonLen reason]).bytes.take 2 = _ :=
    (b.write 0 [logonFailure]).take_write 1 [Server.reasonLen reason] (by simp [bufferSize])
  have h₂ := ((b.write 0 [logonFailure]).write 1 [Server.reasonLen reason]).take_write 2
    (reason.take (min 255 reason.length)) (by rw [hlen, bufferSize]; omega)
  rw [hlen, h₁, h₀] at h₂
  rw [Server.writeRejection, reasonLen_toNat, h₂]
  rfl

/-- Received in full, a rejection gives the client as much of the reason as was sent. -/
theorem recvResponse_rejection (reason : List UInt8) (cmsgs : Option (List ControlMessage)) :
    Client.recvResponse (.ok ⟨rejection reason, cmsgs⟩) =
      .error (.err (.rejected (LossyUtf8.decode (reason.take (min 255 reason.length))))) := by
  have hlen : (reason.take (min 255 reason.length)).length = min 255 reason.length := by
    rw [List.length_take]
    omega
  simp only [Client.recvResponse, rejection, List.cons_append, List.nil_append, if_true,
    reasonLen_toNat, hlen, le_refl, List.take_take, Nat.min_self]

/-- The bytes of an error's text. -/
def reasonBytes (debug : LibraryError → String) (e : AgaveHandshakeError) : List UInt8 :=
  (e.display debug).toByteArray.data.toList

/-- The stream of a connection works while the server accepts and rejects on it. -/
structure Connection.Reliable (connection : Connection) (written : ℕ) : Prop where
  accept : connection.acceptError = none
  timeout : connection.timeoutError = none
  nonblocking : connection.nonblockingError = none
  write : connection.write = .ok written

theorem accept_rejects {host : Endian} {current : ProtocolVersions} (debug : LibraryError → String)
    {connection : Connection} {server server' : Server} {e : AgaveHandshakeError} {written : ℕ}
    (hc : connection.Reliable written)
    (he : exec (Server.handleLogon host current connection) server.connected =
      (.error (.err e), server')) :
    (exec (Server.accept host current debug connection) server).1 = .error (.err e) ∧
      (exec (Server.accept host current debug connection) server).2.sent =
        (rejection (reasonBytes debug e)).take written := by
  have hx : exec (Server.accept host current debug connection) server =
      exec (Server.reject debug connection e) server' := by
    rw [Server.accept, hc.accept, hc.timeout]
    simp only [exec_bind, exec_modify, tryIo, exec_pure, exec_recover, he]
  rw [hx, Server.reject, hc.nonblocking, hc.write]
  simp only [exec_bind, exec_modify, tryIo, exec_pure, exec_throw, take_writeRejection, reasonBytes,
    and_self]

/-- A reason whose length fits in a byte is told as it is. -/
theorem told_short_reason (debug : LibraryError → String) (e : AgaveHandshakeError)
    (h : (reasonBytes debug e).length ≤ 255) :
    LossyUtf8.decode ((reasonBytes debug e).take (min 255 (reasonBytes debug e).length)) =
      e.display debug := by
  rw [Nat.min_eq_right h, List.take_length, reasonBytes, LossyUtf8.decode_toByteArray]

/-- A logon arrives as it was sent, however it is cut and whatever the buffer held. A rejection
arrives as far as its length byte reaches. -/
theorem logon_exchange (host : Endian) (current : ProtocolVersions)
    (debug : LibraryError → String) :
    (∀ (logon : ClientLogon) (versions : ProtocolVersions) (chunks : List (List UInt8))
      (more : List ReadEvent) (server : Server),
      chunks.flatten = Client.sendLogon host logon versions → (∀ chunk ∈ chunks, chunk ≠ []) →
      (exec (Server.recvLogon host current (arrivals chunks ++ more)) server).1 =
        if versions ≠ current then .error (.err (.version current versions)) else .ok logon) ∧
    (∀ (chunks : List (List UInt8)) (server : Server),
      chunks.flatten.length < bufferSize → (∀ chunk ∈ chunks, chunk ≠ []) →
      (exec (Server.recvLogon host current (arrivals chunks)) server).1 =
        .error (.err .eofDuringHandshake)) ∧
    (∀ (events : List ReadEvent) (server server' : Server),
      (exec (Server.recvLogon host current events) server).1 =
        (exec (Server.recvLogon host current events) server').1) ∧
    ∀ (connection : Connection) (server : Server) (e : AgaveHandshakeError) (written : ℕ)
      (cmsgs : Option (List ControlMessage)),
      (exec (Server.handleLogon host current connection) server.connected).1 = .error (.err e) →
      connection.Reliable written → 2 + min 255 (reasonBytes debug e).length ≤ written →
      (exec (Server.accept host current debug connection) server).1 = .error (.err e) ∧
        Client.recvResponse
            (.ok ⟨(exec (Server.accept host current debug connection) server).2.sent, cmsgs⟩) =
          .error (.err (.rejected (LossyUtf8.decode
            ((reasonBytes debug e).take (min 255 (reasonBytes debug e).length))))) := by
  refine ⟨fun logon versions chunks more server hsent hne => ?_, fun chunks server hshort hne => ?_,
    fun events server server' => ?_, fun connection server e written cmsgs he hc hw => ?_⟩
  · exact recvLogon_sendLogon host current versions logon more server hsent hne
  · exact recvLogon_short host current server hshort hne
  · rw [recvLogon_eq, recvLogon_eq]
  · obtain ⟨hout, hsent⟩ := accept_rejects debug hc (Prod.ext he rfl)
    rw [hsent, List.take_of_length_le (by rwa [rejection_length])]
    exact ⟨hout, recvResponse_rejection _ _⟩

def sampleVersions : ProtocolVersions := ⟨1, 2, 5, 5⟩

def numberedLogon : ClientLogon := ⟨1, 2, 3, 4, 5, 6, 7, 8, 9, 10, 11, 12, 13⟩

def sampleMessage : List UInt8 := Client.sendLogon .little numberedLogon sampleVersions

/-- A client that closes the stream after one byte. -/
def hastyConnection : Connection where
  acceptError := none
  timeoutError := none
  events := [.data [0] false]
  environment := ⟨fun _ _ _ => .ok 0, fun _ _ => none⟩
  sendError := none
  nonblockingError := none
  write := .ok bufferSize

theorem sample_logon_exchange :
    (exec (Server.recvLogon .little sampleVersions
        (arrivals [sampleMessage.take 100, sampleMessage.drop 100] ++ [])) Server.new).1 =
        .ok numberedLogon ∧
      (exec (Server.recvLogon .little sampleVersions (arrivals [sampleMessage.take 100]))
        Server.new).1 = .error (.err .eofDuringHandshake) ∧
      Client.recvResponse (.ok ⟨(exec (Server.accept .little sampleVersions (fun _ => "")
          hastyConnection) Server.new).2.sent, some []⟩) =
        .error (.err (.rejected "Close during handshake")) := by
  obtain ⟨hcut, hshort, -, hreject⟩ := logon_exchange .little sampleVersions fun _ => ""
  have hlen : sampleMessage.length = 1024 := sendLogon_length _ _ _
  have hfront : sampleMessage.take 100 ≠ [] := by
    rw [Ne, List.take_eq_nil_iff, ← List.length_eq_zero_iff, hlen]
    decide
  have hback : sampleMessage.drop 100 ≠ [] := by
    rw [Ne, List.drop_eq_nil_iff, hlen]
    decide
  refine ⟨?_, ?_, ?_⟩
  · rw [hcut numberedLogon sampleVersions _ [] Server.new (by simp [sampleMessage])
      (by simp [hfront, hback])]
    rfl
  · exact hshort _ Server.new (by simp [hlen, bufferSize]) (by simp [hfront])
  · have hfail : (exec (Server.handleLogon .little sampleVersions hastyConnection)
        Server.new.connected).1 = .error (.err .eofDuringHandshake) := rfl
    have hsize : (reasonBytes (fun _ => "") .eofDuringHandshake).length = 22 := by decide
    obtain ⟨-, hr⟩ := hreject hastyConnection Server.new _ bufferSize (some []) hfail
      ⟨rfl, rfl, rfl, rfl⟩ (by rw [hsize]; decide)
    rw [hr, told_short_reason _ _ (by rw [hsize]; decide)]
    rfl

end AgaveSdk.SchedulerHandshake
