import AgaveSdk.SchedulerHandshake.NetworkCompletion

/-! The handshake as a protocol: agreement and isolation in every run, an end to every run, and the
deserved outcome of a smooth run. -/
namespace AgaveSdk.SchedulerHandshake
open FallibleState ByteOrder Runs

variable {p : Platform} {x y : Exchange} {s s' : Network}

def samplePlatform : Platform where
  host := .little
  current := sampleVersions
  debug _ := ""
  minimumFileSize := sampleEnvironment.minimumFileSize

def otherVersions : ProtocolVersions := ⟨1, 2, 5, 6⟩

/-- Two clients with a valid message, and one with other versions. -/
def sampleClients : List (ClientLogon × ProtocolVersions) :=
  [(sampleLogon, sampleVersions), (sampleLogon, sampleVersions), (sampleLogon, otherVersions)]

theorem sample_verdicts :
    sampleLogon.verdict samplePlatform.minimumFileSize samplePlatform.current sampleVersions =
        .ok () ∧
      sampleLogon.verdict samplePlatform.minimumFileSize samplePlatform.current otherVersions =
        .error (.err (.version sampleVersions otherVersions)) := by
  decide

/-- The clients connect, and then everybody goes on for as long as possible. -/
theorem sample_run : ∃ as s x y z, run (Network.step samplePlatform) Network.new as = some s ∧
    (∀ a ∈ as, a.Smooth) ∧ s.exchanges = [x, y, z] ∧
    (∃ client, x.connected = some (.ok client)) ∧
    (∃ session, y.accepted = some (.ok session)) ∧
    ∃ reason, z.connected = some (.error (.err (.rejected reason))) := by
  let connects : List Action := sampleClients.map fun client => .connect client.1 client.2
  obtain ⟨s₀, hconnects, hclients⟩ : ∃ s₀, run (Network.step samplePlatform) Network.new
      connects = some s₀ ∧ s₀.clients = sampleClients := ⟨_, rfl, rfl⟩
  have hsmooth : ∀ a ∈ connects, a.Smooth := by
    intro a ha
    obtain ⟨client, -, rfl⟩ := List.mem_map.mp ha
    trivial
  have hs₀ := Network.run_smooth hsmooth hconnects
  obtain ⟨bs, s, hbs, hrun, hstuck⟩ := Network.exists_stuck hs₀.inv
  have hs := run_invariant_of Network.Ahead (Network.SmoothInv samplePlatform)
    (fun ha => Network.step_smooth ha.1) hbs hrun hs₀
  have hresolved {i : ℕ} {x : Exchange} (hx : s.exchanges[i]? = some x) :
      x.Resolved samplePlatform := hstuck.resolved hs hx
  have hall : s.clients = sampleClients := (Network.run_clients hbs hrun).trans hclients
  obtain ⟨x, l, hl, hx, hyz⟩ := List.map_eq_cons_iff.mp hall
  obtain ⟨y, l', rfl, hy, hrest⟩ := List.map_eq_cons_iff.mp hyz
  obtain ⟨z, rfl, hz⟩ := List.map_eq_singleton_iff.mp hrest
  have hx' := hresolved (i := 0) (by rw [hl]; rfl)
  have hy' := hresolved (i := 1) (by rw [hl]; rfl)
  have hz' := hresolved (i := 2) (by rw [hl]; rfl)
  obtain ⟨hvalid, hother⟩ := sample_verdicts
  rw [Prod.mk.injEq] at hx hy hz
  obtain ⟨session, client, -, hclient, -⟩ := hx'.admitted (by rw [hx.1, hx.2]; exact hvalid)
  obtain ⟨session', client', hsession', -⟩ := hy'.admitted (by rw [hy.1, hy.2]; exact hvalid)
  obtain ⟨-, hreason⟩ := hz'.rejected _ (by rw [hz.1, hz.2]; exact hother)
  refine ⟨connects ++ bs, s, x, y, z, (run_append hconnects).trans hrun, fun a ha => ?_, hl,
    ⟨client, hclient⟩, ⟨session', hsession'⟩, _, hreason⟩
  rcases List.mem_append.mp ha with ha | ha
  · exact hsmooth a ha
  · exact (hbs a ha).1

/-- A client that gets a session is attached to the very session that the server set up on its
connection, and a client that is told of a rejection is told of the server's error. -/
theorem handshakes_agree {as : List Action} {s : Network}
    (h : run (Network.step p) Network.new as = some s) {i : ℕ}
    (hx : s.exchanges[i]? = some x) :
    (∀ client, x.connected = some (.ok client) → ∃ session,
      x.accepted = some (.ok session) ∧ Attached x.logon session x.replyFiles client) ∧
    (∀ reason, x.connected = some (.error (.err (.rejected reason))) →
      ∃ e, x.accepted = some (.error (.err e)) ∧ reason =
        LossyUtf8.decode ((reasonBytes p.debug e).take (min 255 (reasonBytes p.debug e).length))) ∧
    (∀ f, x.connected = some (.error (.fault f)) → ∃ e, x.accepted = some (.error (.err e))) ∧
    x.connected ≠ some (.error (.err .protocolViolation)) := by
  have hi := (Network.run_inv h).exchanges hx
  refine ⟨fun client hc => ?_, fun reason hc => ?_, fun f hc => ?_, fun hc => ?_⟩
  · exact (hi.connected _ hc).session client rfl
  · exact (hi.connected _ hc).rejection reason rfl
  · exact (hi.connected _ hc).fault f rfl
  · exact (hi.connected _ hc).protocol rfl

/-- The first of the sample clients is attached, and the last one was told of an error. -/
theorem sample_handshakes_agree : ∃ as s x z,
    run (Network.step samplePlatform) Network.new as = some s ∧ s.exchanges[0]? = some x ∧
      s.exchanges[2]? = some z ∧
      (∃ session client, x.accepted = some (.ok session) ∧
        Attached x.logon session x.replyFiles client) ∧
      ∃ e, z.accepted = some (.error (.err e)) := by
  obtain ⟨as, s, x, y, z, hrun, -, hs, ⟨client, hclient⟩, -, reason, hreason⟩ := sample_run
  have hx : s.exchanges[0]? = some x := by rw [hs]; rfl
  have hz : s.exchanges[2]? = some z := by rw [hs]; rfl
  obtain ⟨session, hsession, hattached⟩ := (handshakes_agree hrun hx).1 client hclient
  obtain ⟨e, he, -⟩ := (handshakes_agree hrun hz).2.1 reason hreason
  exact ⟨as, s, x, z, hrun, hx, hz, ⟨session, client, hsession, hattached⟩, e, he⟩

/-- The server never panics. It admits a client only for the valid message that this client sent,
with the server's own versions, on files that no other session of the run has. -/
theorem sessions_isolated {as : List Action} {s : Network}
    (h : run (Network.step p) Network.new as = some s) {i : ℕ}
    (hx : s.exchanges[i]? = some x) :
    (∀ f, x.accepted ≠ some (.error (.fault f))) ∧
    ∀ session, x.accepted = some (.ok session) →
      x.versions = p.current ∧ ClientLogon.Validated p.minimumFileSize x.logon ∧
      (∃ l : Layout x.logon, session = l.server ∧ x.replyFiles = l.files) ∧
      x.replyFiles.Nodup ∧
      ∀ j y, j ≠ i → s.exchanges[j]? = some y → x.replyFiles.Disjoint y.replyFiles := by
  have hi := Network.run_inv h
  have haccepted := (hi.exchanges hx).accepted
  constructor
  · intro f hf
    obtain ⟨session, hs, -⟩ | ⟨-, e, he, -⟩ := haccepted _ hf
    · cases hs
    · cases he
  · intro session hs
    obtain ⟨_, ⟨⟩, hadmitted⟩ | ⟨-, e, he, -⟩ := haccepted _ hs
    · exact ⟨hadmitted.versions, hadmitted.valid, hadmitted.layout, hadmitted.nodup,
        fun j y hne hy => hi.disjoint hne.symm hx hy⟩
    · cases he

/-- The sessions of the first two sample clients share no file. -/
theorem sample_sessions_isolated : ∃ as s x y session,
    run (Network.step samplePlatform) Network.new as = some s ∧ s.exchanges[0]? = some x ∧
      s.exchanges[1]? = some y ∧ y.accepted = some (.ok session) ∧
      y.replyFiles.Disjoint x.replyFiles := by
  obtain ⟨as, s, x, y, z, hrun, -, hs, -, ⟨session, hsession⟩, -⟩ := sample_run
  have hx : s.exchanges[0]? = some x := by rw [hs]; rfl
  have hy : s.exchanges[1]? = some y := by rw [hs]; rfl
  obtain ⟨-, -, -, -, hdisjoint⟩ := (sessions_isolated hrun hy).2 session hsession
  exact ⟨as, s, x, y, session, hrun, hx, hy, hsession, hdisjoint 0 x Nat.zero_ne_one hx⟩

/-- However the streams fail, a run is at most so long for each client that connects. -/
theorem handshakes_end {as : List Action} (h : run (Network.step p) Network.new as = some s) :
    as.length ≤ (as.map Action.cost).sum := by
  have hlen := run_length_le (Network.Inv p) Network.remaining Action.cost Network.step_inv
    Network.step_cost h (Network.new_inv p)
  have hnew : Network.new.remaining = 0 := rfl
  omega

theorem sample_handshakes_end : ∃ as s, run (Network.step samplePlatform) Network.new as = some s ∧
    s.exchanges.length = 3 ∧ as.length ≤ (as.map Action.cost).sum := by
  obtain ⟨as, s, x, y, z, hrun, -, hs, -⟩ := sample_run
  exact ⟨as, s, hrun, by rw [hs]; rfl, handshakes_end hrun⟩

/-- Where no call and no stream fails, no read is late, and each answer is written and received in
one piece, the parties can always go on until no action is left, they cannot go on for ever, and
then every client that connected has the outcome that its message deserves. -/
theorem handshakes_complete {as : List Action}
    (h : run (Network.step p) Network.new as = some s) (has : ∀ a ∈ as, a.Smooth) :
    (∃ bs s', (∀ a ∈ bs, Network.Ahead a) ∧ run (Network.step p) s bs = some s' ∧ s'.Stuck p) ∧
    ∀ bs s', (∀ a ∈ bs, Network.Ahead a) → run (Network.step p) s bs = some s' →
      bs.length ≤ s.remaining ∧ s'.clients = s.clients ∧
        (s'.Stuck p → ∀ x ∈ s'.exchanges, x.Resolved p) := by
  have hs := Network.run_smooth has h
  refine ⟨Network.exists_stuck hs.inv, fun bs s' hbs hrun => ⟨?_, Network.run_clients hbs hrun, ?_⟩⟩
  · have hlen := Network.run_length h hrun
    rw [Network.sum_cost_ahead hbs] at hlen
    omega
  · intro hstuck x hx
    obtain ⟨i, hx⟩ := List.mem_iff_getElem?.mp hx
    have hs' := run_invariant_of Network.Ahead (Network.SmoothInv p)
      (fun ha => Network.step_smooth ha.1) hbs hrun hs
    exact hstuck.resolved hs' hx

theorem sample_handshakes_complete : ∃ (as : List Action) (s s' : Network),
    run (Network.step samplePlatform) Network.new as = some s ∧ s'.clients = s.clients ∧
      ∀ x ∈ s'.exchanges, x.Resolved samplePlatform := by
  obtain ⟨as, s, x, y, z, hrun, hsmooth, hs, -⟩ := sample_run
  obtain ⟨⟨bs, s', hbs, hrun', hstuck⟩, hall⟩ := handshakes_complete hrun hsmooth
  obtain ⟨-, hclients, hresolved⟩ := hall bs s' hbs hrun'
  exact ⟨as, s, s', hrun, hclients, hresolved hstuck⟩

end AgaveSdk.SchedulerHandshake
