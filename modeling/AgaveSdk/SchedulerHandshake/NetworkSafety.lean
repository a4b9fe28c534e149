import AgaveSdk.Library.Memory
import AgaveSdk.SchedulerHandshake.AcceptOutcomes
import AgaveSdk.SchedulerHandshake.HandshakeNetwork

/-! What holds after any run: both ends of a connection agree on the outcome, the server answers the
message that the client of the connection sent, and no two sessions share a file. -/
namespace AgaveSdk.SchedulerHandshake
open FallibleState ByteOrder Runs Memory

variable {p : Platform} {x y : Exchange}

/-- A session that the server set up for a message, with the answer to it. -/
structure Admission (p : Platform) (logon : ClientLogon) (versions : ProtocolVersions)
    (reply : List UInt8) (files : List ℕ) (session : AgaveSession) : Prop where
  versions : versions = p.current
  valid : ClientLogon.Validated p.minimumFileSize logon
  layout : ∃ l : Layout logon, session = l.server ∧ files = l.files
  nodup : files.Nodup
  sent : reply = [logonSuccess]

/-- What the outcome of a client says about that of the server. -/
structure Agreement (p : Platform) (logon : ClientLogon)
    (accepted : Option (Outcome AgaveHandshakeError AgaveSession)) (files : List ℕ)
    (result : Outcome ClientHandshakeError ClientSession) : Prop where
  session : ∀ client, result = .ok client →
    ∃ session, accepted = some (.ok session) ∧ Attached logon session files client
  rejection : ∀ reason, result = .error (.err (.rejected reason)) →
    ∃ e, accepted = some (.error (.err e)) ∧ reason =
      LossyUtf8.decode ((reasonBytes p.debug e).take (min 255 (reasonBytes p.debug e).length))
  fault : ∀ f, result = .error (.fault f) → ∃ e, accepted = some (.error (.err e))
  protocol : result ≠ .error (.err .protocolViolation)

namespace Exchange

abbrev Admitted (p : Platform) (x : Exchange) (session : AgaveSession) : Prop :=
  Admission p x.logon x.versions x.reply x.replyFiles session

abbrev Agrees (p : Platform) (x : Exchange)
    (result : Outcome ClientHandshakeError ClientSession) : Prop :=
  Agreement p x.logon x.accepted x.replyFiles result

structure Inv (p : Platform) (x : Exchange) : Prop where
  bytes : x.last = none →
    x.chunks.flatten ++ x.inFlight ++ x.unsent = Client.sendLogon p.host x.logon x.versions
  nonempty : ∀ chunk ∈ x.chunks, chunk ≠ []
  fits : x.chunks.flatten.length ≤ bufferSize
  early : x.last ≠ none → ∀ bytes, gather x.events [] ≠ .ok bytes
  accepted : ∀ result, x.accepted = some result →
    (∃ session, result = .ok session ∧ x.Admitted p session) ∨
      x.replyFiles = [] ∧
        ∃ e, result = .error (.err e) ∧ x.reply <+: rejection (reasonBytes p.debug e)
  connected : ∀ result, x.connected = some result → x.Agrees p result

theorem agrees_io (text : String) : x.Agrees p (.error (.err (.io text))) where
  session := by simp
  rejection := by simp
  fault := by simp
  protocol := by simp

/-- A part of a rejection is the end of the stream, a panic or the whole. -/
theorem recvResponse_part {reason : List UInt8} {msg : Received}
    (h : msg.bytes <+: rejection reason) :
    Client.recvResponse (.ok msg) = .error (.err (.io "unexpected end of file")) ∨
      Client.recvResponse (.ok msg) = .error (.fault .panic) ∨
      Client.recvResponse (.ok msg) =
        .error (.err (.rejected (LossyUtf8.decode (reason.take (min 255 reason.length))))) := by
  obtain ⟨received, cmsgs⟩ := msg
  by_cases hnil : received = []
  · subst hnil
    exact .inl rfl
  obtain rfl | ⟨part, rfl, hpart⟩ := rejection_prefix_cases hnil h
  · exact .inr (.inl rfl)
  · rw [recvResponse_failure]
    split
    case isFalse => exact .inr (.inl rfl)
    case isTrue hlen =>
      rw [reasonLen_toNat] at hlen ⊢
      have hle := hpart.length_le
      rw [List.length_take] at hle
      have hpart : part = reason.take (min 255 reason.length) :=
        hpart.eq_of_length (by rw [List.length_take]; omega)
      rw [hpart, List.take_take, Nat.min_self]
      exact .inr (.inr rfl)

theorem awaitSession_error {env : Environment} {logon : ClientLogon} {msg : Except String Received}
    {e : Stop ClientHandshakeError} (h : Client.recvResponse msg = .error e) :
    Client.awaitSession env logon msg = .error e := by
  rw [Client.awaitSession, h]
  rfl

theorem agrees_rejected {e : AgaveHandshakeError} {n : ℕ} {env : Environment}
    (haccepted : x.accepted = some (.error (.err e)))
    (hreply : x.reply <+: rejection (reasonBytes p.debug e)) :
    x.Agrees p (Client.awaitSession env x.logon (.ok (x.arrived n))) := by
  have hpart : (x.arrived n).bytes <+: rejection (reasonBytes p.debug e) :=
    (List.take_prefix n x.reply).trans hreply
  rcases recvResponse_part hpart with h | h | h
  · rw [awaitSession_error h]
    exact agrees_io _
  · rw [awaitSession_error h]
    exact ⟨by simp, by simp, fun f hf => ⟨e, haccepted⟩, by simp⟩
  · rw [awaitSession_error h]
    refine ⟨by simp, fun reason hreason => ⟨e, haccepted, ?_⟩, by simp, by simp⟩
    cases hreason
    rfl

theorem Admitted.files_length {session : AgaveSession} (h : x.Admitted p session) :
    x.replyFiles.length ≤ Client.cmsgMaxSize / 4 := by
  obtain ⟨l, -, hl⟩ := h.layout
  have hv : ClientLogon.Validated (Environment.mk p.minimumFileSize fun _ _ => none).minimumFileSize
      x.logon := h.valid
  rw [hl, l.files_length]
  exact fileTotal_le hv

theorem Admitted.expectedFileCount {session : AgaveSession} (h : x.Admitted p session) :
    x.logon.expectedFileCount = some x.replyFiles.length := by
  obtain ⟨l, -, hl⟩ := h.layout
  rw [hl]
  exact Layout.expectedFileCount_of_le (hl ▸ h.files_length)

/-- The answer to an admitted client holds all files of the session. -/
theorem Admitted.awaitSession_eq {session : AgaveSession} (h : x.Admitted p session) {n : ℕ}
    (hn : 0 < n) (env : Environment) :
    Client.awaitSession env x.logon (.ok (x.arrived n)) =
      (exec (Client.setupSession env x.logon x.replyFiles) .empty).1 := by
  obtain ⟨l, -, hl⟩ := h.layout
  have hne : x.replyFiles ≠ [] := by simp [hl, Layout.files]
  have hbytes : x.reply.take n = [logonSuccess] := by
    rw [h.sent]
    exact List.take_of_length_le hn
  have hrecv : Client.recvResponse (.ok (x.arrived n)) = .ok x.replyFiles := by
    rw [arrived, hbytes, if_neg hne, if_pos h.files_length]
    rfl
  rw [Client.awaitSession, hrecv]
  rfl

theorem agrees_admitted {session : AgaveSession} {n : ℕ} {env : Environment}
    (haccepted : x.accepted = some (.ok session)) (h : x.Admitted p session) (hn : 0 < n) :
    x.Agrees p (Client.awaitSession env x.logon (.ok (x.arrived n))) := by
  obtain ⟨l, rfl, hl⟩ := h.layout
  have hcount := h.expectedFileCount
  rw [h.awaitSession_eq hn, hl]
  rw [hl] at hcount
  have hstops : StopsOnly JoinError (Client.setupSession env x.logon l.files) .empty :=
    client_stops hcount .empty
  refine ⟨fun client hc => ⟨_, haccepted, ?_⟩, fun reason hr => ?_, fun f hf => ?_, fun hv => ?_⟩
  · have hreturns := returns_of_value hc
    rw [client_layout l hcount] at hreturns
    rw [(joinLayout_joins l).returns hreturns, hl]
    exact layout_attached l
  · exact absurd (hstops _ hr) (by simp [JoinError])
  · exact absurd (hstops _ hf) (by simp [JoinError])
  · exact absurd (hstops _ hv) (by simp [JoinError])

theorem Moves.same {smooth : Prop} (h : x.Moves p smooth y) :
    y.accepted = x.accepted ∧ y.reply = x.reply ∧ y.replyFiles = x.replyFiles ∧
      y.logon = x.logon ∧ y.versions = x.versions := by
  cases h <;> exact ⟨rfl, rfl, rfl, rfl, rfl⟩

theorem opened_inv (p : Platform) (logon : ClientLogon) (versions : ProtocolVersions) :
    (opened p.host logon versions).Inv p where
  bytes _ := rfl
  nonempty := by simp [opened]
  fits := Nat.zero_le _
  early h := absurd rfl h
  accepted := by simp [opened]
  connected := by simp [opened]

theorem gather_ended {chunks : List (List UInt8)} {event : ReadEvent}
    (hne : ∀ chunk ∈ chunks, chunk ≠ []) (hlt : chunks.flatten.length < bufferSize)
    (hevent : (∃ text, event = .error text) ∨ ∃ bytes, event = .data bytes true)
    (bytes : List UInt8) : gather (arrivals chunks ++ [event]) [] ≠ .ok bytes := by
  rw [gather_arrivals [event] [] hne (by rw [List.length_nil]; omega), List.nil_append]
  obtain ⟨text, rfl⟩ | ⟨new, rfl⟩ := hevent
  · simp only [gather, if_pos hlt, ne_eq, reduceCtorEq, not_false_eq_true]
  · simp only [gather, if_pos hlt, if_true]
    split <;> simp

theorem Inv.move {smooth : Prop} (hi : x.Inv p) (h : x.Moves p smooth y) : y.Inv p := by
  cases h with
  | write n hclient hserver hpos hle =>
    refine ⟨fun hl => ?_, hi.nonempty, hi.fits, hi.early, hi.accepted, hi.connected⟩
    rw [← hi.bytes hl]
    simp
  | giveUp text hclient =>
    refine ⟨hi.bytes, hi.nonempty, hi.fits, hi.early, hi.accepted, fun result hr => ?_⟩
    cases hr
    exact agrees_io text
  | readLate n hlast hpos hle hfits =>
    refine ⟨by simp, hi.nonempty, hi.fits, fun _ => ?_, hi.accepted, hi.connected⟩
    have hlt : x.chunks.flatten.length < bufferSize := by omega
    exact gather_ended hi.nonempty hlt (.inr ⟨_, rfl⟩)
  | read n hlast hpos hle hfits =>
    refine ⟨fun hl => ?_, fun chunk hc => ?_, ?_, fun hl => absurd hlast hl, hi.accepted,
      hi.connected⟩
    · rw [← hi.bytes hl]
      simp
    · rcases List.mem_append.mp hc with hc | hc
      · exact hi.nonempty chunk hc
      · rw [List.mem_singleton.mp hc, ← List.length_pos_iff, List.length_take]
        omega
    · simp only [List.flatten_append, List.length_append, List.flatten_singleton,
        List.length_take]
      omega
  | failRead text hlast hmore =>
    refine ⟨by simp, hi.nonempty, hi.fits, fun _ => ?_, hi.accepted, hi.connected⟩
    exact gather_ended hi.nonempty hmore (.inl ⟨text, rfl⟩)
  | receive n failure hclient hsent hserver hpos =>
    refine ⟨hi.bytes, hi.nonempty, hi.fits, hi.early, hi.accepted, fun result hr => ?_⟩
    cases hr
    obtain ⟨result, haccepted⟩ := Option.isSome_iff_exists.mp hserver
    obtain ⟨session, rfl, hadmitted⟩ | ⟨-, e, rfl, hreply⟩ := hi.accepted result haccepted
    · exact agrees_admitted haccepted hadmitted hpos
    · exact agrees_rejected haccepted hreply

/-- The message has the size of the buffer, so a full buffer holds it and nothing of it is left. -/
theorem Inv.full (hi : x.Inv p) (hlast : x.last = none)
    (h : bufferSize ≤ x.chunks.flatten.length) :
    x.chunks.flatten = Client.sendLogon p.host x.logon x.versions ∧ x.inFlight = [] ∧
      x.unsent = [] := by
  have hbytes := hi.bytes hlast
  have hsize := congrArg List.length hbytes
  rw [sendLogon_length, List.length_append, List.length_append] at hsize
  have hflight : x.inFlight = [] := List.length_eq_zero_iff.mp (by omega)
  have hunsent : x.unsent = [] := List.length_eq_zero_iff.mp (by omega)
  rw [hflight, hunsent, List.append_nil, List.append_nil] at hbytes
  exact ⟨hbytes, hflight, hunsent⟩

/-- What the server reads to the end is the message of its client. -/
theorem Inv.parsed {logon : ClientLogon} (hi : x.Inv p)
    (h : gather x.events [] >>= Server.parseLogon p.host p.current = .ok logon) :
    logon = x.logon ∧ x.versions = p.current := by
  obtain ⟨bytes, hbytes, hparse⟩ := outcome_bind_ok.mp h
  have hlast : x.last = none := by
    by_contra hne
    exact hi.early hne bytes hbytes
  have hfits := hi.fits
  have hg := gather_arrivals [] [] hi.nonempty (by rw [List.length_nil]; omega)
  rw [events, hlast, Option.toList_none, hg, List.nil_append] at hbytes
  obtain rfl : x.chunks.flatten = bytes := by
    unfold gather at hbytes
    split at hbytes
    · cases hbytes
    · exact Except.ok.inj hbytes
  have hsize := gather_length hfits hbytes
  rw [(hi.full hlast hsize.ge).1, parseLogon_sendLogon] at hparse
  split at hparse
  · cases hparse
  · rename_i heq
    cases hparse
    exact ⟨rfl, not_not.mp heq⟩

theorem Inv.answer {c : Circumstances} {server : Server}
    {answer : Outcome AgaveHandshakeError AgaveSession × Server} (hi : x.Inv p)
    (hopen : x.accepted = none)
    (h : exec (Server.accept p.host p.current p.debug (x.connection p c)) server = answer) :
    (x.answered answer).Inv p ∧ server.calls ≤ answer.2.calls ∧
      ∀ f ∈ answer.2.sentFiles, server.calls.count ≤ f ∧ f < answer.2.calls.count := by
  obtain ⟨result, server'⟩ := answer
  have hclient (r) (hr : x.connected = some r) :
      Agreement p x.logon (some result) server'.sentFiles r := by
    obtain ⟨hsession, hrejection, hfault, hprotocol⟩ := hi.connected r hr
    rw [hopen] at hsession hrejection hfault
    exact ⟨fun c hc => by simpa using hsession c hc, fun t ht => by simpa using hrejection t ht,
      fun f hf => by simpa using hfault f hf, hprotocol⟩
  obtain ⟨hle, ⟨session, logon, rfl, hadmits⟩ | ⟨hfiles, e, rfl, hsent⟩⟩ := accept_cases h
  · obtain ⟨rfl, hversions⟩ := hi.parsed hadmits.received
    obtain ⟨l, hl, hfiles, hfresh⟩ := server_layout hadmits.setup
    refine ⟨⟨hi.bytes, hi.nonempty, hi.fits, hi.early, ?_, hclient⟩, hle, hfresh.range⟩
    intro result hr
    cases hr
    exact .inl ⟨session, rfl, hversions, validated_of_setupSession hadmits.setup, ⟨l, hl, hfiles⟩,
      hfresh.nodup, hadmits.sent⟩
  · refine ⟨⟨hi.bytes, hi.nonempty, hi.fits, hi.early, ?_, hclient⟩, hle, ?_⟩
    · intro result hr
      cases hr
      exact .inr ⟨hfiles, e, rfl, hsent⟩
    · show ∀ f ∈ server'.sentFiles, _
      simp [hfiles]

end Exchange

namespace Network

structure Inv (p : Platform) (s : Network) : Prop where
  taken : s.next ≤ s.exchanges.length
  exchanges : ∀ {i : ℕ} {x : Exchange}, s.exchanges[i]? = some x → x.Inv p
  serving : ∀ {i : ℕ}, s.serving = some i → i < s.next ∧
    ∃ x, s.exchanges[i]? = some x ∧ x.accepted = none
  waiting : ∀ {i : ℕ} {x : Exchange}, s.exchanges[i]? = some x → s.next ≤ i → x.accepted = none
  fresh : ∀ {i : ℕ} {x : Exchange}, s.exchanges[i]? = some x →
    ∀ f ∈ x.replyFiles, f < s.server.calls.count
  disjoint : ∀ {i j : ℕ} {x y : Exchange}, i ≠ j → s.exchanges[i]? = some x →
    s.exchanges[j]? = some y → x.replyFiles.Disjoint y.replyFiles

theorem new_inv (p : Platform) : Network.new.Inv p where
  taken := Nat.zero_le _
  exchanges h := by simp [Network.new] at h
  serving h := by simp [Network.new] at h
  waiting h := by simp [Network.new] at h
  fresh h := by simp [Network.new] at h
  disjoint _ h := by simp [Network.new] at h

variable {s s' : Network}

theorem Inv.move {i : ℕ} {smooth : Prop} (hi : s.Inv p) (hx : s.exchanges[i]? = some x)
    (h : x.Moves p smooth y) : Inv p { s with exchanges := s.exchanges.set i y } := by
  obtain ⟨haccepted, -, hfiles, -, -⟩ := h.same
  -- the other exchanges see no difference
  have hold {j : ℕ} {z : Exchange} (hz : (s.exchanges.set i y)[j]? = some z) :
      ∃ w, s.exchanges[j]? = some w ∧ z.accepted = w.accepted ∧ z.replyFiles = w.replyFiles := by
    obtain ⟨rfl, rfl⟩ | ⟨-, hz⟩ := get_set hz
    · exact ⟨x, hx, haccepted, hfiles⟩
    · exact ⟨z, hz, rfl, rfl⟩
  refine ⟨by simpa using hi.taken, fun hz => ?_, fun hserving => ?_, fun hz hle => ?_,
    fun hz => ?_, fun hne hz hw => ?_⟩
  · obtain ⟨rfl, rfl⟩ | ⟨-, hz⟩ := get_set hz
    · exact (hi.exchanges hx).move h
    · exact hi.exchanges hz
  · obtain ⟨hlt, w, hw, hopen⟩ := hi.serving hserving
    refine ⟨hlt, ?_⟩
    rename_i j
    by_cases hji : j = i
    · subst hji
      obtain rfl : x = w := Option.some.inj (hx.symm.trans hw)
      exact ⟨y, set_get hx, haccepted.trans hopen⟩
    · exact ⟨w, by rw [List.getElem?_set_ne (Ne.symm hji), hw], hopen⟩
  · obtain ⟨w, hw, ha, -⟩ := hold hz
    exact ha.trans (hi.waiting hw hle)
  · obtain ⟨w, hw, -, hf⟩ := hold hz
    rw [hf]
    exact hi.fresh hw
  · obtain ⟨v, hv, -, hf⟩ := hold hz
    obtain ⟨w, hw, -, hg⟩ := hold hw
    rw [hf, hg]
    exact hi.disjoint hne hv hw

theorem Inv.connect (hi : s.Inv p) (logon : ClientLogon) (versions : ProtocolVersions) :
    (s.connected p logon versions).Inv p := by
  have hold {i : ℕ} {x : Exchange}
      (h : (s.exchanges ++ [Exchange.opened p.host logon versions])[i]? = some x) :
      s.exchanges[i]? = some x ∨ x = .opened p.host logon versions := by
    obtain h | ⟨-, h⟩ := get_alloc h
    · exact .inl h
    · exact .inr h
  refine ⟨?_, fun hx => ?_, fun hs => ?_, fun hx hle => ?_, fun hx => ?_, fun hne hx hy => ?_⟩
  · exact hi.taken.trans (by simp [connected])
  · obtain hx | rfl := hold hx
    · exact hi.exchanges hx
    · exact Exchange.opened_inv p logon versions
  · obtain ⟨hlt, x, hx, hopen⟩ := hi.serving hs
    exact ⟨hlt, x, alloc_get hx, hopen⟩
  · obtain hx | rfl := hold hx
    · exact hi.waiting hx hle
    · rfl
  · obtain hx | rfl := hold hx
    · exact hi.fresh hx
    · simp [Exchange.opened]
  · obtain hx | rfl := hold hx
    · obtain hy | rfl := hold hy
      · exact hi.disjoint hne hx hy
      · exact List.disjoint_nil_right _
    · exact List.disjoint_nil_left _

theorem Inv.take (hi : s.Inv p) (hnext : s.next < s.exchanges.length) :
    Inv p { s with next := s.next + 1, serving := some s.next } where
  taken := hnext
  exchanges := hi.exchanges
  serving hs := by
    cases hs
    exact ⟨Nat.lt_succ_self _, _, List.getElem?_eq_getElem hnext,
      hi.waiting (List.getElem?_eq_getElem hnext) le_rfl⟩
  waiting hx hle := hi.waiting hx (Nat.le_of_succ_le hle)
  fresh := hi.fresh
  disjoint := hi.disjoint

theorem Inv.finish {c : Circumstances} {i : ℕ}
    {answer : Outcome AgaveHandshakeError AgaveSession × Server} (hi : s.Inv p)
    (hserving : s.serving = some i) (hx : s.exchanges[i]? = some x)
    (hanswer : exec (Server.accept p.host p.current p.debug (x.connection p c)) s.server = answer) :
    Inv p { s with
      server := answer.2
      serving := none
      exchanges := s.exchanges.set i (x.answered answer) } := by
  obtain ⟨hlt, w, hw, hopen⟩ := hi.serving hserving
  obtain rfl : x = w := Option.some.inj (hx.symm.trans hw)
  obtain ⟨hinv, hcalls, hfresh⟩ := (hi.exchanges hx).answer hopen hanswer
  -- the new files are numbered behind those of all other exchanges
  have hapart {j : ℕ} {z : Exchange} (hz : s.exchanges[j]? = some z) :
      answer.2.sentFiles.Disjoint z.replyFiles := by
    intro f hf hg
    have := (hfresh f hf).1
    have := hi.fresh hz f hg
    omega
  refine ⟨by simpa using hi.taken, fun hz => ?_, by simp, fun hz hle => ?_, fun hz f hf => ?_,
    fun hne hz hw => ?_⟩
  · obtain ⟨rfl, rfl⟩ | ⟨-, hz⟩ := get_set hz
    · exact hinv
    · exact hi.exchanges hz
  · obtain ⟨rfl, rfl⟩ | ⟨-, hz⟩ := get_set hz
    · exact absurd hlt (Nat.not_lt.mpr hle)
    · exact hi.waiting hz hle
  · obtain ⟨rfl, rfl⟩ | ⟨-, hz⟩ := get_set hz
    · exact (hfresh f hf).2
    · exact lt_of_lt_of_le (hi.fresh hz f hf) hcalls
  · obtain ⟨rfl, rfl⟩ | ⟨-, hz'⟩ := get_set hz
    · obtain ⟨rfl, rfl⟩ | ⟨-, hw'⟩ := get_set hw
      · exact absurd rfl hne
      · exact hapart hw'
    · obtain ⟨rfl, rfl⟩ | ⟨-, hw'⟩ := get_set hw
      · exact fun f hf hg => hapart hz' hg hf
      · exact hi.disjoint hne hz' hw'

theorem Steps.inv {smooth : Prop} (h : Steps p s smooth s') (hi : s.Inv p) : s'.Inv p := by
  cases h with
  | move hx hmoves => exact hi.move hx hmoves
  | take hidle hnext => exact hi.take hnext
  | finish hserving hx hready hanswer => exact hi.finish hserving hx hanswer

theorem step_inv {a : Action} (h : s.step p a = some s') (hi : s.Inv p) : s'.Inv p := by
  obtain ⟨logon, versions, -, rfl⟩ | ⟨smooth, -, hsteps⟩ := step_cases h
  · exact hi.connect logon versions
  · exact hsteps.inv hi

theorem run_inv {as : List Action} (h : run (Network.step p) Network.new as = some s) : s.Inv p :=
  run_invariant (Inv p) step_inv h (new_inv p)

end Network

end AgaveSdk.SchedulerHandshake
