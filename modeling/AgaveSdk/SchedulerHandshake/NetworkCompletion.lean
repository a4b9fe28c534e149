import AgaveSdk.SchedulerHandshake.NetworkSafety

/-! Every run ends, and a smooth one ends with the outcome at both ends that the message of the
client deserves. -/
namespace AgaveSdk.SchedulerHandshake
open FallibleState ByteOrder Runs Memory

variable {p : Platform} {x y : Exchange} {s s' : Network}

/-- A byte that is not sent counts twice, since it is written and then read. -/
def Exchange.remaining (x : Exchange) : ℕ :=
  2 * x.unsent.length + x.inFlight.length + (if x.last = none then 1 else 0) +
    (if x.accepted.isNone then 1 else 0) + (if x.connected.isNone then 1 else 0)

def Network.remaining (s : Network) : ℕ :=
  (s.exchanges.map Exchange.remaining).sum + (s.exchanges.length - s.next)

def Action.Connects : Action → Prop
  | .connect _ _ => True
  | _ => False

/-- What a new connection adds to the measure, and its own step. -/
def Action.cost : Action → ℕ
  | .connect _ _ => 2 * bufferSize + 5
  | _ => 0

theorem Action.cost_of_not_connects {a : Action} (h : ¬ a.Connects) : a.cost = 0 := by
  cases a <;> simp_all [Action.Connects, Action.cost]

theorem Exchange.Moves.remaining_lt {smooth : Prop} (h : x.Moves p smooth y) :
    y.remaining < x.remaining := by
  cases h with
  | write n hclient hserver hpos hle =>
    simp only [Exchange.remaining, List.length_drop, List.length_append, List.length_take]
    omega
  | giveUp text hclient => simp [Exchange.remaining, hclient]
  | readLate n hlast hpos hle hfits =>
    simp only [Exchange.remaining, List.length_drop, hlast, if_true, reduceCtorEq, if_false]
    omega
  | read n hlast hpos hle hfits =>
    simp only [Exchange.remaining, List.length_drop]
    omega
  | failRead text hlast hmore =>
    simp [Exchange.remaining, hlast]
  | receive n failure hclient hsent hserver hpos => simp [Exchange.remaining, hclient]

theorem sum_set_lt {xs : List Exchange} {i : ℕ} (hx : xs[i]? = some x)
    (h : y.remaining < x.remaining) :
    ((xs.set i y).map Exchange.remaining).sum < (xs.map Exchange.remaining).sum := by
  induction xs generalizing i with
  | nil => simp at hx
  | cons z zs ih =>
    cases i with
    | zero =>
      cases hx
      simpa using h
    | succ i =>
      have hzs := ih (i := i) (by simpa using hx)
      simpa using hzs

theorem Exchange.answered_remaining_lt
    (answer : Outcome AgaveHandshakeError AgaveSession × Server) (h : x.accepted = none) :
    (x.answered answer).remaining < x.remaining := by
  simp only [Exchange.remaining, Exchange.answered, h, Option.isNone_some, Option.isNone_none,
    Bool.false_eq_true, if_true, if_false]
  exact Nat.add_lt_add_right (Nat.lt_succ_self _) _

namespace Network

theorem Steps.remaining_lt {smooth : Prop} (h : Steps p s smooth s') (hi : s.Inv p) :
    s'.remaining < s.remaining := by
  unfold remaining
  cases h with
  | move hx hmoves =>
    have := sum_set_lt hx hmoves.remaining_lt
    simp only [List.length_set]
    omega
  | take hidle hnext =>
    dsimp only
    omega
  | @finish c i x answer hserving hx hready hanswer =>
    obtain ⟨-, w, hw, hopen⟩ := hi.serving hserving
    rw [hx] at hw
    cases hw
    have := sum_set_lt hx (Exchange.answered_remaining_lt answer hopen)
    simp only [List.length_set]
    omega

theorem step_cost {a : Action} (h : s.step p a = some s') (hi : s.Inv p) :
    s'.remaining + 1 ≤ s.remaining + a.cost := by
  obtain ⟨logon, versions, rfl, rfl⟩ | ⟨smooth, -, hsteps⟩ := step_cases h
  · have hopened : (Exchange.opened p.host logon versions).remaining = 2 * bufferSize + 3 := by
      simp [Exchange.remaining, Exchange.opened, sendLogon_length]
    simp only [remaining, connected, List.map_append, List.sum_append, List.map_singleton,
      List.sum_singleton, hopened, List.length_append, List.length_singleton, Action.cost]
    omega
  · have := hsteps.remaining_lt hi
    omega

theorem run_length {as bs : List Action} (h : run (Network.step p) Network.new as = some s)
    (hb : run (Network.step p) s bs = some s') :
    bs.length + s'.remaining ≤ s.remaining + (bs.map Action.cost).sum :=
  run_length_le (Inv p) remaining Action.cost step_inv step_cost hb (run_inv h)

end Network

/-- The outcome that a message deserves, at both ends. A reason that is not cut off is told as it
is. -/
structure Exchange.Resolved (p : Platform) (x : Exchange) : Prop where
  admitted : x.logon.verdict p.minimumFileSize p.current x.versions = .ok () →
    ∃ session client, x.accepted = some (.ok session) ∧ x.connected = some (.ok client) ∧
      Attached x.logon session x.replyFiles client
  rejected : ∀ e, x.logon.verdict p.minimumFileSize p.current x.versions = .error (.err e) →
    x.accepted = some (.error (.err e)) ∧ x.connected = some (.error (.err (.rejected
      (LossyUtf8.decode ((reasonBytes p.debug e).take (min 255 (reasonBytes p.debug e).length))))))
  explained : ∀ e, x.logon.verdict p.minimumFileSize p.current x.versions = .error (.err e) →
    (reasonBytes p.debug e).length ≤ 255 →
      x.connected = some (.error (.err (.rejected (e.display p.debug))))

/-- The outcome of the server on a message that it read in full. -/
structure Judged (p : Platform) (logon : ClientLogon) (versions : ProtocolVersions)
    (unsent reply : List UInt8) (result : Outcome AgaveHandshakeError AgaveSession) : Prop where
  sent : unsent = []
  admitted : logon.verdict p.minimumFileSize p.current versions = .ok () →
    ∃ session, result = .ok session
  rejected : ∀ e, logon.verdict p.minimumFileSize p.current versions = .error (.err e) →
    result = .error (.err e) ∧ reply = rejection (reasonBytes p.debug e)

/-- What a client whose stream works makes of it. -/
structure Told (p : Platform) (logon : ClientLogon) (versions : ProtocolVersions)
    (result : Outcome ClientHandshakeError ClientSession) : Prop where
  admitted : logon.verdict p.minimumFileSize p.current versions = .ok () →
    ∃ client, result = .ok client
  rejected : ∀ e, logon.verdict p.minimumFileSize p.current versions = .error (.err e) →
    result = .error (.err (.rejected
      (LossyUtf8.decode ((reasonBytes p.debug e).take (min 255 (reasonBytes p.debug e).length)))))

/-- An exchange in which nothing failed. -/
structure Exchange.SmoothInv (p : Platform) (x : Exchange) : Prop where
  last : x.last = none
  patient : x.accepted = none → x.connected = none
  accepted : ∀ result, x.accepted = some result →
    Judged p x.logon x.versions x.unsent x.reply result
  connected : ∀ result, x.connected = some result → Told p x.logon x.versions result

namespace Exchange

theorem opened_smooth (p : Platform) (logon : ClientLogon) (versions : ProtocolVersions) :
    (opened p.host logon versions).SmoothInv p where
  last := rfl
  patient _ := rfl
  accepted := by simp [opened]
  connected := by simp [opened]

/-- The whole of the answer arrives. -/
theorem told_of_judged {result : Outcome AgaveHandshakeError AgaveSession} {n : ℕ}
    {failure : ℕ → Call → Option String} (hi : x.Inv p) (haccepted : x.accepted = some result)
    (h : Judged p x.logon x.versions x.unsent x.reply result)
    (hwilling : ∀ number call, failure number call = none) (hn : maxRejectionSize ≤ n) :
    Told p x.logon x.versions
      (Client.awaitSession ⟨p.minimumFileSize, failure⟩ x.logon (.ok (x.arrived n))) := by
  constructor
  · intro hv
    obtain ⟨session, rfl⟩ := h.admitted hv
    obtain ⟨_, -, hadmitted⟩ | ⟨-, e, he, -⟩ := hi.accepted _ haccepted
    · obtain ⟨l, -, hl⟩ := hadmitted.layout
      have hcount := hadmitted.expectedFileCount
      rw [hl] at hcount
      rw [hadmitted.awaitSession_eq (lt_of_lt_of_le (by decide) hn), hl, client_layout l hcount]
      have henv : Environment.Willing ⟨p.minimumFileSize, failure⟩ := hwilling
      obtain ⟨client, t, hc⟩ := (joinLayout_joins l).total henv .empty
      exact ⟨client, hc.value⟩
    · cases he
  · intro e hv
    obtain ⟨-, hreply⟩ := h.rejected e hv
    have hwhole : x.reply.take n = rejection (reasonBytes p.debug e) := by
      rw [hreply]
      exact List.take_of_length_le ((rejection_length_le _).trans hn)
    unfold Client.awaitSession arrived
    rw [hwhole, recvResponse_rejection]
    rfl

theorem SmoothInv.move {smooth : Prop} (hi : x.Inv p) (hs : x.SmoothInv p)
    (h : x.Moves p smooth y) (hsmooth : smooth) : y.SmoothInv p := by
  cases h with
  | write n hclient hserver hpos hle =>
    refine ⟨hs.last, hs.patient, fun result hr => ?_, hs.connected⟩
    rw [hserver] at hr
    cases hr
  | giveUp text hclient => exact hsmooth.elim
  | readLate n hlast hpos hle hfits => exact hsmooth.elim
  | read n hlast hpos hle hfits => exact ⟨hs.last, hs.patient, hs.accepted, hs.connected⟩
  | failRead text hlast hmore => exact hsmooth.elim
  | receive n failure hclient hsent hserver hpos =>
    obtain ⟨result, haccepted⟩ := Option.isSome_iff_exists.mp hserver
    refine ⟨hs.last, fun ha => ?_, hs.accepted, fun r hr => ?_⟩
    · rw [haccepted] at ha
      cases ha
    · have htold :=
        told_of_judged hi haccepted (hs.accepted result haccepted) hsmooth.1 hsmooth.2
      cases hr
      exact htold

/-- A server that is not hindered reads the message to its end and judges it. -/
theorem SmoothInv.answer {c : Circumstances} {server : Server}
    {answer : Outcome AgaveHandshakeError AgaveSession × Server} (hi : x.Inv p)
    (hs : x.SmoothInv p) (hopen : x.accepted = none) (hready : x.Ready c) (hc : c.Smooth)
    (h : exec (Server.accept p.host p.current p.debug (x.connection p c)) server = answer) :
    (x.answered answer).SmoothInv p := by
  have hconnected := hs.patient hopen
  -- nothing hindered the reads, so the buffer is full
  have hfull : bufferSize ≤ x.chunks.flatten.length := by
    obtain ⟨-, hend | hend | ⟨-, hend⟩⟩ | ⟨ht, -⟩ := hready
    · exact absurd hs.last hend
    · exact hend
    · rw [hconnected] at hend
      cases hend
    · exact absurd hc.timeout ht
  obtain ⟨hmessage, -, hsent⟩ := hi.full hs.last hfull
  have hevents : (x.connection p c).events = arrivals x.chunks ++ [] := by
    show x.events = _
    rw [events, hs.last]
    rfl
  have hrecv : (exec (Server.recvLogon p.host p.current (x.connection p c).events)
      server.connected).1 = if x.versions ≠ p.current then
        .error (.err (.version p.current x.versions)) else .ok x.logon := by
    rw [hevents]
    exact recvLogon_sendLogon p.host p.current x.versions x.logon [] _ hmessage hi.nonempty
  obtain ⟨herror, hok⟩ := handleLogon_of_verdict hrecv hc.willing hc.send
  obtain ⟨written, hwrite, hwritten⟩ := hc.write
  refine ⟨hs.last, by simp [answered], fun result hr => ?_, fun result hr => ?_⟩
  · obtain rfl : answer.1 = result := Option.some.inj hr
    refine ⟨hsent, fun hv => ?_, fun e hv => ?_⟩
    · obtain ⟨session, hsession⟩ := hok hv
      refine ⟨session, ?_⟩
      rw [← h, accept_admits rfl hc.timeout (Prod.ext hsession rfl)]
    · have hreliable : (x.connection p c).Reliable written :=
        ⟨rfl, hc.timeout, hc.nonblocking, hwrite⟩
      obtain ⟨hresult, hreply⟩ :=
        accept_rejects p.debug hreliable (Prod.ext (herror _ hv) rfl)
      rw [h] at hresult hreply
      refine ⟨hresult, ?_⟩
      show answer.2.sent = _
      rw [hreply]
      exact List.take_of_length_le ((rejection_length_le _).trans hwritten)
  · have hr : x.connected = some result := hr
    rw [hconnected] at hr
    cases hr

end Exchange

namespace Network

structure SmoothInv (p : Platform) (s : Network) : Prop where
  inv : s.Inv p
  exchanges : ∀ {i : ℕ} {x : Exchange}, s.exchanges[i]? = some x → x.SmoothInv p
  answered : ∀ {i : ℕ} {x : Exchange}, s.exchanges[i]? = some x → i < s.next →
    s.serving ≠ some i → x.accepted ≠ none

theorem new_smooth (p : Platform) : SmoothInv p Network.new where
  inv := new_inv p
  exchanges h := by simp [Network.new] at h
  answered h := by simp [Network.new] at h

theorem SmoothInv.connect (hs : s.SmoothInv p) (logon : ClientLogon)
    (versions : ProtocolVersions) : (s.connected p logon versions).SmoothInv p := by
  refine ⟨hs.inv.connect logon versions, fun {i x} hx => ?_, fun {i x} hx hi hserving => ?_⟩
  · obtain hx | ⟨-, rfl⟩ := get_alloc hx
    · exact hs.exchanges hx
    · exact Exchange.opened_smooth p logon versions
  · obtain hx | ⟨rfl, -⟩ := get_alloc hx
    · exact hs.answered hx hi hserving
    · exact absurd hi (Nat.not_lt.mpr hs.inv.taken)

theorem Steps.smooth {smooth : Prop} (h : Steps p s smooth s') (hsmooth : smooth)
    (hs : s.SmoothInv p) : s'.SmoothInv p := by
  refine ⟨h.inv hs.inv, fun {j z} hz => ?_, fun {j z} hz hj hserving => ?_⟩
  · cases h with
    | move hx hmoves =>
      obtain ⟨rfl, rfl⟩ | ⟨-, hz⟩ := get_set hz
      · exact (hs.exchanges hx).move (hs.inv.exchanges hx) hmoves hsmooth
      · exact hs.exchanges hz
    | take hidle hnext => exact hs.exchanges hz
    | finish hserving hx hready hanswer =>
      obtain ⟨rfl, rfl⟩ | ⟨-, hz⟩ := get_set hz
      · obtain ⟨-, w, hw, hopen⟩ := hs.inv.serving hserving
        rw [hx] at hw
        cases hw
        exact (hs.exchanges hx).answer (hs.inv.exchanges hx) hopen hready hsmooth hanswer
      · exact hs.exchanges hz
  · cases h with
    | move hx hmoves =>
      obtain ⟨rfl, rfl⟩ | ⟨-, hz⟩ := get_set hz
      · rw [hmoves.same.1]
        exact hs.answered hx hj hserving
      · exact hs.answered hz hj hserving
    | take hidle hnext =>
      -- the connection just taken is the one served
      have hne : j ≠ s.next := fun he => hserving (congrArg some he.symm)
      have hj : j < s.next + 1 := hj
      exact hs.answered hz (by omega) (by simp [hidle])
    | finish hold hx hready hanswer =>
      obtain ⟨rfl, rfl⟩ | ⟨hne, hz⟩ := get_set hz
      · exact Option.some_ne_none _
      · exact hs.answered hz hj (by rw [hold]; exact fun he => hne (Option.some.inj he).symm)

theorem step_smooth {a : Action} (ha : a.Smooth) (h : s.step p a = some s')
    (hs : s.SmoothInv p) : s'.SmoothInv p := by
  obtain ⟨logon, versions, -, rfl⟩ | ⟨smooth, hsmooth, hsteps⟩ := step_cases h
  · exact hs.connect logon versions
  · exact hsteps.smooth (hsmooth ha) hs

theorem run_smooth {as : List Action} (has : ∀ a ∈ as, a.Smooth)
    (h : run (Network.step p) Network.new as = some s) : s.SmoothInv p :=
  run_invariant_of Action.Smooth (SmoothInv p) step_smooth has h (new_smooth p)

/-- Without a new client, no smooth action is possible. -/
def Stuck (p : Platform) (s : Network) : Prop :=
  ∀ a, a.Smooth → ¬ a.Connects → ∀ s', s.step p a ≠ some s'

theorem Stuck.unsent (h : s.Stuck p) {i : ℕ} (hx : s.exchanges[i]? = some x)
    (hclient : x.connected = none) (hserver : x.accepted = none) : x.unsent = [] := by
  by_contra hne
  have hpos : 0 < x.unsent.length := List.length_pos_iff.mpr hne
  apply h (.write i 1) trivial id
  apply update_eq_some.mpr
  exact ⟨x, _, hx, if_pos ⟨by rw [hclient]; rfl, by rw [hserver]; rfl, Nat.one_pos, hpos⟩, rfl⟩

def Circumstances.undisturbed : Circumstances :=
  ⟨none, fun _ _ => none, none, none, .ok maxRejectionSize⟩

theorem Stuck.idle (h : s.Stuck p) (hs : s.SmoothInv p) : s.serving = none := by
  by_contra hne
  obtain ⟨i, hi⟩ := Option.ne_none_iff_exists'.mp hne
  obtain ⟨-, x, hx, hopen⟩ := hs.inv.serving hi
  have hinv := hs.inv.exchanges hx
  have hsmooth := hs.exchanges hx
  have hunsent := h.unsent hx (hsmooth.patient hopen) hopen
  by_cases hfull : bufferSize ≤ x.chunks.flatten.length
  · apply h (.finish Circumstances.undisturbed) ⟨rfl, fun _ _ => rfl, rfl, rfl, _, rfl, le_rfl⟩ id
    have hready : x.Ready Circumstances.undisturbed := .inl ⟨rfl, .inr (.inl hfull)⟩
    simp only [step, hi, Option.bind_eq_bind, Option.bind_some, hx, if_pos hready]
    rfl
  · -- what is neither read nor unsent is in flight
    have hsize := congrArg List.length (hinv.bytes hsmooth.last)
    rw [sendLogon_length, hunsent, List.append_nil, List.length_append] at hsize
    apply h (.read 1 false) rfl id
    simp only [step, hi, Option.bind_eq_bind, Option.bind_some]
    apply update_eq_some.mpr
    exact ⟨x, _, hx, if_pos ⟨hsmooth.last, Nat.one_pos, by omega, by omega⟩, rfl⟩

theorem Stuck.taken (h : s.Stuck p) (hidle : s.serving = none) : s.exchanges.length ≤ s.next := by
  by_contra hlt
  apply h .take trivial id
  simp only [step]
  exact if_pos ⟨hidle, by omega⟩

theorem Stuck.connected (h : s.Stuck p) {i : ℕ} (hx : s.exchanges[i]? = some x)
    (hunsent : x.unsent = []) (hserver : x.accepted ≠ none) : x.connected ≠ none := by
  intro hclient
  apply h (.receive i maxRejectionSize fun _ _ => none) ⟨fun _ _ => rfl, le_rfl⟩ id
  apply update_eq_some.mpr
  refine ⟨x, _, hx, if_pos ⟨by rw [hclient]; rfl, hunsent, ?_, by decide⟩, rfl⟩
  exact Option.isSome_iff_ne_none.mpr hserver

theorem Stuck.resolved (h : s.Stuck p) (hs : s.SmoothInv p) {i : ℕ}
    (hx : s.exchanges[i]? = some x) : x.Resolved p := by
  have hidle := h.idle hs
  have hi : i < s.next := lt_of_lt_of_le (List.getElem?_eq_some_iff.mp hx).1 (h.taken hidle)
  have hanswered := hs.answered hx hi (by simp [hidle])
  obtain ⟨result, haccepted⟩ := Option.ne_none_iff_exists'.mp hanswered
  have hjudged := (hs.exchanges hx).accepted result haccepted
  obtain ⟨outcome, hconnected⟩ :=
    Option.ne_none_iff_exists'.mp (h.connected hx hjudged.sent hanswered)
  have htold := (hs.exchanges hx).connected outcome hconnected
  refine ⟨fun hv => ?_, fun e hv => ?_, fun e hv hshort => ?_⟩
  · obtain ⟨client, rfl⟩ := htold.admitted hv
    obtain ⟨session, hsession, hattached⟩ :=
      ((hs.inv.exchanges hx).connected _ hconnected).session client rfl
    exact ⟨session, client, hsession, hconnected, hattached⟩
  · rw [haccepted, hconnected, (hjudged.rejected e hv).1, htold.rejected e hv]
    exact ⟨rfl, rfl⟩
  · rw [hconnected, htold.rejected e hv, told_short_reason p.debug e hshort]

def clients (s : Network) : List (ClientLogon × ProtocolVersions) :=
  s.exchanges.map fun x => (x.logon, x.versions)

theorem clients_set {i : ℕ} (hx : s.exchanges[i]? = some x) (hlogon : y.logon = x.logon)
    (hversions : y.versions = x.versions) :
    (s.exchanges.set i y).map (fun x => (x.logon, x.versions)) = s.clients := by
  rw [List.map_set, hlogon, hversions]
  obtain ⟨hi, rfl⟩ := List.getElem?_eq_some_iff.mp hx
  unfold clients
  apply List.ext_getElem (by simp)
  intro j hj hj'
  rw [List.getElem_set]
  split
  case isTrue he =>
    subst he
    simp
  case isFalse => rfl

theorem Steps.clients {smooth : Prop} (h : Steps p s smooth s') : s'.clients = s.clients := by
  cases h with
  | move hx hmoves => exact clients_set hx hmoves.same.2.2.2.1 hmoves.same.2.2.2.2
  | take hidle hnext => rfl
  | finish hserving hx hready hanswer => exact clients_set hx rfl rfl

/-- The smooth actions of parties that are connected. -/
def Ahead (a : Action) : Prop := a.Smooth ∧ ¬ a.Connects

theorem run_clients {bs : List Action} (hbs : ∀ a ∈ bs, Ahead a)
    (h : run (Network.step p) s bs = some s') : s'.clients = s.clients := by
  apply run_invariant_of Ahead (fun t => t.clients = s.clients) _ hbs h rfl
  intro t a t' ha hstep ht
  obtain ⟨logon, versions, rfl, -⟩ | ⟨smooth, -, hsteps⟩ := step_cases hstep
  · exact absurd trivial ha.2
  · exact hsteps.clients.trans ht

theorem exists_stuck (hs : s.Inv p) :
    ∃ bs s', (∀ a ∈ bs, Ahead a) ∧ run (Network.step p) s bs = some s' ∧ s'.Stuck p := by
  induction hn : s.remaining using Nat.strong_induction_on generalizing s with
  | _ n ih =>
    by_cases hstuck : s.Stuck p
    · exact ⟨[], s, by simp, rfl, hstuck⟩
    · simp only [Stuck, not_forall, not_not] at hstuck
      obtain ⟨a, hsmooth, hconnects, t, ht⟩ := hstuck
      have hcost := step_cost ht hs
      rw [Action.cost_of_not_connects hconnects] at hcost
      obtain ⟨bs, s', hbs, hrun, hs'⟩ := ih t.remaining (by omega) (step_inv ht hs) rfl
      refine ⟨a :: bs, s', List.forall_mem_cons.mpr ⟨⟨hsmooth, hconnects⟩, hbs⟩, ?_, hs'⟩
      rw [run, ht]
      exact hrun

theorem sum_cost_ahead {bs : List Action} (hbs : ∀ a ∈ bs, Ahead a) :
    (bs.map Action.cost).sum = 0 := by
  induction bs with
  | nil => rfl
  | cons a bs ih =>
    obtain ⟨ha, hbs⟩ := List.forall_mem_cons.mp hbs
    rw [List.map_cons, List.sum_cons, Action.cost_of_not_connects ha.2, ih hbs]

end Network
end AgaveSdk.SchedulerHandshake
