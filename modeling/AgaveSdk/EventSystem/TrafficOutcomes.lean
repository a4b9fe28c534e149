import AgaveSdk.EventSystem.StreamTraffic

/-! Every run of the traffic of a stream: a call finds the producer for the queue of the stream, and
subscribers get what the calls have sent. -/
namespace AgaveSdk.EventSystem
open EventLanes FallibleState Memory Runs

variable {K N : ℕ} [NeZero K] {E W R : Type}

namespace Traffic

def owners (s : Traffic K N E W R) : List LaneOwner := s.lanes.map QueueLane.toLaneOwner

structure Inv (wincode : Wincode N E W R) (s : Traffic K N E W R) : Prop where
  stream : s.stream.Inv
  length : s.seats.length = s.stream.publishers.length
  seated : ∀ {i : ℕ} {seat : Seat E} {p : Publisher}, s.seats[i]? = some seat →
    s.stream.publishers[i]? = some p → Seated s.owners i p.producer seat.lane
  fits : ∀ {i : ℕ} {seat : Seat E} {p : Publisher}, s.seats[i]? = some seat →
    s.stream.publishers[i]? = some p → seat.stage.Fits s.stream.toggles p
  owned : Owned s.stream.publishers s.owners
  records : ∀ r ∈ s.records, r.Inv s.owners s.stream.toggles
  lanes : ∀ lane ∈ s.lanes, lane.state.Inv wincode
  carries : Carries s.lanes s.records

/-- Publisher `i` goes on in a call or comes into being. It may get a new lane for that. -/
structure Moves (i : ℕ) (s s' : Traffic K N E W R) : Prop where
  stream : s'.stream.Inv
  toggles : s'.stream.toggles = s.stream.toggles
  length : s'.seats.length = s'.stream.publishers.length
  records : s'.records = s.records
  grows : ∀ (j : ℕ) (p : Publisher), s.stream.publishers[j]? = some p →
    ∃ p', s'.stream.publishers[j]? = some p' ∧ p.seenToggles ≤ p'.seenToggles
  seats : ∀ {j : ℕ} {seat : Seat E} {p : Publisher}, s'.seats[j]? = some seat →
    s'.stream.publishers[j]? = some p →
      (j = i ∧ Seated s'.owners i p.producer seat.lane ∧ seat.stage.Fits s.stream.toggles p) ∨
      (j ≠ i ∧ s.seats[j]? = some seat ∧ s.stream.publishers[j]? = some p)
  lanes : s'.lanes = s.lanes ∨ ∃ queue cells p,
    s'.lanes = s.lanes ++ [⟨⟨i, queue⟩, LaneState.new cells⟩] ∧
      s'.stream.publishers[i]? = some p ∧ 2 * queue + 1 ≤ p.seenToggles ∧
      ∀ o ∈ s.owners, o.publisher = i → o.queue < queue

variable {accepts : ℕ → ℕ → Bool} {wincode : Wincode N E W R} {s s' : Traffic K N E W R}
  {stream : EventStream} {lane : QueueLane K N E W R} {action : PublisherAction} {p : Publisher}
  {seat : Seat E} {i l : ℕ}

omit [NeZero K] in
@[simp] theorem owners_setState (hl : s.lanes[l]? = some lane) (state : LaneState K N E W R) :
    (s.lanes.set l { lane with state := state }).map QueueLane.toLaneOwner = s.owners := by
  rw [List.map_set]
  apply set_same
  rw [List.getElem?_map, hl]
  rfl

theorem Moves.inv (h : Moves i s s') (hi : s.Inv wincode) : s'.Inv wincode := by
  have hlt : ∀ r ∈ s.records, ∀ l, r.lane = some l → l < s.lanes.length := by
    intro r hr l hl
    obtain ⟨o, ho, -⟩ := (hi.records r hr).owned l hl
    have hlt := (List.getElem?_eq_some_iff.mp ho).1
    rwa [owners, List.length_map] at hlt
  have hrest : Owned s'.stream.publishers s'.owners ∧
      (∀ r ∈ s.records, r.Inv s'.owners s.stream.toggles) ∧
      (∀ lane ∈ s'.lanes, lane.state.Inv wincode) ∧ Carries s'.lanes s.records ∧
      ∀ j producer lane, j ≠ i → Seated s.owners j producer lane →
        Seated s'.owners j producer lane := by
    rcases h.lanes with heq | ⟨queue, cells, p, heq, hp, hseen, hbefore⟩
    · have howners : s'.owners = s.owners := by rw [owners, heq, owners]
      rw [howners, heq]
      exact ⟨hi.owned.mono h.grows, hi.records, hi.lanes, hi.carries,
        fun _ _ _ _ hseated => hseated⟩
    · have howners : s'.owners = s.owners ++ [⟨i, queue⟩] := by
        rw [owners, heq, List.map_append, owners]
        rfl
      rw [howners, heq]
      refine ⟨(hi.owned.mono h.grows).alloc hp hseen hbefore, fun r hr => (hi.records r hr).alloc,
        fun lane hlane => ?_, hi.carries.alloc _ cells hlt,
        fun _ _ _ hne hseated => hseated.alloc hne.symm⟩
      rcases List.mem_append.mp hlane with hold | hnew
      · exact hi.lanes lane hold
      · rw [List.mem_singleton.mp hnew]
        exact EventLanes.new_inv cells
  obtain ⟨howned, hrecords, hlanes, hcarries, hothers⟩ := hrest
  rw [← h.records] at hrecords hcarries
  rw [← h.toggles] at hrecords
  refine ⟨h.stream, h.length, fun hseat hp => ?_, fun hseat hp => ?_, howned, hrecords, hlanes,
    hcarries⟩
  · rcases h.seats hseat hp with ⟨rfl, hseated, -⟩ | ⟨hne, hold, hp'⟩
    · exact hseated
    · exact hothers _ _ _ hne (hi.seated hold hp')
  · rw [h.toggles]
    rcases h.seats hseat hp with ⟨rfl, -, hfits⟩ | ⟨-, hold, hp'⟩
    · exact hfits
    · exact hi.fits hold hp'

theorem moves_set (hi : s.Inv wincode) (hstream : stream.Inv)
    (htoggles : stream.toggles = s.stream.toggles) {p' : Publisher} {seat' : Seat E}
    {lanes : List (QueueLane K N E W R)} (hp : s.stream.publishers[i]? = some p)
    (hpublishers : stream.publishers = s.stream.publishers.set i p')
    (hseen : p.seenToggles ≤ p'.seenToggles)
    (hseated : Seated (lanes.map QueueLane.toLaneOwner) i p'.producer seat'.lane)
    (hfits : seat'.stage.Fits s.stream.toggles p')
    (hlanes : lanes = s.lanes ∨ ∃ queue cells,
      lanes = s.lanes ++ [⟨⟨i, queue⟩, LaneState.new cells⟩] ∧ 2 * queue + 1 ≤ p'.seenToggles ∧
        ∀ o ∈ s.owners, o.publisher = i → o.queue < queue) :
    Moves i s { s with stream := stream, seats := s.seats.set i seat', lanes := lanes } := by
  have hi' : stream.publishers[i]? = some p' := by
    rw [hpublishers]
    exact set_get hp
  refine ⟨hstream, htoggles, ?_, rfl, fun j q hq => ?_, fun {j seat q} hseat hq => ?_, ?_⟩
  · rw [List.length_set, hpublishers, List.length_set, hi.length]
  · rcases eq_or_ne j i with rfl | hne
    · rw [hp, Option.some.injEq] at hq
      exact ⟨p', hi', hq ▸ hseen⟩
    · refine ⟨q, ?_, le_rfl⟩
      rw [← hq]
      simp only [hpublishers, List.getElem?_set_ne hne.symm]
  · simp only [hpublishers] at hq
    obtain ⟨rfl, rfl⟩ | ⟨hne, hseat⟩ := get_set hseat
    · obtain ⟨-, rfl⟩ | ⟨hne, -⟩ := get_set hq
      · exact .inl ⟨rfl, hseated, hfits⟩
      · exact absurd rfl hne
    · obtain ⟨rfl, -⟩ | ⟨-, hq⟩ := get_set hq
      · exact absurd rfl hne
      · exact .inr ⟨hne, hseat, hq⟩
  · rcases hlanes with heq | ⟨queue, cells, heq, hle, hbefore⟩
    · exact .inl heq
    · exact .inr ⟨queue, cells, p', heq, hi', hle, hbefore⟩

omit [NeZero K] in
/-- A producer on the current queue gets a lane after all lanes of the publisher. -/
theorem claim_spec {toggles : ℕ} {producer : Option ℕ} (hproducer : producer = queueAfter toggles)
    (hbefore : ∀ o ∈ s.owners, o.publisher = i → 2 * o.queue + 1 < toggles)
    (cells : Fin K → Vector UInt8 N) :
    Seated ((claim s.lanes i producer cells).2.map QueueLane.toLaneOwner) i producer
        (claim s.lanes i producer cells).1 ∧
      ((claim s.lanes i producer cells).2 = s.lanes ∨ ∃ queue cells',
        (claim s.lanes i producer cells).2 =
            s.lanes ++ [⟨⟨i, queue⟩, LaneState.new cells'⟩] ∧ 2 * queue + 1 ≤ toggles ∧
          ∀ o ∈ s.owners, o.publisher = i → o.queue < queue) := by
  cases producer with
  | none => exact ⟨rfl, .inl rfl⟩
  | some queue =>
    have htoggles : 2 * queue + 1 = toggles := by
      unfold queueAfter at hproducer
      split at hproducer
      · cases hproducer
        omega
      · cases hproducer
    refine ⟨?_, .inr ⟨queue, cells, rfl, Nat.le_of_eq htoggles, fun o ho hpublisher => ?_⟩⟩
    · have hseated := seated_alloc s.owners i queue
      rw [owners, List.length_map] at hseated
      rw [claim, List.map_append]
      exact hseated
    · have hlt := hbefore o ho hpublisher
      omega

theorem publisher_step {stream stream' : EventStream}
    (h : stream.step accepts (.publisher i action) = some stream') :
    ∃ p p', stream.publishers[i]? = some p ∧ p.act accepts stream action = some p' ∧
      stream'.publishers = stream.publishers.set i p' ∧ stream'.toggles = stream.toggles := by
  obtain ⟨p, hp, h⟩ := Option.bind_eq_some_iff.mp h
  obtain ⟨p', hact, h⟩ := Option.bind_eq_some_iff.mp h
  cases h
  exact ⟨p, p', hp, hact, rfl, rfl⟩

/-- A publisher's own action moves it, once its new place is known to fit. -/
theorem moves_act (hi : s.Inv wincode) (hstream : stream.Inv)
    (h : s.stream.step accepts (.publisher i action) = some stream)
    (hseat : s.seats[i]? = some seat) {seat' : Seat E}
    (hfits : ∀ p p', s.stream.publishers[i]? = some p → p.act accepts s.stream action = some p' →
      Seated s.owners i p.producer seat.lane → seat.stage.Fits s.stream.toggles p →
        p.seenToggles ≤ p'.seenToggles ∧ Seated s.owners i p'.producer seat'.lane ∧
          seat'.stage.Fits s.stream.toggles p') :
    Moves i s { s with stream := stream, seats := s.seats.set i seat' } := by
  obtain ⟨p, p', hp, hact, hpublishers, htoggles⟩ := publisher_step h
  obtain ⟨hseen, hseated, hfits⟩ :=
    hfits p p' hp hact (hi.seated hseat hp) (hi.fits hseat hp)
  exact moves_set hi hstream htoggles hp hpublishers hseen hseated hfits (.inl rfl)

omit [NeZero K] in
theorem seen_of_up_to_date (hi : s.stream.Inv) (hp : p ∈ s.stream.publishers)
    (hgeneration : s.stream.queueGeneration = p.queueGeneration)
    (hlt : s.stream.toggles < 2 ^ 64) : p.seenToggles = s.stream.toggles := by
  have hpinv := hi.publishers p hp
  have hle := hpinv.seen_le
  rw [hpinv.generation, hi.generation] at hgeneration
  have hnat := congrArg UInt64.toNat hgeneration
  rw [UInt64.toNat_ofNat', UInt64.toNat_ofNat'] at hnat
  omega

theorem applyStreamRule_toggles (stream : EventStream) (rule : StreamRule) (queueCreated : Bool) :
    stream.toggles ≤ (stream.applyStreamRule rule queueCreated).toggles ∧
      (stream.applyStreamRule rule queueCreated).publishers = stream.publishers := by
  unfold EventStream.applyStreamRule
  split
  · split
    · exact ⟨Nat.le_succ _, rfl⟩
    · exact ⟨le_rfl, rfl⟩
  · exact ⟨Nat.le_succ _, rfl⟩
  · exact ⟨le_rfl, rfl⟩
  · exact ⟨le_rfl, rfl⟩

theorem applyStreamRule_inv (hi : s.Inv wincode) (rule : StreamRule) (queueCreated : Bool) :
    Inv wincode { s with stream := s.stream.applyStreamRule rule queueCreated } := by
  obtain ⟨hle, hpublishers⟩ := applyStreamRule_toggles s.stream rule queueCreated
  refine ⟨EventSystem.applyStreamRule_inv hi.stream rule queueCreated, ?_, ?_, ?_, ?_,
    fun r hr => (hi.records r hr).mono hle, hi.lanes, hi.carries⟩
  · rw [hpublishers]
    exact hi.length
  · rw [hpublishers]
    exact hi.seated
  · rw [hpublishers]
    exact fun hseat hp => (hi.fits hseat hp).mono hle
  · rw [hpublishers]
    exact hi.owned

theorem stage_inv (hi : s.Inv wincode) (hseat : s.seats[i]? = some seat)
    (hp : s.stream.publishers[i]? = some p) {stage : CallStage E}
    (hfits : stage.Fits s.stream.toggles p) :
    Inv wincode { s with seats := s.seats.set i { seat with stage := stage } } := by
  have hmoves : Moves i s { s with seats := s.seats.set i { seat with stage := stage } } := by
    apply moves_set hi hi.stream rfl hp (set_same hp).symm le_rfl
    · show Seated s.owners i p.producer seat.lane
      exact hi.seated hseat hp
    · exact hfits
    · exact .inl rfl
  exact hmoves.inv hi

theorem load_inv (hi : s.Inv wincode) {call : Call E} {start : ℕ}
    (hseat : s.seats[i]? = some seat) (hstage : seat.stage = .begun call start)
    (hstream : stream.Inv) (h : s.stream.step accepts (.publisher i .producer) = some stream) :
    Inv wincode { s with
      stream := stream, seats := s.seats.set i { seat with stage := .ready call start } } := by
  apply Moves.inv (moves_act hi hstream h hseat ?_) hi
  intro p p' hp hact hseated hfits
  simp only [Publisher.act, Option.ite_none_right_eq_some, Option.some.injEq] at hact
  obtain ⟨⟨hlive, hgeneration⟩, rfl⟩ := hact
  rw [hstage] at hfits
  refine ⟨le_rfl, hseated, hlive, fun hlt => ?_⟩
  rw [seen_of_up_to_date hi.stream (List.mem_of_getElem? hp) hgeneration hlt]
  exact hfits.2

theorem release_inv (hi : s.Inv wincode) {call : Call E} {start : ℕ}
    (hseat : s.seats[i]? = some seat) (hstage : seat.stage = .begun call start)
    (hstream : stream.Inv)
    (h : s.stream.step accepts (.publisher i .replaceProducerRelease) = some stream) :
    Inv wincode { s with
      stream := stream, seats := s.seats.set i ⟨none, .replacing call start⟩ } := by
  apply Moves.inv (moves_act hi hstream h hseat ?_) hi
  intro p p' hp hact hseated hfits
  simp only [Publisher.act, Option.ite_none_right_eq_some, Option.some.injEq] at hact
  obtain ⟨⟨-, hgeneration⟩, rfl⟩ := hact
  rw [hstage] at hfits
  have hpinv := hi.stream.publishers p (List.mem_of_getElem? hp)
  refine ⟨le_rfl, rfl, rfl, hfits.2, Nat.lt_of_le_of_ne hpinv.seen_le fun heq => hgeneration ?_⟩
  rw [hi.stream.generation, hpinv.generation, heq]

theorem replace_inv (haccepts : ∀ slots alive, accepts slots alive = true ↔ alive < slots)
    (hi : s.Inv wincode) {call : Call E} {start : ℕ} (hseat : s.seats[i]? = some seat)
    (hstage : seat.stage = .replacing call start) (hstream : stream.Inv)
    (h : s.stream.step accepts (.publisher i .replaceProducerCreate) = some stream)
    (cells : Fin K → Vector UInt8 N) :
    Inv wincode { s with
      stream := stream
      seats := s.seats.set i
        ⟨(claim s.lanes i (s.stream.createProducer accepts) cells).1, .ready call start⟩
      lanes := (claim s.lanes i (s.stream.createProducer accepts) cells).2 } := by
  obtain ⟨p, p', hp, hact, hpublishers, htoggles⟩ := publisher_step h
  simp only [Publisher.act, Option.ite_none_right_eq_some, Option.some.injEq] at hact
  obtain ⟨hphase, rfl⟩ := hact
  have hfits := hi.fits hseat hp
  rw [hstage] at hfits
  have hproducer : s.stream.createProducer accepts = queueAfter s.stream.toggles :=
    (createProducer_of_replacing haccepts hi.stream (List.mem_of_getElem? hp) hphase).trans
      hi.stream.queue
  have hbefore : ∀ o ∈ s.owners, o.publisher = i → 2 * o.queue + 1 < s.stream.toggles := by
    rintro o ho rfl
    obtain ⟨q, hq, hle⟩ := hi.owned.held o ho
    rw [hp, Option.some.injEq] at hq
    exact Nat.lt_of_le_of_lt (hq ▸ hle) hfits.2.2
  obtain ⟨hseated, hlanes⟩ := claim_spec hproducer hbefore cells
  have hready : CallStage.Fits s.stream.toggles ⟨s.stream.queueGeneration,
      s.stream.createProducer accepts, .live, s.stream.toggles⟩ (.ready call start) :=
    ⟨rfl, fun _ => hfits.2.1⟩
  exact (moves_set hi hstream htoggles hp hpublishers (Nat.le_of_lt hfits.2.2) hseated hready
    hlanes).inv hi

theorem tryCreatePublisher_inv
    (haccepts : ∀ slots alive, accepts slots alive = true ↔ alive < slots) (hi : s.Inv wincode)
    (h : s.stream.tryCreatePublisher accepts = some stream) (cells : Fin K → Vector UInt8 N) :
    Inv wincode { s with
      stream := stream
      seats := s.seats ++ [⟨(claim s.lanes s.stream.publishers.length
        (s.stream.createProducer accepts) cells).1, .idle⟩]
      lanes := (claim s.lanes s.stream.publishers.length
        (s.stream.createProducer accepts) cells).2 } := by
  have hstream := EventSystem.tryCreatePublisher_inv haccepts hi.stream h
  unfold EventStream.tryCreatePublisher at h
  split at h
  · cases h
  · next hslot =>
    cases h
    have hproducer : s.stream.createProducer accepts = queueAfter s.stream.toggles :=
      (createProducer_of_slot haccepts hi.stream (by omega)).trans hi.stream.queue
    have hbefore : ∀ o ∈ s.owners, o.publisher = s.stream.publishers.length →
        2 * o.queue + 1 < s.stream.toggles := by
      intro o ho hpublisher
      obtain ⟨q, hq, -⟩ := hi.owned.held o ho
      rw [hpublisher, List.getElem?_eq_none le_rfl] at hq
      cases hq
    obtain ⟨hseated, hlanes⟩ := claim_spec hproducer hbefore cells
    have hnew := List.getElem?_concat_length (l := s.stream.publishers) (a := (⟨
      s.stream.queueGeneration, s.stream.createProducer accepts, .live, s.stream.toggles⟩ :
        Publisher))
    apply Moves.inv (i := s.stream.publishers.length) ?_ hi
    refine ⟨hstream, rfl, ?_, rfl, fun j q hq => ⟨q, alloc_get hq, le_rfl⟩,
      fun {j seat q} hseat hq => ?_, ?_⟩
    · simp only [List.length_append, List.length_singleton, hi.length]
    · obtain hold | ⟨rfl, rfl⟩ := get_alloc hseat
      · obtain hq | ⟨rfl, -⟩ := get_alloc hq
        · have hlt := (List.getElem?_eq_some_iff.mp hq).1
          exact .inr ⟨Nat.ne_of_lt hlt, hold, hq⟩
        · rw [← hi.length, List.getElem?_eq_none le_rfl] at hold
          cases hold
      · rw [hi.length, hnew] at hq
        cases hq
        refine .inl ⟨hi.length, hseated, ?_⟩
        show Phase.live ≠ .replacing
        decide
    · rcases hlanes with heq | ⟨queue, cells', heq, hle, hbefore'⟩
      · exact .inl heq
      · exact .inr ⟨queue, cells', _, heq, hnew, hle, hbefore'⟩

theorem drop_inv (hi : s.Inv wincode) (hseat : s.seats[i]? = some seat)
    (hstream : stream.Inv)
    (h : s.stream.step accepts (.publisher i .dropRelease) = some stream) :
    Inv wincode { s with stream := stream, seats := s.seats.set i ⟨none, .idle⟩ } := by
  apply Moves.inv (moves_act hi hstream h hseat ?_) hi
  intro p p' hp hact hseated hfits
  simp only [Publisher.act, Option.ite_none_right_eq_some, Option.some.injEq] at hact
  obtain ⟨-, rfl⟩ := hact
  refine ⟨le_rfl, rfl, ?_⟩
  show Phase.dropping ≠ .replacing
  decide

theorem returnSlot_inv (hi : s.Inv wincode) (hstream : stream.Inv)
    (h : s.stream.step accepts (.publisher i .dropReturnSlot) = some stream) :
    Inv wincode { s with stream := stream } := by
  obtain ⟨p, -, hp, -⟩ := publisher_step h
  obtain ⟨seat, hseat⟩ : ∃ seat, s.seats[i]? = some seat := by
    have hlt := (List.getElem?_eq_some_iff.mp hp).1
    rw [← hi.length] at hlt
    exact ⟨_, List.getElem?_eq_getElem hlt⟩
  have hmoves : Moves i s { s with stream := stream, seats := s.seats.set i seat } := by
    apply moves_act hi hstream h hseat
    intro p p' hp hact hseated hfits
    simp only [Publisher.act, Option.ite_none_right_eq_some, Option.some.injEq] at hact
    obtain ⟨hphase, rfl⟩ := hact
    rw [hfits.idle (by rw [hphase]; decide) (by rw [hphase]; decide)]
    refine ⟨le_rfl, hseated, ?_⟩
    show Phase.dropped ≠ .replacing
    decide
  rw [set_same hseat] at hmoves
  exact hmoves.inv hi

theorem call_inv {state : LaneState K N E W R} (hwincode : wincode.Documented)
    (hinv : state.Inv wincode) (call : Call E) (refused : Bool) :
    (state.call call.events (call.run wincode refused)).Inv wincode := by
  cases call with
  | publish event =>
    rw [Call.run, publish_eq]
    exact call_publishBatch_inv hwincode hinv refused [event]
  | publishBatch events => exact call_publishBatch_inv hwincode hinv refused events
  | isEnabled =>
    -- like an empty batch
    exact call_publishBatch_inv hwincode hinv refused []

/-- Without a producer a call returns and does nothing. -/
theorem exec_disabled (wincode : Wincode N E W R) (call : Call E) (refused : Bool) :
    exec (call.run wincode refused) (disabledLane : Lane K N) = (.ok (), disabledLane) := by
  cases call with
  | publish event => rfl
  | publishBatch events =>
    rw [Call.run, EventLanes.publishBatch]
    split
    · rfl
    · rfl
  | isEnabled => rfl

omit [NeZero K] in
/-- A call that ends now has found the producer that its publisher made for the toggles it saw. -/
theorem record_inv {r : CallRecord E W}
    (hseated : Seated s.owners r.publisher p.producer r.lane)
    (hproducer : p.producer = queueAfter p.seenToggles) (hseen : p.seenToggles ≤ s.stream.toggles)
    (hstart : s.stream.toggles < 2 ^ 64 → r.begun ≤ p.seenToggles)
    (hended : r.ended = s.stream.toggles) (hdisabled : r.lane = none → r.result = .ok ()) :
    r.Inv s.owners s.stream.toggles where
  ended_le := Nat.le_of_eq hended
  owned l hl := by
    rw [hl] at hseated
    exact hseated.owned
  moment hlt :=
    ⟨p.seenToggles, hstart hlt, hended ▸ hseen, hproducer.symm.trans hseated.producer_eq⟩
  disabled := hdisabled

theorem finish_inv (hwincode : wincode.Documented) (hi : s.Inv wincode) {call : Call E}
    {start : ℕ} {refused : Bool} (hseat : s.seats[i]? = some seat)
    (hstage : seat.stage = .ready call start)
    (h : s.finish wincode i seat call start refused = some s') : s'.Inv wincode := by
  obtain ⟨p, hp⟩ : ∃ p, s.stream.publishers[i]? = some p := by
    have hlt := (List.getElem?_eq_some_iff.mp hseat).1
    rw [hi.length] at hlt
    exact ⟨_, List.getElem?_eq_getElem hlt⟩
  have hfits := hi.fits hseat hp
  have hseated := hi.seated hseat hp
  rw [hstage] at hfits
  obtain ⟨hlive, hstart⟩ := hfits
  have hpinv := hi.stream.publishers p (List.mem_of_getElem? hp)
  have hproducer : p.producer = queueAfter p.seenToggles := hpinv.producer.trans (if_pos hlive)
  have hstay : CallStage.Fits (E := E) s.stream.toggles p .idle := by
    show p.phase ≠ .replacing
    rw [hlive]
    decide
  have hidle := stage_inv hi hseat hp hstay
  unfold finish at h
  split at h
  · next hlane =>
    cases h
    refine { hidle with records := fun r hr => ?_, carries := hi.carries.skip hlane }
    rcases List.mem_append.mp hr with hold | hnew
    · exact hi.records r hold
    · obtain rfl := List.mem_singleton.mp hnew
      exact record_inv hseated hproducer hpinv.seen_le hstart rfl fun _ => by rw [exec_disabled]
  · next l hlane =>
    obtain ⟨queue, -, howner, hnewest⟩ : Seated s.owners i p.producer (some l) := hlane ▸ hseated
    obtain ⟨lane, hl, h⟩ := Option.bind_eq_some_iff.mp h
    have hstate := owners_setState hl (lane.state.call call.events (call.run wincode refused))
    have howned : lane.toLaneOwner = ⟨i, queue⟩ := by
      rw [owners, List.getElem?_map, hl] at howner
      exact Option.some.inj howner
    let r : CallRecord E W := ⟨i, call, seat.lane,
      (exec (call.run wincode refused) lane.state.lane).1, start, s.stream.toggles⟩
    have hcalls : (lane.state.call call.events (call.run wincode refused)).calls =
      lane.state.calls ++ [(r.call.events, r.result)] := rfl
    have hlast (l' : ℕ) (lane' : QueueLane K N E W R) (hl' : s.lanes[l']? = some lane')
        (hpublisher : lane'.publisher = r.publisher) : l' ≤ l := by
      apply hnewest l' lane'.toLaneOwner _ hpublisher
      rw [owners, List.getElem?_map, hl']
      rfl
    have hcarries := hi.carries.call hl hlane (congrArg LaneOwner.publisher howned) hlast hcalls
    cases h
    refine ⟨hi.stream, hidle.length, ?_, ?_, ?_, fun r hr => ?_, fun lane' hlane' => ?_, hcarries⟩
    · rw [owners, hstate]
      exact hidle.seated
    · exact hidle.fits
    · rw [owners, hstate]
      exact hi.owned
    · rw [owners, hstate]
      rcases List.mem_append.mp hr with hold | hnew
      · exact hi.records r hold
      · obtain rfl := List.mem_singleton.mp hnew
        refine record_inv hseated hproducer hpinv.seen_le hstart rfl fun hnone => ?_
        rw [hlane] at hnone
        cases hnone
    · rcases List.mem_or_eq_of_mem_set hlane' with hold | rfl
      · exact hi.lanes lane' hold
      · exact call_inv hwincode (hi.lanes lane (List.mem_of_getElem? hl)) call refused

theorem receive_calls {state state' : LaneState K N E W R} {action : LaneAction E}
    (haction : action = .tryRecv ∨ action = .decode) (h : state.step wincode action = some state') :
    state'.calls = state.calls := by
  rcases haction with rfl | rfl
  · simp only [LaneState.step] at h
    split at h
    · cases h
    · split at h
      · cases h
        rfl
      · cases h
        rfl
  · obtain ⟨message, -, h⟩ := Option.bind_eq_some_iff.mp h
    cases h
    rfl

theorem receive_inv (hwincode : wincode.Documented) (hi : s.Inv wincode) {action : LaneAction E}
    (haction : action = .tryRecv ∨ action = .decode)
    (h : s.receive wincode l action = some s') : s'.Inv wincode := by
  obtain ⟨lane, hl, h⟩ := Option.bind_eq_some_iff.mp h
  obtain ⟨state, hstep, h⟩ := Option.bind_eq_some_iff.mp h
  cases h
  have hstate := owners_setState hl state
  refine ⟨hi.stream, hi.length, ?_, hi.fits, ?_, ?_, fun lane' hlane' => ?_,
    hi.carries.setState hl (receive_calls haction hstep)⟩
  · rw [owners, hstate]
    exact hi.seated
  · rw [owners, hstate]
    exact hi.owned
  · rw [owners, hstate]
    exact hi.records
  · rcases List.mem_or_eq_of_mem_set hlane' with hold | rfl
    · exact hi.lanes lane' hold
    · exact EventLanes.step_inv hwincode hstep (hi.lanes lane (List.mem_of_getElem? hl))

/-- Every step keeps the invariant. -/
theorem step_inv (haccepts : ∀ slots alive, accepts slots alive = true ↔ alive < slots)
    (hwincode : wincode.Documented) {a : TrafficAction K N E}
    (h : s.step accepts wincode a = some s') (hi : s.Inv wincode) : s'.Inv wincode := by
  have hstream {action : PublisherAction} {i : ℕ} {stream : EventStream}
      (hstep : s.stream.step accepts (.publisher i action) = some stream) : stream.Inv :=
    EventSystem.step_inv haccepts hstep hi.stream
  cases a with
  | applyStreamRule rule queueCreated =>
    cases h
    exact applyStreamRule_inv hi rule queueCreated
  | tryCreatePublisher cells =>
    obtain ⟨stream, hstep, h⟩ := Option.bind_eq_some_iff.mp h
    cases h
    exact tryCreatePublisher_inv haccepts hi hstep cells
  | begin i call =>
    obtain ⟨seat, hseat, h⟩ := Option.bind_eq_some_iff.mp h
    obtain ⟨p, hp, h⟩ := Option.bind_eq_some_iff.mp h
    split at h
    · cases h
      exact hi
    · next hlive _ _ _ _ =>
      cases h
      exact stage_inv hi hseat hp ⟨hlive, le_rfl⟩
    · cases h
  | load i =>
    obtain ⟨seat, hseat, h⟩ := Option.bind_eq_some_iff.mp h
    split at h
    · next call start hstage =>
      split at h
      · next stream hstep =>
        cases h
        exact load_inv hi hseat hstage (hstream hstep) hstep
      · obtain ⟨stream, hstep, h⟩ := Option.bind_eq_some_iff.mp h
        cases h
        exact release_inv hi hseat hstage (hstream hstep) hstep
    · cases h
  | replace i cells =>
    obtain ⟨seat, hseat, h⟩ := Option.bind_eq_some_iff.mp h
    split at h
    · next call start hstage =>
      obtain ⟨stream, hstep, h⟩ := Option.bind_eq_some_iff.mp h
      cases h
      exact replace_inv haccepts hi hseat hstage (hstream hstep) hstep cells
    · cases h
  | finish i refused =>
    obtain ⟨seat, hseat, h⟩ := Option.bind_eq_some_iff.mp h
    split at h
    · next call start hstage => exact finish_inv hwincode hi hseat hstage h
    · cases h
  | dropRelease i =>
    obtain ⟨seat, hseat, h⟩ := Option.bind_eq_some_iff.mp h
    split at h
    · obtain ⟨stream, hstep, h⟩ := Option.bind_eq_some_iff.mp h
      cases h
      exact drop_inv hi hseat (hstream hstep) hstep
    · cases h
  | dropReturnSlot i =>
    obtain ⟨stream, hstep, h⟩ := Option.bind_eq_some_iff.mp h
    cases h
    exact returnSlot_inv hi (hstream hstep) hstep
  | tryRecv l => exact receive_inv hwincode hi (.inl rfl) h
  | decode l => exact receive_inv hwincode hi (.inr rfl) h

theorem new_inv (wincode : Wincode N E W R) (streamConfig : StreamConfig) :
    (new streamConfig : Traffic K N E W R).Inv wincode where
  stream := EventSystem.new_inv streamConfig
  length := rfl
  seated hseat := by cases hseat
  fits hseat := by cases hseat
  owned := ⟨fun o ho => absurd ho List.not_mem_nil, List.Pairwise.nil⟩
  records r hr := absurd hr List.not_mem_nil
  lanes lane hlane := absurd hlane List.not_mem_nil
  carries :=
    { calls := fun l lane hl => by simp [new] at hl
      order := fun _ => rfl }

end Traffic

section Outcomes

variable {accepts : ℕ → ℕ → Bool} {wincode : Wincode N E W R} {s : Traffic K N E W R}

/-- A call finds a producer of its publisher, on the queue that the stream has at some moment of the
call, or it finds none when the stream has no queue then, returns `Ok` and sends nothing. -/
theorem calls_follow_policy (haccepts : ∀ slots alive, accepts slots alive = true ↔ alive < slots)
    (hwincode : wincode.Documented) (streamConfig : StreamConfig)
    {actions : List (TrafficAction K N E)}
    (h : run (Traffic.step accepts wincode) (Traffic.new streamConfig) actions = some s)
    (htoggles : s.stream.toggles < 2 ^ 64) :
    s.stream.queue = queueAfter s.stream.toggles ∧
      ∀ r ∈ s.records, r.ended ≤ s.stream.toggles ∧
        (r.lane = none → r.result = .ok () ∧ r.sent = []) ∧
        (∀ l, r.lane = some l → ∃ lane, s.lanes[l]? = some lane ∧
          lane.publisher = r.publisher) ∧
        ∃ t, r.begun ≤ t ∧ t ≤ r.ended ∧
          queueAfter t = r.lane.bind fun l => s.lanes[l]?.map fun lane => lane.queue := by
  have hi : s.Inv wincode := run_invariant (Traffic.Inv wincode)
    (Traffic.step_inv haccepts hwincode) h (Traffic.new_inv wincode streamConfig)
  refine ⟨hi.stream.queue, fun r hr => ?_⟩
  have hrecord := hi.records r hr
  obtain ⟨t, hbegun, hended, hqueue⟩ := hrecord.moment htoggles
  refine ⟨hrecord.ended_le, fun hnone => ⟨hrecord.disabled hnone, ?_⟩, fun l hl => ?_, t, hbegun,
    hended, hqueue.trans ?_⟩
  · rw [CallRecord.sent, hnone]
  · obtain ⟨o, ho, hpublisher⟩ := hrecord.owned l hl
    rw [Traffic.owners, List.getElem?_map, Option.map_eq_some_iff] at ho
    obtain ⟨lane, hlane, rfl⟩ := ho
    exact ⟨lane, hlane, hpublisher⟩
  · simp only [Traffic.owners, List.getElem?_map, Option.map_map, Function.comp_def]

/-- A lane carries exactly the calls that found it, and its subscriber decodes what these have
sent. -/
theorem received_of_inv {state : LaneState K N E W R} (hinv : state.Inv wincode) :
    state.received = (state.sent.take state.received.length).map .ok ∧
      (tryRecv state.lane = .error .empty → state.received = state.sent.map .ok) := by
  have hle : state.lane.released ≤ state.sent.length := hinv.published_eq ▸ hinv.released_le
  have hlength : state.received.length = state.lane.released := by
    rw [hinv.received_eq, List.length_map, List.length_take, Nat.min_eq_left hle]
  rw [hlength]
  refine ⟨hinv.received_eq, fun hempty => ?_⟩
  have hall : state.sent.length ≤ state.lane.released := by
    by_contra hlt
    rw [tryRecv, hinv.published_eq, if_pos (by omega)] at hempty
    cases hempty
  rw [hinv.received_eq, List.take_of_length_le hall]

/-- A subscriber that goes through the lanes of a publisher gets the events of the calls that found
a producer and returned `Ok`, in the order of the calls. Those that found the stream disabled return
`Ok` as well and are on no lane. -/
theorem subscribers_get_calls
    (haccepts : ∀ slots alive, accepts slots alive = true ↔ alive < slots)
    (hwincode : wincode.Documented) (streamConfig : StreamConfig)
    {actions : List (TrafficAction K N E)}
    (h : run (Traffic.step accepts wincode) (Traffic.new streamConfig) actions = some s) :
    (s.lanes.Pairwise fun lane lane' => lane.publisher = lane'.publisher →
      lane.queue < lane'.queue) ∧
    (∀ lane ∈ s.lanes, lane.state.received =
      (lane.state.sent.take lane.state.received.length).map .ok) ∧
    (∀ l lane, s.lanes[l]? = some lane → lane.state.calls =
      (s.records.filter fun r => r.lane = some l).map fun r => (r.call.events, r.result)) ∧
    ∀ i, (∀ lane ∈ s.lanes, lane.publisher = i → tryRecv lane.state.lane = .error .empty) →
      (s.lanes.flatMap fun lane => if lane.publisher = i then lane.state.received else []) =
        (s.records.flatMap fun r => if r.publisher = i then r.sent else []).map .ok := by
  have hi : s.Inv wincode := run_invariant (Traffic.Inv wincode)
    (Traffic.step_inv haccepts hwincode) h (Traffic.new_inv wincode streamConfig)
  have hordered := hi.owned.ordered
  rw [Traffic.owners, List.pairwise_map] at hordered
  refine ⟨hordered, fun lane hlane => (received_of_inv (hi.lanes lane hlane)).1,
    hi.carries.calls, fun i hempty => ?_⟩
  rw [← hi.carries.order i, List.map_flatMap]
  apply List.flatMap_congr
  intro lane hlane
  by_cases hpublisher : lane.publisher = i
  · rw [if_pos hpublisher, if_pos hpublisher]
    exact (received_of_inv (hi.lanes lane hlane)).2 (hempty lane hlane hpublisher)
  · rw [if_neg hpublisher, if_neg hpublisher]
    rfl

/-- A publisher sends, finds the stream disabled, and sends again on the next queue. -/
def trafficActions : List (TrafficAction 2 16 BoundedEvent) :=
  let cells : Fin 2 → Vector UInt8 16 := fun _ => Vector.replicate 16 255
  [.applyStreamRule .on true, .tryCreatePublisher cells,
    .begin 0 (.publish (fittingEvent 7)), .load 0, .finish 0 false,
    .applyStreamRule .off true,
    .begin 0 (.publish (fittingEvent 8)), .load 0, .replace 0 cells, .finish 0 false,
    .begin 0 (.publishBatch [fittingEvent 9]), .load 0,
    .applyStreamRule .on true, .finish 0 false,
    .begin 0 (.publishBatch [fittingEvent 10]), .load 0, .replace 0 cells, .finish 0 false,
    .tryRecv 0, .decode 0, .tryRecv 1, .decode 1]

theorem traffic_follows_policy : ∃ s,
    run (Traffic.step (fun slots alive => alive < slots) boundedWincode)
        (Traffic.new ⟨1, by decide⟩) trafficActions = some s ∧
      s.records.map CallRecord.lane = [some 0, none, none, some 1] ∧
      ∀ r ∈ s.records, (r.lane = none → r.result = .ok () ∧ r.sent = []) ∧
        ∃ t, r.begun ≤ t ∧ t ≤ r.ended ∧
          queueAfter t = r.lane.bind fun l => s.lanes[l]?.map fun lane => lane.queue := by
  have hrun : (run (Traffic.step (fun slots alive => alive < slots) boundedWincode)
      (Traffic.new ⟨1, by decide⟩) trafficActions).map (fun s =>
        (s.records.map CallRecord.lane, s.stream.toggles)) =
      some ([some 0, none, none, some 1], 3) := by
    decide +kernel
  obtain ⟨s, h, heq⟩ := Option.map_eq_some_iff.mp hrun
  obtain ⟨hlanes, htoggles⟩ := Prod.mk.inj heq
  have hcalls := (calls_follow_policy (fun _ _ => decide_eq_true_iff) boundedWincode_documented _ h
    (by rw [htoggles]; decide)).2
  exact ⟨s, h, hlanes, fun r hr => ⟨(hcalls r hr).2.1, (hcalls r hr).2.2.2⟩⟩

theorem traffic_is_received : ∃ s,
    run (Traffic.step (fun slots alive => alive < slots) boundedWincode)
        (Traffic.new ⟨1, by decide⟩) trafficActions = some s ∧
      (s.lanes.flatMap fun lane => if lane.publisher = 0 then lane.state.received else []) =
        [.ok (fittingEvent 7), .ok (fittingEvent 10)] := by
  have hrun : (run (Traffic.step (fun slots alive => alive < slots) boundedWincode)
      (Traffic.new ⟨1, by decide⟩) trafficActions).map (fun s =>
        (s.lanes.all fun lane => tryRecv lane.state.lane = .error .empty,
          s.records.flatMap fun r => if r.publisher = 0 then r.sent else [])) =
      some (true, [fittingEvent 7, fittingEvent 10]) := by
    decide +kernel
  obtain ⟨s, h, heq⟩ := Option.map_eq_some_iff.mp hrun
  obtain ⟨hempty, hsent⟩ := Prod.mk.inj heq
  obtain ⟨-, -, -, hall⟩ :=
    subscribers_get_calls (fun _ _ => decide_eq_true_iff) boundedWincode_documented _ h
  refine ⟨s, h, (hall 0 fun lane hlane _ => ?_).trans (by rw [hsent]; rfl)⟩
  exact of_decide_eq_true (List.all_eq_true.mp hempty lane hlane)

end Outcomes

end AgaveSdk.EventSystem
