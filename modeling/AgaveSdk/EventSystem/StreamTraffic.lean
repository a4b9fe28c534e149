import AgaveSdk.EventSystem.Publishing
import AgaveSdk.EventSystem.PublisherSlots
import AgaveSdk.Library.Memory

/-! The calls of any number of publishers of one stream, while the stream policy switches the stream
on and off. A call looks for its producer first, and the policy may act before it writes. -/
namespace AgaveSdk.EventSystem
open EventLanes FallibleState Memory Runs

variable {K N : ℕ} [NeZero K] {E W R : Type}

inductive Call (E : Type) where
  | publish (event : E)
  | publishBatch (events : List E)
  | isEnabled
  deriving DecidableEq, Repr

def Call.events : Call E → List E
  | .publish event => [event]
  | .publishBatch events => events
  | .isEnabled => []

/-- What a call does with its producer. -/
def Call.run (wincode : Wincode N E W R) (refused : Bool) :
    Call E → Comp (Lane K N) (PublishError W) Unit
  | .publish event => EventLanes.publish wincode refused event
  | .publishBatch events => EventLanes.publishBatch wincode refused events
  | .isEnabled => pure ()

/-- How far a publisher has come in a call. The number of toggles when the call began is a ghost. -/
inductive CallStage (E : Type) where
  | idle
  | begun (call : Call E) (toggles : ℕ)
  | replacing (call : Call E) (toggles : ℕ)
  | ready (call : Call E) (toggles : ℕ)
  deriving DecidableEq, Repr

/-- A publisher with the lane of its producer. -/
structure Seat (E : Type) where
  lane : Option ℕ
  stage : CallStage E
  deriving DecidableEq, Repr

/-- The publisher whose producer has a lane, and the queue. -/
structure LaneOwner where
  publisher : ℕ
  queue : ℕ
  deriving DecidableEq, Repr

/-- A lane of a queue, from when a producer gets it to when it gives it up, with the part that a
subscriber of the queue has in it. -/
structure QueueLane (K N : ℕ) (E W R : Type) extends LaneOwner where
  state : LaneState K N E W R

/-- A call that has returned, with the lane of the producer that it found. A call asks whether the
stream is enabled exactly by looking for the producer. -/
structure CallRecord (E W : Type) where
  publisher : ℕ
  call : Call E
  lane : Option ℕ
  result : Outcome (PublishError W) Unit
  begun : ℕ
  ended : ℕ

/-- What the call has sent. -/
def CallRecord.sent (r : CallRecord E W) : List E :=
  match r.lane, r.result with
  | some _, .ok () => r.call.events
  | _, _ => []

structure Traffic (K N : ℕ) (E W R : Type) where
  stream : EventStream
  seats : List (Seat E)
  lanes : List (QueueLane K N E W R)
  records : List (CallRecord E W)

inductive TrafficAction (K N : ℕ) (E : Type) where
  | applyStreamRule (rule : StreamRule) (queueCreated : Bool)
  | tryCreatePublisher (cells : Fin K → Vector UInt8 N)
  | begin (i : ℕ) (call : Call E)
  | load (i : ℕ)
  | replace (i : ℕ) (cells : Fin K → Vector UInt8 N)
  | finish (i : ℕ) (refused : Bool)
  | dropRelease (i : ℕ)
  | dropReturnSlot (i : ℕ)
  | tryRecv (l : ℕ)
  | decode (l : ℕ)

/-- A publisher without a producer has no lane. -/
def disabledLane : Lane K N := ⟨false, fun _ => Vector.replicate N 0, 0, 0⟩

namespace Traffic

def new (streamConfig : StreamConfig) : Traffic K N E W R := ⟨.new streamConfig, [], [], []⟩

/-- The queue gives a lane to a new producer, with whatever its cells hold. -/
def claim (lanes : List (QueueLane K N E W R)) (i : ℕ) (producer : Option ℕ)
    (cells : Fin K → Vector UInt8 N) : Option ℕ × List (QueueLane K N E W R) :=
  match producer with
  | some queue => (some lanes.length, lanes ++ [⟨⟨i, queue⟩, LaneState.new cells⟩])
  | none => (none, lanes)

/-- The part of a call after the producer is found. -/
def finish (wincode : Wincode N E W R) (s : Traffic K N E W R) (i : ℕ) (seat : Seat E)
    (call : Call E) (toggles : ℕ) (refused : Bool) : Option (Traffic K N E W R) :=
  let record (result : Outcome (PublishError W) Unit) : CallRecord E W :=
    ⟨i, call, seat.lane, result, toggles, s.stream.toggles⟩
  let seats := s.seats.set i { seat with stage := .idle }
  match seat.lane with
  | none =>
      let result := (exec (call.run wincode refused) (disabledLane : Lane K N)).1
      some { s with seats := seats, records := s.records ++ [record result] }
  | some l => do
      let lane ← s.lanes[l]?
      let result := (exec (call.run wincode refused) lane.state.lane).1
      let state := lane.state.call call.events (call.run wincode refused)
      return { s with
        seats := seats
        lanes := s.lanes.set l { lane with state := state }
        records := s.records ++ [record result] }

/-- The subscriber's calls on one of its lanes. -/
def receive (wincode : Wincode N E W R) (s : Traffic K N E W R) (l : ℕ) (action : LaneAction E) :
    Option (Traffic K N E W R) := do
  let lane ← s.lanes[l]?
  let state ← lane.state.step wincode action
  return { s with lanes := s.lanes.set l { lane with state := state } }

variable (accepts : ℕ → ℕ → Bool) (wincode : Wincode N E W R)

def step (s : Traffic K N E W R) : TrafficAction K N E → Option (Traffic K N E W R)
  | .applyStreamRule rule queueCreated =>
      some { s with stream := s.stream.applyStreamRule rule queueCreated }
  | .tryCreatePublisher cells => do
      let stream ← s.stream.tryCreatePublisher accepts
      let (lane, lanes) :=
        claim s.lanes s.stream.publishers.length (s.stream.createProducer accepts) cells
      return { s with stream := stream, seats := s.seats ++ [⟨lane, .idle⟩], lanes := lanes }
  | .begin i call => do
      let seat ← s.seats[i]?
      let p ← s.stream.publishers[i]?
      match p.phase, seat.stage, call with
      -- an empty batch does not look for the producer
      | .live, .idle, .publishBatch [] => some s
      | .live, .idle, call => some { s with
          seats := s.seats.set i { seat with stage := .begun call s.stream.toggles } }
      | _, _, _ => none
  | .load i => do
      let seat ← s.seats[i]?
      match seat.stage with
      | .begun call toggles =>
          match s.stream.step accepts (.publisher i .producer) with
          | some stream => some { s with
              stream := stream
              seats := s.seats.set i { seat with stage := .ready call toggles } }
          | none => do
              let stream ← s.stream.step accepts (.publisher i .replaceProducerRelease)
              return { s with
                stream := stream
                seats := s.seats.set i ⟨none, .replacing call toggles⟩ }
      | _ => none
  | .replace i cells => do
      let seat ← s.seats[i]?
      match seat.stage with
      | .replacing call toggles => do
          let stream ← s.stream.step accepts (.publisher i .replaceProducerCreate)
          let (lane, lanes) := claim s.lanes i (s.stream.createProducer accepts) cells
          return { s with
            stream := stream
            seats := s.seats.set i ⟨lane, .ready call toggles⟩
            lanes := lanes }
      | _ => none
  | .finish i refused => do
      let seat ← s.seats[i]?
      match seat.stage with
      | .ready call toggles => s.finish wincode i seat call toggles refused
      | _ => none
  | .dropRelease i => do
      let seat ← s.seats[i]?
      match seat.stage with
      | .idle => do
          let stream ← s.stream.step accepts (.publisher i .dropRelease)
          return { s with stream := stream, seats := s.seats.set i ⟨none, .idle⟩ }
      | _ => none
  | .dropReturnSlot i => do
      let stream ← s.stream.step accepts (.publisher i .dropReturnSlot)
      return { s with stream := stream }
  | .tryRecv l => s.receive wincode l .tryRecv
  | .decode l => s.receive wincode l .decode

end Traffic

/-- A lane carries the calls that found it, and the lanes of a publisher carry together what its
calls have sent, in their order. -/
structure Carries (lanes : List (QueueLane K N E W R)) (records : List (CallRecord E W)) :
    Prop where
  calls : ∀ l lane, lanes[l]? = some lane → lane.state.calls =
    (records.filter fun r => r.lane = some l).map fun r => (r.call.events, r.result)
  order : ∀ i, (lanes.flatMap fun lane => if lane.publisher = i then lane.state.sent else []) =
    records.flatMap fun r => if r.publisher = i then r.sent else []

section Lanes

variable {lanes : List (QueueLane K N E W R)} {records : List (CallRecord E W)}
  {lane : QueueLane K N E W R} {r : CallRecord E W} {l : ℕ}

omit [NeZero K]

theorem Carries.alloc (h : Carries lanes records) (owner : LaneOwner)
    (cells : Fin K → Vector UInt8 N)
    (hrecords : ∀ r ∈ records, ∀ l, r.lane = some l → l < lanes.length) :
    Carries (lanes ++ [⟨owner, LaneState.new cells⟩]) records := by
  constructor
  · intro l lane hl
    obtain hl | ⟨rfl, rfl⟩ := get_alloc hl
    · exact h.calls l lane hl
    · have hnone : (records.filter fun r => r.lane = some lanes.length) = [] := by
        rw [List.filter_eq_nil_iff]
        intro r hr heq
        exact Nat.lt_irrefl _ (hrecords r hr _ (of_decide_eq_true heq))
      rw [hnone]
      rfl
  · intro i
    have hempty : (LaneState.new cells : LaneState K N E W R).sent = [] := rfl
    rw [List.flatMap_append, h.order i]
    simp [hempty]

/-- A subscriber takes nothing away from what has been sent. -/
theorem Carries.setState (h : Carries lanes records) (hl : lanes[l]? = some lane)
    {state : LaneState K N E W R} (hcalls : state.calls = lane.state.calls) :
    Carries (lanes.set l { lane with state := state }) records := by
  have hsent : state.sent = lane.state.sent := by rw [LaneState.sent, hcalls, LaneState.sent]
  constructor
  · intro j lane' hj
    obtain ⟨rfl, rfl⟩ | ⟨-, hj⟩ := get_set hj
    · exact hcalls.trans (h.calls _ lane hl)
    · exact h.calls j lane' hj
  · intro i
    obtain ⟨l₁, l₂, rfl, -, hset⟩ := set_split hl
    rw [← h.order i, hset]
    simp only [List.flatMap_append, List.flatMap_cons, hsent]

/-- A call on the newest lane of its publisher comes after all that the publisher has sent. -/
theorem Carries.call (h : Carries lanes records) (hl : lanes[l]? = some lane)
    (hlane : r.lane = some l) (howner : lane.publisher = r.publisher)
    (hnewest : ∀ l' lane', lanes[l']? = some lane' → lane'.publisher = r.publisher → l' ≤ l)
    {state : LaneState K N E W R}
    (hcalls : state.calls = lane.state.calls ++ [(r.call.events, r.result)]) :
    Carries (lanes.set l { lane with state := state }) (records ++ [r]) := by
  have hsent : state.sent = lane.state.sent ++ r.sent := by
    rw [LaneState.sent, hcalls, List.flatMap_append, CallRecord.sent, hlane]
    cases r.result with
    | ok u => simp [LaneState.sent]
    | error e => simp [LaneState.sent]
  constructor
  · intro j lane' hj
    rw [List.filter_append, List.map_append]
    obtain ⟨rfl, rfl⟩ | ⟨hne, hj⟩ := get_set hj
    · rw [hcalls, h.calls _ lane hl]
      simp [hlane]
    · rw [h.calls j lane' hj]
      simp [hlane, hne.symm]
  · intro i
    obtain ⟨l₁, l₂, rfl, hlength, hset⟩ := set_split hl
    rw [List.flatMap_append, ← h.order i, hset]
    simp only [List.flatMap_append, List.flatMap_cons, List.flatMap_nil, List.append_nil]
    by_cases hi : r.publisher = i
    · -- The lanes after it belong to other publishers.
      have hlater : (l₂.flatMap fun lane => if lane.publisher = i then lane.state.sent else []) =
          [] := by
        rw [List.flatMap_eq_nil_iff]
        intro lane' hlane'
        rw [if_neg]
        intro hpublisher
        obtain ⟨n, hn⟩ := List.mem_iff_getElem?.mp hlane'
        have hle := hnewest (l + 1 + n) lane' (by
          rw [List.getElem?_append_right (by omega), hlength,
            show l + 1 + n - l = n + 1 by omega, List.getElem?_cons_succ, hn])
          (hpublisher.trans hi.symm)
        omega
      rw [if_pos (howner.trans hi), if_pos (howner.trans hi), if_pos hi, hsent, hlater]
      simp only [List.append_nil, List.append_assoc]
    · rw [if_neg (howner ▸ hi), if_neg (howner ▸ hi), if_neg hi, List.append_nil]

/-- A call without a lane has sent nothing. -/
theorem Carries.skip (h : Carries lanes records) (hlane : r.lane = none) :
    Carries lanes (records ++ [r]) := by
  constructor
  · intro l lane hl
    rw [h.calls l lane hl, List.filter_append]
    simp [hlane]
  · intro i
    have hsent : r.sent = [] := by rw [CallRecord.sent, hlane]
    rw [h.order i, List.flatMap_append]
    simp [hsent]

end Lanes

/-- A publisher uses one lane of a queue at most, and goes from a queue only to a later one. -/
structure Owned (publishers : List Publisher) (owners : List LaneOwner) : Prop where
  held : ∀ o ∈ owners, ∃ p, publishers[o.publisher]? = some p ∧ 2 * o.queue + 1 ≤ p.seenToggles
  ordered : owners.Pairwise fun o o' => o.publisher = o'.publisher → o.queue < o'.queue

/-- The lane that a publisher is on is the newest one it has got, and belongs to the queue of its
producer. -/
def Seated (owners : List LaneOwner) (i : ℕ) (producer : Option ℕ) : Option ℕ → Prop
  | none => producer = none
  | some l => ∃ queue, producer = some queue ∧ owners[l]? = some ⟨i, queue⟩ ∧
      ∀ (l' : ℕ) o, owners[l']? = some o → o.publisher = i → l' ≤ l

/-- What the publisher knows at this point of its call. -/
def CallStage.Fits (toggles : ℕ) (p : Publisher) : CallStage E → Prop
  | .idle => p.phase ≠ .replacing
  | .begun _ start => p.phase = .live ∧ start ≤ toggles
  | .replacing _ start => p.phase = .replacing ∧ start ≤ toggles ∧ p.seenToggles < toggles
  | .ready _ start => p.phase = .live ∧ (toggles < 2 ^ 64 → start ≤ p.seenToggles)

/-- A call found the producer for the queue that the stream had at some moment of the call, or the
stream was disabled then. -/
structure CallRecord.Inv (owners : List LaneOwner) (toggles : ℕ) (r : CallRecord E W) : Prop where
  ended_le : r.ended ≤ toggles
  owned : ∀ l, r.lane = some l → ∃ o, owners[l]? = some o ∧ o.publisher = r.publisher
  moment : toggles < 2 ^ 64 → ∃ t, r.begun ≤ t ∧ t ≤ r.ended ∧
    queueAfter t = r.lane.bind fun l => owners[l]?.map LaneOwner.queue
  disabled : r.lane = none → r.result = .ok ()

section Owners

variable {publishers publishers' : List Publisher} {owners : List LaneOwner} {o : LaneOwner}
  {p p' : Publisher} {producer lane : Option ℕ} {i queue toggles toggles' : ℕ}
  {stage : CallStage E} {r : CallRecord E W}

theorem Owned.mono (h : Owned publishers owners)
    (hgrow : ∀ (j : ℕ) (p : Publisher), publishers[j]? = some p →
      ∃ p', publishers'[j]? = some p' ∧ p.seenToggles ≤ p'.seenToggles) :
    Owned publishers' owners := by
  refine ⟨fun o ho => ?_, h.ordered⟩
  obtain ⟨p, hp, hle⟩ := h.held o ho
  obtain ⟨p', hp', hle'⟩ := hgrow _ _ hp
  exact ⟨p', hp', Nat.le_trans hle hle'⟩

theorem Owned.alloc (h : Owned publishers owners) (hp : publishers[o.publisher]? = some p)
    (hseen : 2 * o.queue + 1 ≤ p.seenToggles)
    (hbefore : ∀ o' ∈ owners, o'.publisher = o.publisher → o'.queue < o.queue) :
    Owned publishers (owners ++ [o]) := by
  constructor
  · intro o' ho'
    rcases List.mem_append.mp ho' with hold | hnew
    · exact h.held o' hold
    · obtain rfl := List.mem_singleton.mp hnew
      exact ⟨p, hp, hseen⟩
  · refine List.pairwise_append.mpr ⟨h.ordered, List.pairwise_singleton _ _, ?_⟩
    intro o' ho' o'' ho''
    obtain rfl := List.mem_singleton.mp ho''
    exact hbefore o' ho'

theorem Seated.alloc (h : Seated owners i producer lane) (hne : o.publisher ≠ i) :
    Seated (owners ++ [o]) i producer lane := by
  cases lane with
  | none => exact h
  | some l =>
    obtain ⟨queue, hproducer, howner, hnewest⟩ := h
    refine ⟨queue, hproducer, alloc_get howner, fun l' o' ho' hi => ?_⟩
    obtain ho' | ⟨-, rfl⟩ := get_alloc ho'
    · exact hnewest l' o' ho' hi
    · exact absurd hi hne

theorem seated_alloc (owners : List LaneOwner) (i queue : ℕ) :
    Seated (owners ++ [⟨i, queue⟩]) i (some queue) (some owners.length) := by
  refine ⟨queue, rfl, List.getElem?_concat_length, fun l o ho _ => ?_⟩
  have hlt := (List.getElem?_eq_some_iff.mp ho).1
  rw [List.length_append, List.length_singleton] at hlt
  omega

theorem Seated.producer_eq (h : Seated owners i producer lane) :
    producer = lane.bind fun l => owners[l]?.map LaneOwner.queue := by
  cases lane with
  | none => exact h
  | some l =>
    obtain ⟨queue, hproducer, howner, -⟩ := h
    rw [hproducer, Option.bind_some, howner, Option.map_some]

theorem Seated.owned {l : ℕ} (h : Seated owners i producer (some l)) :
    ∃ o, owners[l]? = some o ∧ o.publisher = i := by
  obtain ⟨queue, -, howner, -⟩ := h
  exact ⟨_, howner, rfl⟩

theorem CallStage.Fits.mono (h : stage.Fits toggles p) (hle : toggles ≤ toggles') :
    stage.Fits toggles' p := by
  cases stage with
  | idle => exact h
  | begun call start => exact ⟨h.1, Nat.le_trans h.2 hle⟩
  | replacing call start =>
    obtain ⟨hphase, hstart, hseen⟩ := h
    exact ⟨hphase, Nat.le_trans hstart hle, Nat.lt_of_lt_of_le hseen hle⟩
  | ready call start => exact ⟨h.1, fun hlt => h.2 (Nat.lt_of_le_of_lt hle hlt)⟩

/-- A publisher is not in a call while it is dropped. -/
theorem CallStage.Fits.idle (h : stage.Fits toggles p) (hlive : p.phase ≠ .live)
    (hreplacing : p.phase ≠ .replacing) : stage = .idle := by
  cases stage with
  | idle => rfl
  | begun call start => exact absurd h.1 hlive
  | replacing call start => exact absurd h.1 hreplacing
  | ready call start => exact absurd h.1 hlive

theorem CallRecord.Inv.mono (h : r.Inv owners toggles) (hle : toggles ≤ toggles') :
    r.Inv owners toggles' where
  ended_le := Nat.le_trans h.ended_le hle
  owned := h.owned
  moment hlt := h.moment (Nat.lt_of_le_of_lt hle hlt)
  disabled := h.disabled

theorem CallRecord.Inv.alloc (h : r.Inv owners toggles) : r.Inv (owners ++ [o]) toggles where
  ended_le := h.ended_le
  owned l hl := by
    obtain ⟨o', ho', hpublisher⟩ := h.owned l hl
    exact ⟨o', alloc_get ho', hpublisher⟩
  moment hlt := by
    obtain ⟨t, hbegun, hended, hqueue⟩ := h.moment hlt
    refine ⟨t, hbegun, hended, hqueue.trans ?_⟩
    cases hl : r.lane with
    | none => rfl
    | some l =>
      obtain ⟨o', ho', -⟩ := h.owned l hl
      simp only [Option.bind_some, ho', alloc_get ho']
  disabled := h.disabled

end Owners

end AgaveSdk.EventSystem
