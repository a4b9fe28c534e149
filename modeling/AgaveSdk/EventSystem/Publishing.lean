import AgaveSdk.Library.ByteOrder
import AgaveSdk.Library.CellRing
import AgaveSdk.Library.FallibleState
import AgaveSdk.Library.Runs

/-! Publishing on one lane of a stream and receiving from it. Events are serialized straight into
the shared cells, whose bytes stay when a call fails, and become visible when the call publishes. -/
namespace AgaveSdk.EventLanes
open FallibleState CellRing Runs ByteOrder

variable {K N : ℕ} [NeZero K] {E W R : Type}

/-- The calls of `wincode` on events of type `E` and cells of `N` bytes, with its write errors `W`
and read errors `R`. -/
structure Wincode (N : ℕ) (E W R : Type) where
  encoding : E → List UInt8
  serializeInto : Vector UInt8 N → E → Vector UInt8 N × Except W Unit
  deserialize : List UInt8 → Except R E

/-- Serializing writes the encoding at the front of the cell or fails, whatever it leaves there
then, and deserializing an encoding ignores what follows it. -/
structure Wincode.Documented (wincode : Wincode N E W R) : Prop where
  serialize_front : ∀ cell event, (wincode.serializeInto cell event).2 = .ok () →
    wincode.encoding event <+: (wincode.serializeInto cell event).1.toList
  deserialize_encoding : ∀ event rest,
    wincode.deserialize (wincode.encoding event ++ rest) = .ok event

inductive PublishError (W : Type)
  | serialization (error : W)
  | failedToSend
deriving DecidableEq, Repr

inductive TryRecvError
  | empty
deriving DecidableEq, Repr

/-- The lane of a producer. The counters say how many cells have become visible and how many the
subscriber has released. -/
structure Lane (K N : ℕ) where
  /-- The publisher has a producer on the stream's queue. -/
  enabled : Bool
  cells : Fin K → Vector UInt8 N
  published : ℕ
  released : ℕ

structure WriteGuard where
  start : ℕ
  count : ℕ

def Lane.cell (lane : Lane K N) (i : ℕ) : Vector UInt8 N := CellRing.cell lane.cells i

def Lane.setCell (lane : Lane K N) (i : ℕ) (bytes : Vector UInt8 N) : Lane K N :=
  { lane with cells := CellRing.setCell lane.cells i bytes }

def producer : Comp (Lane K N) (PublishError W) Bool := do
  return (← get).enabled

/-- The next cells of the lane. The queue may refuse them even when they are free. -/
def tryReserveWriteBatch (refused : Bool) (count : ℕ) :
    Comp (Lane K N) (PublishError W) (Option WriteGuard) := do
  let lane ← get
  if refused ∨ lane.released + K < lane.published + count then
    return none
  else
    return some ⟨lane.published, count⟩

def tryReserveWrite (refused : Bool) : Comp (Lane K N) (PublishError W) (Option WriteGuard) :=
  tryReserveWriteBatch refused 1

def WriteGuard.publish (writeGuard : WriteGuard) : Comp (Lane K N) (PublishError W) Unit :=
  modify fun lane => { lane with published := writeGuard.start + writeGuard.count }

/-- The bytes that `wincode` leaves stay in the cell, also when it fails. -/
def serializeInto (wincode : Wincode N E W R) (i : ℕ) (event : E) :
    Comp (Lane K N) (PublishError W) Unit := do
  let lane ← get
  let (bytes, result) := wincode.serializeInto (lane.cell i) event
  modify fun lane => lane.setCell i bytes
  match result with
  | .ok () => pure ()
  | .error error => throw (.err (.serialization error))

def publish (wincode : Wincode N E W R) (refused : Bool) (event : E) :
    Comp (Lane K N) (PublishError W) Unit := do
  if ← producer then
    let writeGuard ← ofOutcome (okOr (← tryReserveWrite refused) .failedToSend)
    -- A failure drops the guard, which publishes nothing.
    serializeInto wincode writeGuard.start event
    writeGuard.publish

/-- The loop of `publish_batch`, from the cell `i` on. -/
def serializeEvents (wincode : Wincode N E W R) (i : ℕ) :
    List E → Comp (Lane K N) (PublishError W) Unit
  | [] => pure ()
  | event :: events => do
    serializeInto wincode i event
    serializeEvents wincode (i + 1) events

def publishBatch (wincode : Wincode N E W R) (refused : Bool) (events : List E) :
    Comp (Lane K N) (PublishError W) Unit := do
  if events.length ≠ 0 then
    if ← producer then
      let writeGuard ←
        ofOutcome (okOr (← tryReserveWriteBatch refused events.length) .failedToSend)
      serializeEvents wincode writeGuard.start events
      writeGuard.publish

/-- A message borrows its cell until it is dropped. -/
structure StreamMessage where
  index : ℕ
deriving DecidableEq, Repr

def tryRecv (lane : Lane K N) : Except TryRecvError StreamMessage :=
  if lane.released < lane.published then .ok ⟨lane.released⟩ else .error .empty

def StreamMessage.payload (message : StreamMessage) (lane : Lane K N) : List UInt8 :=
  (lane.cell message.index).toList

def StreamMessage.decode (wincode : Wincode N E W R) (message : StreamMessage)
    (lane : Lane K N) : Except R E :=
  wincode.deserialize (message.payload lane)

/-- The lane with what its publisher and its subscriber have seen: the calls with their results,
the message that is held, and what the messages before it decoded to. -/
structure LaneState (K N : ℕ) (E W R : Type) where
  lane : Lane K N
  calls : List (List E × Outcome (PublishError W) Unit)
  message : Option StreamMessage
  received : List (Except R E)

inductive LaneAction (E : Type)
  | publish (event : E) (refused : Bool)
  | publishBatch (events : List E) (refused : Bool)
  | tryRecv
  /-- Decodes the message that is held and drops it. -/
  | decode
deriving DecidableEq, Repr

/-- An enabled stream, whose cells may hold anything. -/
def LaneState.new (cells : Fin K → Vector UInt8 N) : LaneState K N E W R where
  lane := ⟨true, cells, 0, 0⟩
  calls := []
  message := none
  received := []

def LaneState.call (s : LaneState K N E W R) (events : List E)
    (x : Comp (Lane K N) (PublishError W) Unit) : LaneState K N E W R :=
  { s with lane := (exec x s.lane).2, calls := s.calls ++ [(events, (exec x s.lane).1)] }

def LaneState.step (wincode : Wincode N E W R) (s : LaneState K N E W R) :
    LaneAction E → Option (LaneState K N E W R)
  | .publish event refused => some (s.call [event] (publish wincode refused event))
  | .publishBatch events refused => some (s.call events (publishBatch wincode refused events))
  | .tryRecv =>
    match s.message with
    | some _ => none
    | none => match tryRecv s.lane with
      | .ok message => some { s with message := some message }
      | .error .empty => some s
  | .decode => do
    let message ← s.message
    return { s with
      lane := { s.lane with released := message.index + 1 }
      message := none
      received := s.received ++ [message.decode wincode s.lane] }

/-- The events of the calls that returned `Ok`. -/
def LaneState.sent (s : LaneState K N E W R) : List E :=
  s.calls.flatMap fun (events, result) =>
    match result with
    | .ok () => events
    | .error _ => []

variable {wincode : Wincode N E W R} {lane : Lane K N} {refused : Bool} {events : List E}
  {bytes : Vector UInt8 N} {i j start : ℕ}

@[simp] theorem Lane.setCell_released : (lane.setCell i bytes).released = lane.released := rfl

@[simp] theorem Lane.cell_setCell_self : (lane.setCell i bytes).cell i = bytes :=
  CellRing.cell_setCell_self

theorem Lane.cell_setCell_of_lt (hlt : i < j) (hwindow : j < i + K) :
    (lane.setCell j bytes).cell i = lane.cell i :=
  CellRing.cell_setCell_of_lt hlt hwindow

/-- The counters and the cells from the released ones to `stop` are as they were. -/
structure KeepsBefore (stop : ℕ) (lane lane' : Lane K N) : Prop where
  enabled : lane'.enabled = lane.enabled
  published : lane'.published = lane.published
  released : lane'.released = lane.released
  cell : ∀ i, lane.released ≤ i → i < stop → lane'.cell i = lane.cell i

theorem KeepsBefore.refl (stop : ℕ) (lane : Lane K N) : KeepsBefore stop lane lane :=
  ⟨rfl, rfl, rfl, fun _ _ _ => rfl⟩

theorem KeepsBefore.trans {stop : ℕ} {lane' lane'' : Lane K N} (h : KeepsBefore stop lane lane')
    (h' : KeepsBefore stop lane' lane'') : KeepsBefore stop lane lane'' where
  enabled := h'.enabled.trans h.enabled
  published := h'.published.trans h.published
  released := h'.released.trans h.released
  cell i hi hlt := (h'.cell i (h.released ▸ hi) hlt).trans (h.cell i hi hlt)

theorem KeepsBefore.mono {stop stop' : ℕ} {lane' : Lane K N} (h : KeepsBefore stop' lane lane')
    (hle : stop ≤ stop') : KeepsBefore stop lane lane' :=
  ⟨h.enabled, h.published, h.released, fun i hi hlt => h.cell i hi (Nat.lt_of_lt_of_le hlt hle)⟩

theorem keepsBefore_setCell (hwindow : start < lane.released + K) :
    KeepsBefore start lane (lane.setCell start bytes) where
  enabled := rfl
  published := rfl
  released := rfl
  cell i hi hlt := Lane.cell_setCell_of_lt hlt (by omega)

/-- The events stand encoded in the cells from `start` on. -/
def Holds (wincode : Wincode N E W R) (lane : Lane K N) (start : ℕ) (events : List E) : Prop :=
  ∀ k event, events[k]? = some event →
    wincode.encoding event <+: (lane.cell (start + k)).toList

theorem exec_serializeInto (event : E) : exec (serializeInto wincode i event) lane =
    (match (wincode.serializeInto (lane.cell i) event).2 with
      | .ok () => .ok ()
      | .error error => .error (.err (.serialization error)),
      lane.setCell i (wincode.serializeInto (lane.cell i) event).1) := by
  simp only [serializeInto, exec_bind, exec_get, exec_modify]
  cases (wincode.serializeInto (lane.cell i) event).2 with
  | ok u => rfl
  | error error => rfl

/-- The loop of a batch fills the reserved cells or fails, and leaves the cells before them. -/
theorem serializeEvents_spec (hwincode : wincode.Documented) (hstart : lane.released ≤ start)
    (hwindow : start + events.length ≤ lane.released + K) :
    ∃ lane', KeepsBefore start lane lane' ∧
      ((exec (serializeEvents wincode start events) lane = (.ok (), lane') ∧
          Holds wincode lane' start events) ∨
        ∃ error, exec (serializeEvents wincode start events) lane =
          (.error (.err (.serialization error)), lane')) := by
  induction events generalizing start lane with
  | nil => exact ⟨lane, .refl start lane, .inl ⟨rfl, by simp [Holds]⟩⟩
  | cons event events ih =>
    rw [List.length_cons] at hwindow
    rw [serializeEvents, exec_bind, exec_serializeInto]
    rcases hwrite : wincode.serializeInto (lane.cell start) event with ⟨bytes, error | u⟩
    · exact ⟨_, keepsBefore_setCell (by omega), .inr ⟨error, rfl⟩⟩
    · have hfront := hwincode.serialize_front (lane.cell start) event (by rw [hwrite])
      rw [hwrite] at hfront
      have hkeep : KeepsBefore start lane (lane.setCell start bytes) :=
        keepsBefore_setCell (by omega)
      have hstart' : (lane.setCell start bytes).released ≤ start + 1 := Nat.le_succ_of_le hstart
      have hwindow' : start + 1 + events.length ≤ (lane.setCell start bytes).released + K := by
        rw [Lane.setCell_released]
        omega
      obtain ⟨lane', hkeep', hrest⟩ := ih hstart' hwindow'
      refine ⟨lane', hkeep.trans (hkeep'.mono (Nat.le_succ start)), ?_⟩
      rcases hrest with ⟨hok, hholds⟩ | ⟨error, herror⟩
      · refine .inl ⟨hok, fun k event' hk => ?_⟩
        cases k with
        | zero =>
          -- The later events have left the first cell alone.
          have hsame := hkeep'.cell start hstart (Nat.lt_succ_self start)
          rw [List.getElem?_cons_zero, Option.some.injEq] at hk
          rw [Nat.add_zero, hsame, Lane.cell_setCell_self, ← hk]
          exact hfront
        | succ k =>
          rw [List.getElem?_cons_succ] at hk
          rw [show start + (k + 1) = start + 1 + k by omega]
          exact hholds k event' hk
      · exact .inr ⟨error, herror⟩

theorem publish_eq (event : E) :
    (publish wincode refused event : Comp (Lane K N) (PublishError W) Unit) =
      publishBatch wincode refused [event] := by
  simp [publish, publishBatch, tryReserveWrite, serializeEvents]

theorem exec_publishBatch (hne : events ≠ []) (henabled : lane.enabled = true) :
    exec (publishBatch wincode refused events) lane =
      if refused ∨ lane.released + K < lane.published + events.length then
        (.error (.err .failedToSend), lane)
      else
        match exec (serializeEvents wincode lane.published events) lane with
        | (.ok (), lane') => (.ok (), { lane' with published := lane.published + events.length })
        | (.error e, lane') => (.error e, lane') := by
  rw [publishBatch, if_pos (fun hlength => hne (List.length_eq_zero_iff.mp hlength)), exec_bind]
  simp only [producer, exec_bind, exec_get, exec_pure, henabled, if_true, tryReserveWriteBatch]
  by_cases hrefused : refused ∨ lane.released + K < lane.published + events.length
  · simp only [if_pos hrefused, exec_pure, exec_ofOutcome, okOr]
  · simp only [if_neg hrefused, exec_pure, exec_ofOutcome, okOr, WriteGuard.publish, exec_modify]
    rcases exec (serializeEvents wincode lane.published events) lane with ⟨e | u, lane'⟩
    · rfl
    · rfl

/-- A call on an enabled stream sends all its events or keeps what the subscriber can still see. -/
theorem publishBatch_spec (refused : Bool) (events : List E)
    (hwincode : wincode.Documented) (henabled : lane.enabled = true)
    (hreleased : lane.released ≤ lane.published)
    (hpublished : lane.published ≤ lane.released + K) :
    ∃ lane', KeepsBefore lane.published lane lane' ∧
      ((exec (publishBatch wincode refused events) lane =
          (.ok (), { lane' with published := lane.published + events.length }) ∧
        Holds wincode lane' lane.published events ∧
        lane.published + events.length ≤ lane.released + K) ∨
      ∃ error, exec (publishBatch wincode refused events) lane = (.error (.err error), lane')) := by
  by_cases hnil : events = []
  · subst hnil
    exact ⟨lane, .refl _ lane, .inl ⟨rfl, by simp [Holds], hpublished⟩⟩
  · rw [exec_publishBatch hnil henabled]
    split
    · exact ⟨lane, .refl _ lane, .inr ⟨.failedToSend, rfl⟩⟩
    · next hreserved =>
      rw [not_or, Nat.not_lt] at hreserved
      obtain ⟨lane', hkeep, hresult⟩ := serializeEvents_spec hwincode hreleased hreserved.2
      refine ⟨lane', hkeep, ?_⟩
      rcases hresult with ⟨hok, hholds⟩ | ⟨error, herror⟩
      · exact .inl ⟨by rw [hok], hholds, hreserved.2⟩
      · exact .inr ⟨.serialization error, by rw [herror]⟩

variable {s s' : LaneState K N E W R}

/-- The cells that are visible hold the events that were sent, and the messages that were dropped
decoded to the ones before them. -/
structure LaneState.Inv (wincode : Wincode N E W R) (s : LaneState K N E W R) : Prop where
  enabled : s.lane.enabled = true
  released_le : s.lane.released ≤ s.lane.published
  published_le : s.lane.published ≤ s.lane.released + K
  published_eq : s.lane.published = s.sent.length
  visible : ∀ i event, s.lane.released ≤ i → s.sent[i]? = some event →
    wincode.encoding event <+: (s.lane.cell i).toList
  received_eq : s.received = (s.sent.take s.lane.released).map .ok
  message_eq : ∀ message, s.message = some message →
    message.index = s.lane.released ∧ s.lane.released < s.lane.published

theorem new_inv (cells : Fin K → Vector UInt8 N) :
    (LaneState.new cells : LaneState K N E W R).Inv wincode where
  enabled := rfl
  released_le := le_rfl
  published_le := Nat.zero_le _
  published_eq := rfl
  visible i event _ hi := by simp [LaneState.new, LaneState.sent] at hi
  received_eq := rfl
  message_eq message hmessage := by cases hmessage

/-- Writing behind the visible cells changes nothing for the subscriber. -/
theorem LaneState.Inv.keep {lane' : Lane K N} (hinv : s.Inv wincode)
    (hkeep : KeepsBefore s.lane.published s.lane lane') :
    LaneState.Inv wincode { s with lane := lane' } where
  enabled := hkeep.enabled.trans hinv.enabled
  released_le := by simpa only [hkeep.released, hkeep.published] using hinv.released_le
  published_le := by simpa only [hkeep.released, hkeep.published] using hinv.published_le
  published_eq := hkeep.published.trans hinv.published_eq
  visible i event hi hsent := by
    have hlt : i < s.sent.length := (List.getElem?_eq_some_iff.mp hsent).1
    have hle : s.lane.released ≤ i := hkeep.released ▸ hi
    rw [hkeep.cell i hle (hinv.published_eq ▸ hlt)]
    exact hinv.visible i event hle hsent
  received_eq := hkeep.released ▸ hinv.received_eq
  message_eq := by simpa only [hkeep.released, hkeep.published] using hinv.message_eq

/-- Publishing makes the events visible that the cells behind the visible ones hold. -/
theorem LaneState.Inv.send (hinv : s.Inv wincode)
    (hholds : Holds wincode s.lane s.lane.published events)
    (hroom : s.lane.published + events.length ≤ s.lane.released + K) :
    LaneState.Inv wincode { s with
      lane := { s.lane with published := s.lane.published + events.length }
      calls := s.calls ++ [(events, .ok ())] } := by
  have hsent (lane : Lane K N) : LaneState.sent { s with
      lane := lane, calls := s.calls ++ [(events, .ok ())] } = s.sent ++ events := by
    simp [LaneState.sent]
  refine ⟨hinv.enabled, ?_, hroom, ?_, ?_, ?_, ?_⟩
  · exact Nat.le_trans hinv.released_le (Nat.le_add_right _ _)
  · rw [hsent, List.length_append, ← hinv.published_eq]
  · intro i event hi hevent
    rw [hsent] at hevent
    rcases Nat.lt_or_ge i s.sent.length with hlt | hge
    · rw [List.getElem?_append_left hlt] at hevent
      exact hinv.visible i event hi hevent
    · rw [List.getElem?_append_right hge] at hevent
      have hfront := hholds _ event hevent
      rwa [hinv.published_eq, Nat.add_sub_cancel' hge] at hfront
  · rw [hsent, List.take_append_of_le_length (hinv.published_eq ▸ hinv.released_le)]
    exact hinv.received_eq
  · intro message hmessage
    obtain ⟨hindex, hlt⟩ := hinv.message_eq message hmessage
    exact ⟨hindex, Nat.lt_of_lt_of_le hlt (Nat.le_add_right _ _)⟩

theorem LaneState.Inv.fail (hinv : s.Inv wincode) (events : List E) (error : PublishError W) :
    LaneState.Inv wincode { s with calls := s.calls ++ [(events, .error (.err error))] } := by
  have hsent : LaneState.sent { s with
      calls := s.calls ++ [(events, .error (.err error))] } = s.sent := by
    simp [LaneState.sent]
  exact ⟨hinv.enabled, hinv.released_le, hinv.published_le, hsent ▸ hinv.published_eq,
    hsent ▸ hinv.visible, hsent ▸ hinv.received_eq, hinv.message_eq⟩

/-- A call that returns `Ok` sends its events, one that fails sends nothing. -/
theorem call_publishBatch_inv (hwincode : wincode.Documented) (hinv : s.Inv wincode)
    (refused : Bool) (events : List E) :
    (s.call events (publishBatch wincode refused events)).Inv wincode := by
  obtain ⟨lane', hkeep, hresult⟩ := publishBatch_spec refused events hwincode hinv.enabled
    hinv.released_le hinv.published_le
  have hkept := hinv.keep hkeep
  rcases hresult with ⟨hok, hholds, hroom⟩ | ⟨error, herror⟩
  · rw [← hkeep.published] at hholds hroom hok
    rw [← hkeep.released] at hroom
    rw [LaneState.call, hok]
    exact hkept.send hholds hroom
  · rw [LaneState.call, herror]
    exact hkept.fail events error

/-- The message that the subscriber holds decodes to the next event it has not seen. -/
theorem decode_message (hwincode : wincode.Documented) (hinv : s.Inv wincode)
    {message : StreamMessage} (hmessage : s.message = some message) :
    ∃ event, s.sent[s.lane.released]? = some event ∧
      message.decode wincode s.lane = .ok event := by
  obtain ⟨hindex, hlt⟩ := hinv.message_eq message hmessage
  rw [hinv.published_eq] at hlt
  have hevent := List.getElem?_eq_getElem hlt
  obtain ⟨rest, hrest⟩ := hinv.visible _ _ le_rfl hevent
  refine ⟨_, hevent, ?_⟩
  rw [StreamMessage.decode, StreamMessage.payload, hindex, ← hrest]
  exact hwincode.deserialize_encoding _ rest

theorem step_inv (hwincode : wincode.Documented) {action : LaneAction E}
    (h : s.step wincode action = some s') (hinv : s.Inv wincode) : s'.Inv wincode := by
  cases action with
  | publish event refused =>
    rw [LaneState.step, publish_eq, Option.some.injEq] at h
    exact h ▸ call_publishBatch_inv hwincode hinv refused [event]
  | publishBatch events refused =>
    rw [LaneState.step, Option.some.injEq] at h
    exact h ▸ call_publishBatch_inv hwincode hinv refused events
  | tryRecv =>
    cases hmessage : s.message with
    | some message => simp [LaneState.step, hmessage] at h
    | none =>
      by_cases hlt : s.lane.released < s.lane.published
      · simp only [LaneState.step, hmessage, tryRecv, if_pos hlt, Option.some.injEq] at h
        subst h
        refine { hinv with message_eq := fun message heq => ?_ }
        rw [Option.some.injEq] at heq
        exact ⟨heq ▸ rfl, hlt⟩
      · simp only [LaneState.step, hmessage, tryRecv, if_neg hlt, Option.some.injEq] at h
        exact h ▸ hinv
  | decode =>
    obtain ⟨message, hmessage, hstate⟩ := Option.bind_eq_some_iff.mp h
    obtain ⟨event, hevent, hdecode⟩ := decode_message hwincode hinv hmessage
    obtain ⟨hindex, hlt⟩ := hinv.message_eq message hmessage
    rw [← Option.some.inj hstate, hindex, hdecode]
    refine ⟨hinv.enabled, hlt, ?_, hinv.published_eq, ?_, ?_, ?_⟩
    · exact Nat.le_trans hinv.published_le (by simp only; omega)
    · exact fun i event hi hsent => hinv.visible i event (Nat.le_of_succ_le hi) hsent
    · change _ = (s.sent.take (s.lane.released + 1)).map Except.ok
      rw [List.take_add_one, hevent, hinv.received_eq, List.map_append]
      rfl
    · intro message' heq
      cases heq

/-- In every run, the messages decode to the events of the calls that returned `Ok`, in order and
without a gap, and there is no further message exactly when all of them have been received. -/
theorem subscriber_decodes_sent (hwincode : wincode.Documented) (cells : Fin K → Vector UInt8 N)
    {actions : List (LaneAction E)}
    (h : run (LaneState.step wincode) (LaneState.new cells) actions = some s) :
    s.received = (s.sent.take s.received.length).map .ok ∧
      (∀ message, s.message = some message → ∃ event,
        s.sent[s.received.length]? = some event ∧
          message.decode wincode s.lane = .ok event) ∧
      (tryRecv s.lane = .error .empty ↔ s.received = s.sent.map .ok) := by
  have hinv : s.Inv wincode :=
    run_invariant (LaneState.Inv wincode) (step_inv hwincode) h (new_inv cells)
  have hle : s.lane.released ≤ s.sent.length := hinv.published_eq ▸ hinv.released_le
  have hlength : s.received.length = s.lane.released := by
    rw [hinv.received_eq, List.length_map, List.length_take, Nat.min_eq_left hle]
  rw [hlength]
  refine ⟨hinv.received_eq, fun message => decode_message hwincode hinv, ?_⟩
  rw [tryRecv, hinv.published_eq]
  constructor
  · intro hempty
    have hall : s.sent.length ≤ s.lane.released := by
      by_contra hlt
      rw [if_pos (by omega)] at hempty
      cases hempty
    rw [hinv.received_eq, List.take_of_length_le hall]
  · intro hall
    have hlast := congrArg List.length hall
    rw [hlength, List.length_map] at hlast
    rw [if_neg (by omega)]

/-- An event of any number of bytes, on a stream with `max_serialized_size = 16`. -/
structure BoundedEvent where
  values : List UInt8
  values_lt : values.length < 2 ^ 64
deriving DecidableEq, Repr

/-- The bytes stand behind their number. -/
def BoundedEvent.encoding (event : BoundedEvent) : List UInt8 :=
  leBytes 8 event.values.length ++ event.values

/-- The cell with the bytes at its front, as far as there is room for them. -/
def writeFront (cell : Vector UInt8 N) (bytes : List UInt8) : Vector UInt8 N :=
  Vector.ofFn fun i => bytes.getD i cell[i]

theorem prefix_writeFront (cell : Vector UInt8 N) {bytes : List UInt8} (h : bytes.length ≤ N) :
    bytes <+: (writeFront cell bytes).toList := by
  rw [List.prefix_iff_eq_take]
  apply List.ext_getElem
  · rw [List.length_take, Vector.length_toList, Nat.min_eq_left h]
  · intro i hi hi'
    simp [writeFront, hi]

/-- The number of the bytes is always written, and the bytes only if there is room for all. -/
def boundedWincode : Wincode 16 BoundedEvent Unit Unit where
  encoding := BoundedEvent.encoding
  serializeInto cell event :=
    if event.encoding.length ≤ 16 then
      (writeFront cell event.encoding, .ok ())
    else (writeFront cell (leBytes 8 event.values.length), .error ())
  deserialize bytes :=
    let values := (bytes.drop 8).take (leNat (bytes.take 8))
    if h : 8 ≤ bytes.length ∧ values.length = leNat (bytes.take 8) ∧ values.length < 2 ^ 64 then
      .ok ⟨values, h.2.2⟩
    else .error ()

theorem boundedWincode_documented : boundedWincode.Documented where
  serialize_front cell event hok := by
    by_cases hfit : event.encoding.length ≤ 16
    · simp only [boundedWincode, if_pos hfit]
      exact prefix_writeFront cell hfit
    · simp [boundedWincode, hfit] at hok
  deserialize_encoding event rest := by
    have hlength : leNat (leBytes 8 event.values.length) = event.values.length :=
      leNat_leBytes event.values_lt
    have htake : (event.encoding ++ rest).take 8 = leBytes 8 event.values.length := by
      rw [BoundedEvent.encoding, List.append_assoc]
      exact List.take_left' (leBytes_length _ _)
    have hdrop : (event.encoding ++ rest).drop 8 = event.values ++ rest := by
      rw [BoundedEvent.encoding, List.append_assoc]
      exact List.drop_left' (leBytes_length _ _)
    simp only [boundedWincode, htake, hdrop, hlength, List.take_left]
    rw [dif_pos]
    refine ⟨?_, trivial, event.values_lt⟩
    rw [BoundedEvent.encoding, List.length_append, List.length_append, leBytes_length]
    omega

/-- An event of one byte, which fits. -/
def fittingEvent (value : UInt8) : BoundedEvent := ⟨[value], by simp⟩

/-- An event with as many bytes as a cell has, which leaves no room for their number. -/
def oversizedEvent : BoundedEvent := ⟨List.replicate 16 2, by decide⟩

/-- A batch that fails at its second event, with the queue full of stale bytes, and then a call that
succeeds. -/
def sampleActions : List (LaneAction BoundedEvent) :=
  [.publishBatch [fittingEvent 1, oversizedEvent] false, .publish (fittingEvent 7) false, .tryRecv,
    .decode]

theorem sample_run_decodes_sent :
    ∃ s, run (LaneState.step boundedWincode)
        (LaneState.new fun _ : Fin 2 => Vector.replicate 16 255) sampleActions = some s ∧
      s.sent = [fittingEvent 7] ∧ s.received = [.ok (fittingEvent 7)] ∧
      tryRecv s.lane = .error .empty := by
  have hrun : run (LaneState.step boundedWincode)
      (LaneState.new fun _ : Fin 2 => Vector.replicate 16 255) sampleActions = some _ := rfl
  obtain ⟨hreceived, -, hempty⟩ := subscriber_decodes_sent boundedWincode_documented _ hrun
  exact ⟨_, hrun, rfl, hreceived, hempty.mpr hreceived⟩

end AgaveSdk.EventLanes
