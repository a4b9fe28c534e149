import AgaveSdk.EventSystem.Publishing

/-! The size of the cells of a queue, and which events can be put into them. -/
namespace AgaveSdk.EventLanes
open FallibleState CellRing Runs

/-- What `wincode` knows of the size of a serialized event, without seeing the event. -/
inductive SerializedSize where
  | static (size : ℕ)
  | dynamic (lowerBound : ℕ)
  deriving DecidableEq, Repr

/-- Evaluated when the event type is compiled, so an error is a type that is refused. -/
def eventQueueCellSize (size : SerializedSize) (maxSerializedSize : Option ℕ) : Except String ℕ :=
  match size with
  | .static size => .ok size
  | .dynamic lowerBound =>
      match maxSerializedSize with
      | some maxSerializedSize =>
          if maxSerializedSize > lowerBound then .ok maxSerializedSize
          else .error ("`max_serialized_size` must be greater than wincode's dynamic " ++
            "serialized-size lower bound")
      | none => .error ("event has a dynamic serialized size; specify `max_serialized_size` in " ++
          "the `#[event(...)]` attribute")

variable {K N : ℕ} [NeZero K] {E W R : Type}

/-- A static size is enough for every event. The encoding is written piece by piece, and a lack of
room is announced only at a piece that the rest of the cell cannot take. Other errors may occur at
any time. -/
structure Wincode.Sized (wincode : Wincode N E W R) (size : SerializedSize)
    (lacksRoom : W → Prop) : Prop where
  static_le : ∀ n, size = .static n → ∀ event, (wincode.encoding event).length ≤ n
  lacksRoom_piece : ∀ cell event error, (wincode.serializeInto cell event).2 = .error error →
    lacksRoom error → ∃ written piece rest, wincode.encoding event = written ++ piece ++ rest ∧
      N - written.length < piece.length

/-- The batch stops at the event: those before it fit, and it cannot be written to its cell. -/
def Wincode.FailsAt (wincode : Wincode N E W R) (events : List E) (error : W) (event : E) : Prop :=
  ∃ before after, events = before ++ event :: after ∧
    (∀ other ∈ before, (wincode.encoding other).length ≤ N) ∧
    ∃ cell, (wincode.serializeInto cell event).2 = .error error

/-- A call returns `Ok` only if its events fit, and a serialization error is that of one event. -/
inductive CallFits (wincode : Wincode N E W R) (events : List E) :
    Outcome (PublishError W) Unit → Prop where
  | sent (hfit : ∀ event ∈ events, (wincode.encoding event).length ≤ N) :
      CallFits wincode events (.ok ())
  | refused : CallFits wincode events (.error (.err .failedToSend))
  | failed (error : W) (event : E) (hfails : wincode.FailsAt events error event) :
      CallFits wincode events (.error (.err (.serialization error)))

section Fits

variable {wincode : Wincode N E W R} {size : SerializedSize} {maxSerializedSize : Option ℕ}
  {lane : Lane K N} {refused : Bool} {start : ℕ} {s s' : LaneState K N E W R}

/-- A type of dynamic size is accepted only with a bound above its lower bound. -/
theorem eventQueueCellSize_cases (h : eventQueueCellSize size maxSerializedSize = .ok N) :
    size = .static N ∨
      ∃ lowerBound, size = .dynamic lowerBound ∧ maxSerializedSize = some N ∧ lowerBound < N := by
  cases size with
  | static n =>
    cases h
    exact .inl rfl
  | dynamic lowerBound =>
    cases maxSerializedSize with
    | none => cases h
    | some m =>
      simp only [eventQueueCellSize] at h
      split at h
      · next hgreater =>
        cases h
        exact .inr ⟨lowerBound, rfl, rfl, hgreater⟩
      · cases h

/-- What is written has fitted. -/
theorem Wincode.Documented.fits (hwincode : wincode.Documented) {cell : Vector UInt8 N} {event : E}
    (hok : (wincode.serializeInto cell event).2 = .ok ()) :
    (wincode.encoding event).length ≤ N := by
  have hle := (hwincode.serialize_front cell event hok).length_le
  rwa [Vector.length_toList] at hle

/-- Where room is lacking, the encoding is longer than the cell. -/
theorem Wincode.Sized.length_gt {lacksRoom : W → Prop} (hsized : wincode.Sized size lacksRoom)
    {cell : Vector UInt8 N} {event : E} {error : W}
    (herror : (wincode.serializeInto cell event).2 = .error error) (hroom : lacksRoom error) :
    N < (wincode.encoding event).length := by
  obtain ⟨written, piece, rest, hencoding, hlong⟩ :=
    hsized.lacksRoom_piece cell event error herror hroom
  rw [hencoding, List.length_append, List.length_append]
  omega

theorem CallFits.cons {event : E} {events : List E} {result : Outcome (PublishError W) Unit}
    (h : CallFits wincode events result) (hfit : (wincode.encoding event).length ≤ N) :
    CallFits wincode (event :: events) result := by
  cases h with
  | sent hrest => exact .sent (List.forall_mem_cons.mpr ⟨hfit, hrest⟩)
  | refused => exact .refused
  | failed error culprit hfails =>
    obtain ⟨before, after, rfl, hbefore, herror⟩ := hfails
    exact .failed error culprit
      ⟨event :: before, after, rfl, List.forall_mem_cons.mpr ⟨hfit, hbefore⟩, herror⟩

theorem serializeEvents_fits (hwincode : wincode.Documented) (events : List E) (start : ℕ)
    (lane : Lane K N) :
    CallFits wincode events (exec (serializeEvents wincode start events) lane).1 := by
  induction events generalizing start lane with
  | nil => exact .sent nofun
  | cons event events ih =>
    rw [serializeEvents, exec_bind, exec_serializeInto]
    cases hwrite : (wincode.serializeInto (lane.cell start) event).2 with
    | error error =>
      exact .failed error event ⟨[], events, rfl, nofun, _, hwrite⟩
    | ok u =>
      exact (ih (start + 1) _).cons (hwincode.fits hwrite)

theorem publishBatch_fits (hwincode : wincode.Documented)
    (henabled : lane.enabled = true) (events : List E) :
    CallFits wincode events (exec (publishBatch wincode refused events) lane).1 := by
  by_cases hnil : events = []
  · subst hnil
    exact .sent nofun
  · rw [exec_publishBatch hnil henabled]
    split
    · exact .refused
    · have hfits := serializeEvents_fits hwincode events lane.published lane
      rcases hresult : exec (serializeEvents wincode lane.published events) lane
        with ⟨error | u, lane'⟩
      · rw [hresult] at hfits
        exact hfits
      · rw [hresult] at hfits
        exact hfits

/-- All calls so far fit what they returned. -/
def LaneState.Fitted (wincode : Wincode N E W R) (s : LaneState K N E W R) : Prop :=
  ∀ call ∈ s.calls, CallFits wincode call.1 call.2

theorem call_fitted (hwincode : wincode.Documented) (hinv : s.Inv wincode)
    (h : s.Fitted wincode) (refused : Bool) (events : List E) :
    (s.call events (publishBatch wincode refused events)).Fitted wincode := by
  unfold LaneState.Fitted LaneState.call
  intro call hcall
  rcases List.mem_append.mp hcall with hold | hnew
  · exact h call hold
  · rw [List.mem_singleton.mp hnew]
    exact publishBatch_fits hwincode hinv.enabled events

theorem step_fitted (hwincode : wincode.Documented) {action : LaneAction E}
    (hstep : s.step wincode action = some s') (hinv : s.Inv wincode) (h : s.Fitted wincode) :
    s'.Fitted wincode := by
  cases action with
  | publish event refused =>
    rw [LaneState.step, publish_eq, Option.some.injEq] at hstep
    exact hstep ▸ call_fitted hwincode hinv h refused [event]
  | publishBatch events refused =>
    rw [LaneState.step, Option.some.injEq] at hstep
    exact hstep ▸ call_fitted hwincode hinv h refused events
  | tryRecv =>
    simp only [LaneState.step] at hstep
    split at hstep
    · cases hstep
    · split at hstep
      · cases hstep
        exact h
      · cases hstep
        exact h
  | decode =>
    obtain ⟨message, -, hstate⟩ := Option.bind_eq_some_iff.mp hstep
    cases hstate
    exact h

end Fits

/-- In every run on a queue whose cells have the size that the event type asks for: a call returns
`Ok` only if all its events fit, and a serialization error is that of the first event which cannot
be written. It announces a lack of room only for a type of dynamic size, whose cells have more room
than its lower bound and less than this event takes. -/
theorem calls_fit_cells {wincode : Wincode N E W R} {size : SerializedSize}
    {maxSerializedSize : Option ℕ} {lacksRoom : W → Prop}
    (hcell : eventQueueCellSize size maxSerializedSize = .ok N)
    (hwincode : wincode.Documented) (hsized : wincode.Sized size lacksRoom)
    (cells : Fin K → Vector UInt8 N) {actions : List (LaneAction E)} {s : LaneState K N E W R}
    (h : run (LaneState.step wincode) (LaneState.new cells) actions = some s)
    (events : List E) (result : Outcome (PublishError W) Unit)
    (hcall : (events, result) ∈ s.calls) :
    (result = .ok () ∧ ∀ event ∈ events, (wincode.encoding event).length ≤ N) ∨
      result = .error (.err .failedToSend) ∨
      ∃ error event, result = .error (.err (.serialization error)) ∧
        wincode.FailsAt events error event ∧
        (lacksRoom error → N < (wincode.encoding event).length ∧
          ∃ lowerBound, size = .dynamic lowerBound ∧ maxSerializedSize = some N ∧
            lowerBound < N) := by
  have hreached : s.Inv wincode ∧ s.Fitted wincode := by
    apply run_invariant (fun s : LaneState K N E W R => s.Inv wincode ∧ s.Fitted wincode) _ h
    · exact ⟨new_inv cells, nofun⟩
    · intro s action s' hstep hs
      exact ⟨step_inv hwincode hstep hs.1, step_fitted hwincode hstep hs.1 hs.2⟩
  have hfits : CallFits wincode events result := hreached.2 _ hcall
  cases hfits with
  | sent hfit => exact .inl ⟨rfl, hfit⟩
  | refused => exact .inr (.inl rfl)
  | failed error event hfails =>
    refine .inr (.inr ⟨error, event, rfl, hfails, fun hroom => ?_⟩)
    obtain ⟨-, -, -, -, cell, herror⟩ := hfails
    have hlong := hsized.length_gt herror hroom
    refine ⟨hlong, ?_⟩
    rcases eventQueueCellSize_cases hcell with hstatic | hdynamic
    · exact absurd hlong (Nat.not_lt.mpr (hsized.static_le N hstatic event))
    · exact hdynamic

/-- The number in front of the bytes takes eight, and the attribute asks for sixteen. -/
theorem boundedWincode_sized : boundedWincode.Sized (.dynamic 8) fun _ => True where
  static_le n h := by cases h
  lacksRoom_piece cell event error herror _ := by
    refine ⟨[], event.encoding, [], (List.append_nil _).symm, ?_⟩
    by_contra hfit
    have hlength : event.encoding.length ≤ 16 := Nat.not_lt.mp hfit
    simp [boundedWincode, hlength] at herror

theorem sample_call_oversized : ∃ s, run (LaneState.step boundedWincode)
    (LaneState.new fun _ : Fin 2 => Vector.replicate 16 255) sampleActions = some s ∧
      ∃ event, boundedWincode.FailsAt [fittingEvent 1, oversizedEvent] () event ∧
        16 < event.encoding.length := by
  have hrun : run (LaneState.step boundedWincode)
      (LaneState.new fun _ : Fin 2 => Vector.replicate 16 255) sampleActions = some _ := rfl
  refine ⟨_, hrun, ?_⟩
  have hcell : eventQueueCellSize (.dynamic 8) (some 16) = .ok 16 := rfl
  rcases calls_fit_cells hcell boundedWincode_documented boundedWincode_sized _ hrun
    [fittingEvent 1, oversizedEvent] (.error (.err (.serialization ()))) List.mem_cons_self
    with ⟨hok, -⟩ | hrefused | ⟨error, event, -, hfails, hroom⟩
  · cases hok
  · cases hrefused
  · exact ⟨event, hfails, (hroom trivial).1⟩

end AgaveSdk.EventLanes
