import AgaveSdk.Library.Memory
import Mathlib.Data.List.Nodup
import AgaveSdk.EventSystem.StreamPolicy

/-! The registry of streams and the policy that they follow. Streams are shared: factories and
publishers hold strong references, the registry holds weak ones. -/
namespace AgaveSdk.EventSystem
open Runs Memory

/-- Why creating a queue failed. -/
inductive QueueFailure where
  | failedToSerializeSchema
  | fileSystem
  | queue
  | osRngFailure
  deriving DecidableEq, Repr

inductive CreateStreamError where
  | streamNameAlreadyInUse
  | queueFailure (failure : QueueFailure)
  deriving DecidableEq, Repr

/-- A stream in memory with the factories that hold it. The last two fields are ghosts: whether
`create_stream` returned it, and the last rule applied to it with whether that succeeded. -/
structure SharedStream where
  streamName : StreamName
  stream : EventStream
  factories : ℕ
  obtained : Bool
  lastApplied : Option (StreamRule × Bool)

namespace SharedStream

/-- A publisher holds the stream until its drop has finished. -/
def strongCount (c : SharedStream) : ℕ := c.factories + c.stream.undropped

/-- With the last strong reference the stream is dropped, and with it the queue. -/
def release (c : SharedStream) : SharedStream :=
  if c.strongCount = 0 then { c with stream := { c.stream with queue := none } } else c

/-- What applying a rule returns: only creating a queue can fail. -/
def ruleResult (c : SharedStream) (rule : StreamRule) (failure : Option QueueFailure) :
    Except CreateStreamError Unit :=
  match rule, c.stream.queue, failure with
  | .on, none, some failure => .error (.queueFailure failure)
  | _, _, _ => .ok ()

def applyStreamRule (c : SharedStream) (rule : StreamRule) (failure : Option QueueFailure) :
    SharedStream :=
  { c with
    stream := c.stream.applyStreamRule rule failure.isNone
    lastApplied := some (rule, (c.ruleResult rule failure).isOk) }

end SharedStream

/-- The weak references are addresses. -/
structure StreamPolicyManager where
  streams : List ℕ
  streamPolicy : StreamPolicy

/-- The event system with the memory of its streams. -/
structure SystemState where
  memory : List SharedStream
  manager : StreamPolicyManager

namespace SystemState

def new : SystemState := ⟨[], ⟨[], StreamPolicy.default⟩⟩

/-- Whether a weak reference can be upgraded. -/
def isAlive (s : SystemState) (i : ℕ) : Bool :=
  s.memory[i]?.any fun c => decide (0 < c.strongCount)

def pruneDeadStreams (s : SystemState) : SystemState :=
  { s with manager := { s.manager with streams := s.manager.streams.filter s.isAlive } }

/-- The loop of `set_stream_policy`, with what each queue creation answers. A failure leaves the
stream disabled and is not reported. -/
def applyPolicy (policy : StreamPolicy) :
    List ℕ → List (Option QueueFailure) → List SharedStream → List SharedStream
  | [], _, memory => memory
  | i :: is, failures, memory =>
      applyPolicy policy is failures.tail (memory.modify i fun c =>
        if 0 < c.strongCount then
          c.applyStreamRule (policy.streamRule c.streamName) (failures.headD none)
        else c)

def setStreamPolicy (s : SystemState) (policy : StreamPolicy)
    (failures : List (Option QueueFailure)) : SystemState :=
  let s := s.pruneDeadStreams
  ⟨applyPolicy policy s.manager.streams failures s.memory, ⟨s.manager.streams, policy⟩⟩

@[simp] theorem setStreamPolicy_streamPolicy (s : SystemState) (policy : StreamPolicy)
    (failures : List (Option QueueFailure)) :
    (s.setStreamPolicy policy failures).manager.streamPolicy = policy := rfl

/-- Some stream that is registered and alive has the name. -/
def nameInUse (s : SystemState) (streamName : StreamName) : Bool :=
  s.manager.streams.any fun i =>
    s.memory[i]?.any fun c => decide (0 < c.strongCount) && decide (c.streamName = streamName)

/-- The address of the new stream, or why there is none. On an error the new stream is dropped. -/
def createStream (s : SystemState) (streamName : StreamName) (config : StreamConfig)
    (failure : Option QueueFailure) : Except CreateStreamError ℕ × SystemState :=
  let s := s.pruneDeadStreams
  let stream : SharedStream := ⟨streamName, EventStream.new config, 1, false, none⟩
  let drop (c : SharedStream) : SharedStream := { c with factories := 0 }.release
  if s.nameInUse streamName then
    (.error .streamNameAlreadyInUse, { s with memory := s.memory ++ [drop stream] })
  else
    let rule := s.manager.streamPolicy.streamRule streamName
    let applied := stream.applyStreamRule rule failure
    match stream.ruleResult rule failure with
    | .error e => (.error e, { s with memory := s.memory ++ [drop applied] })
    | .ok () =>
        (.ok s.memory.length,
          ⟨s.memory ++ [{ applied with obtained := true }],
            { s.manager with streams := s.manager.streams ++ [s.memory.length] }⟩)

end SystemState

/-- What the holders of a stream do with their handles. -/
inductive HandleAction where
  | cloneFactory
  | dropFactory
  | tryCreatePublisher
  | publisher (i : ℕ) (action : PublisherAction)
  deriving DecidableEq, Repr

variable (accepts : ℕ → ℕ → Bool)

/-- The stream after an action of a holder. A call needs the handle it is made on. -/
def SharedStream.handle (c : SharedStream) : HandleAction → Option SharedStream
  | .cloneFactory => if 0 < c.factories then some { c with factories := c.factories + 1 } else none
  | .dropFactory => if 0 < c.factories then some { c with factories := c.factories - 1 } else none
  | .tryCreatePublisher =>
      if 0 < c.factories then
        some { c with stream := (c.stream.tryCreatePublisher accepts).getD c.stream }
      else none
  | .publisher i action => do
      return { c with stream := ← c.stream.step accepts (.publisher i action) }

inductive SystemAction where
  | createStream (streamName : StreamName) (config : StreamConfig) (failure : Option QueueFailure)
  | setStreamPolicy (policy : StreamPolicy) (failures : List (Option QueueFailure))
  | handle (i : ℕ) (action : HandleAction)

/-- The policy that an action stores. -/
def SystemAction.policy? : SystemAction → Option StreamPolicy
  | .setStreamPolicy policy _ => some policy
  | _ => none

def SystemState.step (s : SystemState) : SystemAction → Option SystemState
  | .createStream streamName config failure => some (s.createStream streamName config failure).2
  | .setStreamPolicy policy failures => some (s.setStreamPolicy policy failures)
  | .handle i action => do
      let c ← s.memory[i]?
      let c' ← c.handle accepts action
      return { s with memory := s.memory.set i c'.release }

/-- The last rule applied is that of the policy. Where that succeeded the stream has a queue exactly
if the rule is on, and where it failed there is none. -/
def SharedStream.Follows (c : SharedStream) (policy : StreamPolicy) : Prop :=
  ∃ ok, c.lastApplied = some (policy.streamRule c.streamName, ok) ∧
    (ok = true → (c.stream.queue.isSome = true ↔ policy.streamRule c.streamName = .on)) ∧
    (ok = false → c.stream.queue = none)

/-- The stream at an address still has a handle. -/
def SystemState.Alive (s : SystemState) (i : ℕ) (c : SharedStream) : Prop :=
  s.memory[i]? = some c ∧ 0 < c.strongCount

/-- Every stream that is alive is registered, alone under its name, and follows the policy. -/
structure SystemState.Inv (s : SystemState) : Prop where
  inMemory : ∀ i ∈ s.manager.streams, i < s.memory.length
  nodup : s.manager.streams.Nodup
  registered : ∀ {i c}, s.Alive i c → i ∈ s.manager.streams
  names : ∀ {i j c c'}, s.Alive i c → s.Alive j c' → c.streamName = c'.streamName → i = j
  follows : ∀ {i c}, s.Alive i c → c.Follows s.manager.streamPolicy
  dropped : ∀ {i : ℕ} {c : SharedStream}, s.memory[i]? = some c → c.strongCount = 0 →
    c.stream.queue = none

section Streams

variable {accepts} {c c' : SharedStream} {policy : StreamPolicy}

theorem EventStream.applyStreamRule_publishers (s : EventStream) (rule : StreamRule)
    (queueCreated : Bool) : (s.applyStreamRule rule queueCreated).publishers = s.publishers := by
  unfold applyStreamRule
  split
  · split
    · rfl
    · rfl
  · rfl
  · rfl
  · rfl

/-- Whatever the queue was, it is there afterwards exactly if the rule says so and creating it did
not fail. -/
theorem EventStream.applyStreamRule_queue (s : EventStream) (rule : StreamRule)
    (queueCreated : Bool) : (s.applyStreamRule rule queueCreated).queue.isSome = true ↔
      rule = .on ∧ (s.queue.isSome = true ∨ queueCreated = true) := by
  unfold applyStreamRule
  cases rule with
  | on =>
    cases hq : s.queue with
    | none => cases queueCreated <;> simp [hq, toggle]
    | some queue => simp [hq]
  | off =>
    cases hq : s.queue with
    | none => simp [hq]
    | some queue => simp [toggle]

namespace SharedStream

theorem applyStreamRule_strongCount (c : SharedStream) (rule : StreamRule)
    (failure : Option QueueFailure) : (c.applyStreamRule rule failure).strongCount =
      c.strongCount := by
  simp only [strongCount, applyStreamRule, EventStream.undropped,
    EventStream.applyStreamRule_publishers]

theorem ruleResult_ok_iff (c : SharedStream) (rule : StreamRule) (failure : Option QueueFailure) :
    (c.ruleResult rule failure).isOk = true ↔
      rule = .off ∨ c.stream.queue.isSome = true ∨ failure = none := by
  unfold ruleResult
  cases rule with
  | on => cases c.stream.queue <;> cases failure <;> simp [Except.isOk, Except.toBool]
  | off => simp [Except.isOk, Except.toBool]

/-- Applying the rule of the policy makes the stream follow it, whether or not that succeeds. -/
theorem applyStreamRule_follows (c : SharedStream) (policy : StreamPolicy)
    (failure : Option QueueFailure) :
    (c.applyStreamRule (policy.streamRule c.streamName) failure).Follows policy := by
  refine ⟨_, rfl, ?_, ?_⟩
  · intro hok
    rw [ruleResult_ok_iff] at hok
    simp only [applyStreamRule, EventStream.applyStreamRule_queue, Option.isNone_iff_eq_none]
    cases hrule : policy.streamRule c.streamName with
    | on => simpa [hrule] using hok
    | off => simp
  · intro hfailed
    rw [Bool.eq_false_iff, ne_eq, ruleResult_ok_iff] at hfailed
    have hqueue := c.stream.applyStreamRule_queue (policy.streamRule c.streamName) failure.isNone
    rw [Option.isNone_iff_eq_none] at hqueue
    rw [← Option.not_isSome_iff_eq_none]
    intro hsome
    have := hqueue.mp hsome
    tauto

/-- Actions need a handle and change neither the name, nor the queue, nor what was applied. -/
theorem handle_cases {action : HandleAction} (h : c.handle accepts action = some c') :
    0 < c.strongCount ∧ c'.streamName = c.streamName ∧ c'.lastApplied = c.lastApplied ∧
      c'.stream.queue = c.stream.queue ∧ c'.obtained = c.obtained := by
  unfold strongCount
  cases action with
  | cloneFactory =>
    obtain ⟨hpos, hc'⟩ := Option.ite_none_right_eq_some.mp h
    cases hc'
    exact ⟨by omega, rfl, rfl, rfl, rfl⟩
  | dropFactory =>
    obtain ⟨hpos, hc'⟩ := Option.ite_none_right_eq_some.mp h
    cases hc'
    exact ⟨by omega, rfl, rfl, rfl, rfl⟩
  | tryCreatePublisher =>
    obtain ⟨hpos, hc'⟩ := Option.ite_none_right_eq_some.mp h
    cases hc'
    refine ⟨by omega, rfl, rfl, ?_, rfl⟩
    unfold EventStream.tryCreatePublisher
    split
    · rfl
    · rfl
  | publisher i action =>
    obtain ⟨stream, hstream, hc'⟩ := Option.bind_eq_some_iff.mp h
    obtain ⟨p, hp, hstream⟩ := Option.bind_eq_some_iff.mp hstream
    obtain ⟨p', hact, hstream⟩ := Option.bind_eq_some_iff.mp hstream
    cases hstream
    cases hc'
    -- A publisher whose drop has finished refuses every action.
    have hphase : p.phase ≠ .dropped := by
      intro hdropped
      cases action <;> simp [Publisher.act, hdropped] at hact
    have hpos : 0 < c.stream.undropped :=
      List.countP_pos_iff.mpr ⟨p, List.mem_of_getElem? hp, by simpa using hphase⟩
    exact ⟨by omega, rfl, rfl, rfl, rfl⟩

theorem release_strongCount (c : SharedStream) : c.release.strongCount = c.strongCount := by
  unfold release
  split
  · rfl
  · rfl

theorem release_streamName (c : SharedStream) : c.release.streamName = c.streamName := by
  unfold release
  split
  · rfl
  · rfl

theorem release_of_pos (h : 0 < c.strongCount) : c.release = c := if_neg (by omega)

theorem release_queue (h : c.strongCount = 0) : c.release.stream.queue = none := by
  rw [release, if_pos h]

end SharedStream

end Streams

namespace SystemState

section Invariant

variable {accepts} {s s' : SystemState} {c c' d : SharedStream} {i : ℕ} {policy : StreamPolicy}

theorem new_inv : new.Inv where
  inMemory := by simp [new]
  nodup := List.nodup_nil
  registered := by simp [Alive, new]
  names := by simp [Alive, new]
  follows := by simp [Alive, new]
  dropped := by simp [new]

theorem isAlive_iff : s.isAlive i = true ↔ ∃ c, s.Alive i c := by
  unfold isAlive Alive
  cases s.memory[i]? <;> simp

theorem pruneDeadStreams_inv (h : s.Inv) : s.pruneDeadStreams.Inv where
  inMemory i hi := h.inMemory i (List.mem_filter.mp hi).1
  nodup := h.nodup.filter _
  registered ha := List.mem_filter.mpr ⟨h.registered ha, isAlive_iff.mpr ⟨_, ha⟩⟩
  names := h.names
  follows := h.follows
  dropped := h.dropped

/-- A dead stream in new memory changes nothing for the others. -/
theorem alive_append (hd : d.strongCount = 0) :
    ({ s with memory := s.memory ++ [d] } : SystemState).Alive i c ↔ s.Alive i c := by
  constructor
  · rintro ⟨hc, hpos⟩
    rcases get_alloc hc with hold | ⟨-, rfl⟩
    · exact ⟨hold, hpos⟩
    · omega
  · rintro ⟨hc, hpos⟩
    exact ⟨alloc_get hc, hpos⟩

theorem append_dead_inv (h : s.Inv) (hd : d.strongCount = 0) (hqueue : d.stream.queue = none) :
    ({ s with memory := s.memory ++ [d] } : SystemState).Inv where
  inMemory i hi := by
    have := h.inMemory i hi
    rw [List.length_append]
    omega
  nodup := h.nodup
  registered ha := h.registered ((alive_append hd).mp ha)
  names ha ha' := h.names ((alive_append hd).mp ha) ((alive_append hd).mp ha')
  follows ha := h.follows ((alive_append hd).mp ha)
  dropped hc hzero := by
    rcases get_alloc hc with hold | ⟨-, rfl⟩
    · exact h.dropped hold hzero
    · exact hqueue

/-- Registering a stream whose name is free and which follows the policy. -/
theorem append_registered_inv (h : s.Inv) (hfollows : d.Follows s.manager.streamPolicy)
    (hpos : 0 < d.strongCount) (hfree : ∀ {i c}, s.Alive i c → c.streamName ≠ d.streamName) :
    (⟨s.memory ++ [d], { s.manager with streams := s.manager.streams ++ [s.memory.length] }⟩ :
      SystemState).Inv where
  inMemory i hi := by
    rw [List.length_append, List.length_singleton]
    rcases List.mem_append.mp hi with hi | hi
    · have := h.inMemory i hi
      omega
    · rw [List.mem_singleton.mp hi]
      omega
  nodup := by
    rw [List.nodup_append]
    refine ⟨h.nodup, by simp, ?_⟩
    intro i hi j hj
    rw [List.mem_singleton.mp hj]
    exact (h.inMemory i hi).ne
  registered ha := by
    rcases get_alloc ha.1 with hold | ⟨rfl, -⟩
    · exact List.mem_append_left _ (h.registered ⟨hold, ha.2⟩)
    · exact List.mem_append_right _ (List.mem_singleton.mpr rfl)
  names ha ha' hname := by
    rcases get_alloc ha.1 with hold | ⟨rfl, rfl⟩
    · rcases get_alloc ha'.1 with hold' | ⟨rfl, rfl⟩
      · exact h.names ⟨hold, ha.2⟩ ⟨hold', ha'.2⟩ hname
      · exact absurd hname (hfree ⟨hold, ha.2⟩)
    · rcases get_alloc ha'.1 with hold' | ⟨rfl, -⟩
      · exact absurd hname.symm (hfree ⟨hold', ha'.2⟩)
      · rfl
  follows ha := by
    rcases get_alloc ha.1 with hold | ⟨-, rfl⟩
    · exact h.follows ⟨hold, ha.2⟩
    · exact hfollows
  dropped hc hzero := by
    rcases get_alloc hc with hold | ⟨-, rfl⟩
    · exact h.dropped hold hzero
    · omega

/-- A change in place keeps the invariant when what is alive afterwards was alive before under the
same name, and follows the policy that is now set. -/
theorem Inv.carry (h : s.Inv) (hstreams : s'.manager.streams = s.manager.streams)
    (hlength : s'.memory.length = s.memory.length)
    (hbefore : ∀ {j x}, s'.Alive j x → ∃ y, s.Alive j y ∧ y.streamName = x.streamName)
    (hfollows : ∀ {j x}, s'.Alive j x → x.Follows s'.manager.streamPolicy)
    (hdropped : ∀ {j : ℕ} {x : SharedStream}, s'.memory[j]? = some x → x.strongCount = 0 →
      x.stream.queue = none) : s'.Inv where
  inMemory j hj := by
    rw [hlength]
    exact h.inMemory j (hstreams ▸ hj)
  nodup := hstreams ▸ h.nodup
  registered hx := by
    obtain ⟨y, hy, -⟩ := hbefore hx
    rw [hstreams]
    exact h.registered hy
  names hx hx' heq := by
    obtain ⟨y, hy, hxy⟩ := hbefore hx
    obtain ⟨y', hy', hxy'⟩ := hbefore hx'
    exact h.names hy hy' (hxy.trans (heq.trans hxy'.symm))
  follows := hfollows
  dropped := hdropped

/-- Replacing a stream that was alive by one that still follows the policy, or was dropped. -/
theorem set_inv (h : s.Inv) (hc : s.Alive i c) (hname : c'.streamName = c.streamName)
    (hfollows : 0 < c'.strongCount → c'.Follows s.manager.streamPolicy)
    (hqueue : c'.strongCount = 0 → c'.stream.queue = none) :
    ({ s with memory := s.memory.set i c' } : SystemState).Inv := by
  refine h.carry (by rfl) List.length_set ?_ ?_ ?_
  · intro j x hx
    rcases get_set hx.1 with ⟨rfl, rfl⟩ | ⟨-, hold⟩
    · exact ⟨c, hc, hname.symm⟩
    · exact ⟨x, ⟨hold, hx.2⟩, rfl⟩
  · intro j x hx
    rcases get_set hx.1 with ⟨-, rfl⟩ | ⟨-, hold⟩
    · exact hfollows hx.2
    · exact h.follows ⟨hold, hx.2⟩
  · intro j x hx hzero
    rcases get_set hx with ⟨-, rfl⟩ | ⟨-, hold⟩
    · exact hqueue hzero
    · exact h.dropped hold hzero

theorem handle_inv {action : HandleAction} (h : s.Inv) (hc : s.memory[i]? = some c)
    (hact : c.handle accepts action = some c') :
    ({ s with memory := s.memory.set i c'.release } : SystemState).Inv := by
  obtain ⟨hpos, hname, happlied, hqueue, -⟩ := SharedStream.handle_cases hact
  have hfollows := h.follows ⟨hc, hpos⟩
  apply set_inv h ⟨hc, hpos⟩
  · rw [c'.release_streamName, hname]
  · intro hpos'
    rw [c'.release_strongCount] at hpos'
    rw [SharedStream.release_of_pos hpos']
    rwa [SharedStream.Follows, hname, happlied, hqueue]
  · intro hzero
    rw [c'.release_strongCount] at hzero
    exact SharedStream.release_queue hzero

/-- What the loop over the registered streams does to the memory: handles and names stay, and each
visited stream that is alive follows the policy. -/
theorem applyPolicy_spec (policy : StreamPolicy) (is : List ℕ)
    (failures : List (Option QueueFailure)) (memory : List SharedStream) :
    (applyPolicy policy is failures memory).length = memory.length ∧
      ∀ {j : ℕ} {c' : SharedStream}, (applyPolicy policy is failures memory)[j]? = some c' →
        ∃ c, memory[j]? = some c ∧ c'.streamName = c.streamName ∧
          c'.strongCount = c.strongCount ∧ (c.strongCount = 0 → c' = c) ∧
          (0 < c.strongCount → j ∈ is → c'.Follows policy) ∧
          (j ∉ is → c' = c) := by
  induction is generalizing failures memory with
  | nil =>
    refine ⟨rfl, ?_⟩
    intro j c' hc'
    exact ⟨c', hc', rfl, rfl, fun _ => rfl, fun _ hj => absurd hj List.not_mem_nil, fun _ => rfl⟩
  | cons i is ih =>
    rw [applyPolicy]
    obtain ⟨hlength, hrest⟩ := ih failures.tail (memory.modify i fun c =>
      if 0 < c.strongCount then
        c.applyStreamRule (policy.streamRule c.streamName) (failures.headD none)
      else c)
    refine ⟨by rw [hlength, List.length_modify], ?_⟩
    intro j c' hc'
    obtain ⟨c₁, hc₁, hname, hcount, hdead, halive, hother⟩ := hrest hc'
    rw [List.getElem?_modify] at hc₁
    obtain ⟨c, hc, hc₁⟩ := Option.map_eq_some_iff.mp hc₁
    refine ⟨c, hc, ?_⟩
    by_cases hvisited : i = j ∧ 0 < c.strongCount
    · obtain ⟨rfl, hpos⟩ := hvisited
      rw [if_pos rfl, if_pos hpos] at hc₁
      have hcount₁ : c₁.strongCount = c.strongCount := by
        rw [← hc₁, c.applyStreamRule_strongCount]
      have hname₁ : c₁.streamName = c.streamName := by
        rw [← hc₁]
        rfl
      refine ⟨hname.trans hname₁, hcount.trans hcount₁, fun hzero => by omega, ?_, ?_⟩
      · intro _ _
        by_cases hagain : i ∈ is
        · exact halive (by omega) hagain
        · rw [hother hagain, ← hc₁]
          exact c.applyStreamRule_follows policy _
      · intro hnot
        exact absurd List.mem_cons_self hnot
    · obtain rfl : c = c₁ := by
        rw [← hc₁]
        split
        · next hij => rw [if_neg fun hpos => hvisited ⟨hij, hpos⟩]
        · rfl
      refine ⟨hname, hcount, hdead, ?_, ?_⟩
      · intro hpos hj
        rcases List.mem_cons.mp hj with rfl | hj
        · exact absurd ⟨rfl, hpos⟩ hvisited
        · exact halive hpos hj
      · intro hnot
        exact hother fun hj => hnot (List.mem_cons_of_mem _ hj)

theorem setStreamPolicy_inv (h : s.Inv) (policy : StreamPolicy)
    (failures : List (Option QueueFailure)) : (s.setStreamPolicy policy failures).Inv := by
  have hp := pruneDeadStreams_inv h
  obtain ⟨hlength, hspec⟩ := applyPolicy_spec policy s.pruneDeadStreams.manager.streams failures
    s.pruneDeadStreams.memory
  refine hp.carry (by rfl) hlength ?_ ?_ ?_
  · intro j x hx
    obtain ⟨y, hy, hname, hcount, -⟩ := hspec hx.1
    exact ⟨y, ⟨hy, hcount ▸ hx.2⟩, hname.symm⟩
  · intro j x hx
    obtain ⟨y, hy, -, hcount, -, halive, -⟩ := hspec hx.1
    have hpos : 0 < y.strongCount := hcount ▸ hx.2
    exact halive hpos (hp.registered ⟨hy, hpos⟩)
  · intro j x hx hzero
    obtain ⟨y, hy, -, hcount, hdead, -⟩ := hspec hx
    rw [hdead (hcount ▸ hzero)]
    exact hp.dropped hy (hcount ▸ hzero)

theorem nameInUse_iff (h : s.Inv) (streamName : StreamName) :
    s.nameInUse streamName = true ↔ ∃ i c, s.Alive i c ∧ c.streamName = streamName := by
  unfold nameInUse Alive
  rw [List.any_eq_true]
  constructor
  · rintro ⟨i, -, hi⟩
    rw [Option.any_eq_true] at hi
    obtain ⟨c, hc, hname⟩ := hi
    rw [Bool.and_eq_true, decide_eq_true_eq, decide_eq_true_eq] at hname
    exact ⟨i, c, ⟨hc, hname.1⟩, hname.2⟩
  · rintro ⟨i, c, hc, hname⟩
    refine ⟨i, h.registered hc, ?_⟩
    rw [Option.any_eq_true]
    exact ⟨c, hc.1, by simp [hc.2, hname]⟩

/-- The ways `create_stream` can end: an error leaves a dead stream behind, and success registers
one that follows the policy. -/
theorem createStream_cases (s : SystemState) (streamName : StreamName) (config : StreamConfig)
    (failure : Option QueueFailure) :
    (∃ e d, s.createStream streamName config failure =
        (.error e, { s.pruneDeadStreams with memory := s.memory ++ [d] }) ∧
      d.strongCount = 0 ∧ d.stream.queue = none ∧
      (e = .streamNameAlreadyInUse ↔ s.pruneDeadStreams.nameInUse streamName = true)) ∨
    (∃ d, s.createStream streamName config failure = (.ok s.memory.length,
        ⟨s.memory ++ [d], { s.pruneDeadStreams.manager with
          streams := s.pruneDeadStreams.manager.streams ++ [s.memory.length] }⟩) ∧
      s.pruneDeadStreams.nameInUse streamName = false ∧ d.streamName = streamName ∧
      d.obtained = true ∧ d.strongCount = 1 ∧ d.Follows s.manager.streamPolicy) := by
  have hdead (c : SharedStream) (hc : c.stream.publishers = []) :
      { c with factories := 0 }.release.strongCount = 0 ∧
        { c with factories := 0 }.release.stream.queue = none := by
    have hzero : { c with factories := 0 }.strongCount = 0 := by
      simp [SharedStream.strongCount, EventStream.undropped, hc]
    exact ⟨by rw [SharedStream.release_strongCount, hzero], SharedStream.release_queue hzero⟩
  have hpublishers (rule : StreamRule) (created : Bool) :
      ((EventStream.new config).applyStreamRule rule created).publishers = [] := by
    rw [EventStream.applyStreamRule_publishers]
    rfl
  unfold createStream
  by_cases hname : s.pruneDeadStreams.nameInUse streamName = true
  · left
    simp only [hname, ↓reduceIte]
    obtain ⟨hcount, hqueue⟩ := hdead ⟨streamName, EventStream.new config, 1, false, none⟩ rfl
    exact ⟨_, _, rfl, hcount, hqueue, by simp⟩
  · simp only [hname, Bool.false_eq_true, ↓reduceIte]
    split
    · next e he =>
      left
      obtain ⟨hcount, hqueue⟩ := hdead
        (SharedStream.applyStreamRule ⟨streamName, EventStream.new config, 1, false, none⟩
          (s.pruneDeadStreams.manager.streamPolicy.streamRule streamName) failure)
        (hpublishers _ _)
      refine ⟨_, _, rfl, hcount, hqueue, ?_⟩
      have hfailure : e ≠ .streamNameAlreadyInUse := by
        rintro rfl
        unfold SharedStream.ruleResult at he
        split at he <;> cases he
      simp [hfailure]
    · next hok =>
      right
      refine ⟨_, rfl, by simp, rfl, rfl, ?_, ?_⟩
      · simp [SharedStream.strongCount, SharedStream.applyStreamRule, EventStream.undropped,
          hpublishers]
      · exact SharedStream.applyStreamRule_follows
          ⟨streamName, EventStream.new config, 1, true, none⟩ s.manager.streamPolicy failure

theorem createStream_inv (h : s.Inv) (streamName : StreamName) (config : StreamConfig)
    (failure : Option QueueFailure) : (s.createStream streamName config failure).2.Inv := by
  have hp := pruneDeadStreams_inv h
  rcases createStream_cases s streamName config failure with
    ⟨e, d, heq, hcount, hqueue, -⟩ | ⟨d, heq, hfree, hname, -, hcount, hfollows⟩
  · rw [heq]
    exact append_dead_inv hp hcount hqueue
  · rw [heq]
    refine append_registered_inv hp hfollows (by omega) ?_
    intro i c hc hsame
    have hused := (nameInUse_iff hp streamName).mpr ⟨i, c, hc, hsame.trans hname⟩
    rw [hfree] at hused
    cases hused

/-- Every action keeps the invariant. -/
theorem step_inv {action : SystemAction} (hstep : s.step accepts action = some s') (h : s.Inv) :
    s'.Inv := by
  cases action with
  | createStream streamName config failure =>
    cases hstep
    exact createStream_inv h streamName config failure
  | setStreamPolicy policy failures =>
    cases hstep
    exact setStreamPolicy_inv h policy failures
  | handle i action =>
    obtain ⟨c, hc, hstep⟩ := Option.bind_eq_some_iff.mp hstep
    obtain ⟨c', hact, hstep⟩ := Option.bind_eq_some_iff.mp hstep
    cases hstep
    exact handle_inv h hc hact

theorem createStream_streamPolicy (s : SystemState) (streamName : StreamName)
    (config : StreamConfig) (failure : Option QueueFailure) :
    (s.createStream streamName config failure).2.manager.streamPolicy = s.manager.streamPolicy := by
  rcases createStream_cases s streamName config failure with ⟨e, d, heq, -⟩ | ⟨d, heq, -⟩
  · rw [heq]
    rfl
  · rw [heq]
    rfl

theorem step_streamPolicy {action : SystemAction} (hstep : s.step accepts action = some s') :
    s'.manager.streamPolicy = action.policy?.getD s.manager.streamPolicy := by
  cases action with
  | createStream streamName config failure =>
    cases hstep
    exact createStream_streamPolicy s streamName config failure
  | setStreamPolicy policy failures =>
    cases hstep
    exact setStreamPolicy_streamPolicy s policy failures
  | handle i action =>
    obtain ⟨c, hc, hstep⟩ := Option.bind_eq_some_iff.mp hstep
    obtain ⟨c', hact, hstep⟩ := Option.bind_eq_some_iff.mp hstep
    cases hstep
    rfl

/-- The stored policy is the last one that was set. -/
theorem run_streamPolicy {actions : List SystemAction}
    (h : run (SystemState.step accepts) s actions = some s') :
    s'.manager.streamPolicy =
      (actions.filterMap SystemAction.policy?).getLastD s.manager.streamPolicy := by
  induction actions generalizing s with
  | nil =>
    cases h
    rfl
  | cons action actions ih =>
    obtain ⟨u, hstep, hrun⟩ := Option.bind_eq_some_iff.mp h
    rw [ih hrun, step_streamPolicy hstep]
    cases hset : action.policy? with
    | none => rw [List.filterMap_cons_none hset, Option.getD_none]
    | some policy => rw [List.filterMap_cons_some hset, Option.getD_some, List.getLastD_cons]

end Invariant

/-- The live registered streams, what is in them and the policy are the same. -/
structure SameStreams (s s' : SystemState) : Prop where
  registered : ∀ i, (i ∈ s'.manager.streams ∧ ∃ c, s'.Alive i c) ↔
    (i ∈ s.manager.streams ∧ ∃ c, s.Alive i c)
  streams : ∀ i ∈ s.manager.streams, ∀ c, s.Alive i c → s'.memory[i]? = some c
  policy : s'.manager.streamPolicy = s.manager.streamPolicy

/-- The policy governs the streams: names are owned, the policy is followed, and `create_stream`
fails without a trace. -/
structure Governed (s : SystemState) : Prop where
  registered : ∀ i c, s.Alive i c → c.obtained = true → s.manager.streams.count i = 1
  names : ∀ i ∈ s.manager.streams, ∀ j ∈ s.manager.streams, ∀ c c', s.Alive i c → s.Alive j c' →
    c.streamName = c'.streamName → i = j
  follows : ∀ i ∈ s.manager.streams, ∀ c, s.Alive i c → c.Follows s.manager.streamPolicy
  disabled : ∀ c ∈ s.memory, s.manager.streamPolicy.streamRule c.streamName = .off →
    c.stream.queue = none
  created : ∀ streamName config failure i s', s.createStream streamName config failure =
    (.ok i, s') → ∃ c, s'.Alive i c ∧ c.obtained = true ∧ c.streamName = streamName
  failed : ∀ streamName config failure e s', s.createStream streamName config failure =
    (.error e, s') → s.SameStreams s'
  inUse : ∀ streamName config failure,
    (s.createStream streamName config failure).1 = .error .streamNameAlreadyInUse ↔
      ∃ i c, s.Alive i c ∧ c.streamName = streamName

section Governed

variable {s : SystemState} {c : SharedStream} {d : SharedStream}

theorem queue_eq_none_of_follows {policy : StreamPolicy} (h : c.Follows policy)
    (hoff : policy.streamRule c.streamName = .off) : c.stream.queue = none := by
  obtain ⟨ok, -, hok, hfailed⟩ := h
  cases ok with
  | false => exact hfailed rfl
  | true =>
    have hqueue := hok rfl
    rw [hoff] at hqueue
    rw [← Option.not_isSome_iff_eq_none]
    intro hsome
    cases hqueue.mp hsome

/-- A dead stream in new memory and dead references pruned are not noticed. -/
theorem sameStreams_append_dead (hd : d.strongCount = 0) :
    s.SameStreams { s.pruneDeadStreams with memory := s.memory ++ [d] } := by
  have halive {i : ℕ} {c : SharedStream} :
      ({ s.pruneDeadStreams with memory := s.memory ++ [d] } : SystemState).Alive i c ↔
        s.Alive i c := alive_append (s := s) hd
  constructor
  case registered =>
    intro i
    simp only [halive]
    constructor
    · rintro ⟨hi, hc⟩
      exact ⟨(List.mem_filter.mp hi).1, hc⟩
    · rintro ⟨hi, hc⟩
      exact ⟨List.mem_filter.mpr ⟨hi, isAlive_iff.mpr hc⟩, hc⟩
  case streams =>
    intro i _ c hc
    exact (halive.mpr hc).1
  case policy => rfl

theorem Inv.governed (h : s.Inv) : s.Governed := by
  have hp := pruneDeadStreams_inv h
  constructor
  case registered =>
    intro i c hc _
    exact List.count_eq_one_of_mem h.nodup (h.registered hc)
  case names =>
    intro i _ j _ c c' hc hc' hname
    exact h.names hc hc' hname
  case follows =>
    intro i _ c hc
    exact h.follows hc
  case disabled =>
    intro c hc hoff
    obtain ⟨i, hi⟩ := List.getElem?_of_mem hc
    rcases Nat.eq_zero_or_pos c.strongCount with hzero | hpos
    · exact h.dropped hi hzero
    · exact queue_eq_none_of_follows (h.follows ⟨hi, hpos⟩) hoff
  case created =>
    intro streamName config failure i s' heq
    rcases createStream_cases s streamName config failure with
      ⟨e, d, heq', -⟩ | ⟨d, heq', -, hname, hobtained, hcount, -⟩
    · rw [heq'] at heq
      cases heq
    · rw [heq'] at heq
      cases heq
      exact ⟨d, ⟨List.getElem?_concat_length, by omega⟩, hobtained, hname⟩
  case failed =>
    intro streamName config failure e s' heq
    rcases createStream_cases s streamName config failure with
      ⟨e', d, heq', hcount, -⟩ | ⟨d, heq', -⟩
    · rw [heq'] at heq
      cases heq
      exact sameStreams_append_dead hcount
    · rw [heq'] at heq
      cases heq
  case inUse =>
    intro streamName config failure
    have hused : s.pruneDeadStreams.nameInUse streamName = true ↔
        ∃ i c, s.Alive i c ∧ c.streamName = streamName := nameInUse_iff hp streamName
    rw [← hused]
    rcases createStream_cases s streamName config failure with
      ⟨e, d, heq, -, -, hiff⟩ | ⟨d, heq, hfree, -⟩
    · rw [heq, ← hiff]
      simp
    · rw [heq, hfree]
      simp

end Governed

end SystemState

/-- A stream is created and cannot be created again until its last handle is gone. -/
def recreatedActions : List SystemAction :=
  [.setStreamPolicy ⟨.on, []⟩ [], .createStream networkGossip ⟨1, by decide⟩ none,
    .createStream networkGossip ⟨1, by decide⟩ none, .handle 0 .tryCreatePublisher,
    .handle 0 .dropFactory, .handle 0 (.publisher 0 .dropRelease),
    .handle 0 (.publisher 0 .dropReturnSlot), .createStream networkGossip ⟨1, by decide⟩ none]

end AgaveSdk.EventSystem
