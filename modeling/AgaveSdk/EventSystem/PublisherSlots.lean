import AgaveSdk.Library.Runs

/-! Publisher slots and queue lanes of one event stream. Each action is a critical section of the
code, so a run is an interleaving of any number of publishers with the stream policy. -/
namespace AgaveSdk.EventSystem
open Runs

def usizeMax : ℕ := 2 ^ 64 - 1

def saturatingAdd (x y : ℕ) : ℕ := min (x + y) usizeMax

inductive StreamRule where
  | on
  | off
  deriving DecidableEq, Repr

/-- Where a publisher is: between two calls, in the middle of `replace_producer`, in the middle of
its drop, or dropped. -/
inductive Phase where
  | live
  | replacing
  | dropping
  | dropped
  deriving DecidableEq, Repr

/-- A publisher. Its producer is known by the queue it belongs to. The last field is a ghost: how
often the stream had been toggled when the publisher last loaded the generation. -/
structure Publisher where
  queueGeneration : UInt64
  producer : Option ℕ
  phase : Phase
  seenToggles : ℕ
  deriving DecidableEq, Repr

structure StreamConfig where
  publisherSlots : ℕ
  publisherSlots_le : publisherSlots ≤ usizeMax

/-- A stream with its publishers. The last two fields are ghosts: they name fresh queues and count
how often the queue was created or dropped. -/
structure EventStream where
  streamConfig : StreamConfig
  queueGeneration : UInt64
  queue : Option ℕ
  remainingPublisherSlots : ℕ
  publishers : List Publisher
  createdQueues : ℕ
  toggles : ℕ

-- what the queue library answers: whether a queue with this many producer slots and this many
-- producers alive gives out another producer
variable (accepts : ℕ → ℕ → Bool)

namespace EventStream

/-- A disabled stream, which has no queue until a stream rule enables it. -/
def new (streamConfig : StreamConfig) : EventStream where
  streamConfig := streamConfig
  queueGeneration := 0
  queue := none
  remainingPublisherSlots := streamConfig.publisherSlots
  publishers := []
  createdQueues := 0
  toggles := 0

/-- The producers of a queue that publishers hold. -/
def aliveProducers (s : EventStream) (queue : ℕ) : ℕ :=
  s.publishers.countP fun p => p.producer = some queue

/-- A producer on the queue. An error of the queue becomes `None`, as for a disabled stream. -/
def createProducer (s : EventStream) : Option ℕ :=
  s.queue.bind fun queue =>
    if accepts s.streamConfig.publisherSlots (s.aliveProducers queue) then some queue else none

/-- Replaces the queue and increments the generation. -/
def toggle (s : EventStream) (queue : Option ℕ) : EventStream :=
  { s with
    queue := queue
    queueGeneration := s.queueGeneration + 1
    toggles := s.toggles + 1 }

/-- Creating the queue may fail, which leaves the stream as it was. -/
def applyStreamRule (s : EventStream) (rule : StreamRule) (queueCreated : Bool) : EventStream :=
  match rule, s.queue with
  | .on, none =>
      if queueCreated then
        { s.toggle (some s.createdQueues) with createdQueues := s.createdQueues + 1 }
      else s
  | .off, some _ => s.toggle none
  | .on, some _ => s
  | .off, none => s

def tryCreatePublisher (s : EventStream) : Option EventStream :=
  if s.remainingPublisherSlots < 1 then none
  else some { s with
    remainingPublisherSlots := s.remainingPublisherSlots - 1
    publishers := s.publishers ++
      [⟨s.queueGeneration, s.createProducer accepts, .live, s.toggles⟩] }

end EventStream

/-- What a publisher does: both halves of `replace_producer`, a call that finds the generation up
to date, and both halves of the drop. -/
inductive PublisherAction where
  | replaceProducerRelease
  | replaceProducerCreate
  | producer
  | dropRelease
  | dropReturnSlot
  deriving DecidableEq, Repr

/-- The publisher after an action, where its phase allows the action. -/
def Publisher.act (s : EventStream) (p : Publisher) : PublisherAction → Option Publisher
  | .replaceProducerRelease =>
      if p.phase = .live ∧ s.queueGeneration ≠ p.queueGeneration then
        some { p with producer := none, phase := .replacing }
      else none
  | .replaceProducerCreate =>
      if p.phase = .replacing then
        some ⟨s.queueGeneration, s.createProducer accepts, .live, s.toggles⟩
      else none
  | .producer =>
      if p.phase = .live ∧ s.queueGeneration = p.queueGeneration then some p else none
  | .dropRelease =>
      if p.phase = .live then some { p with producer := none, phase := .dropping } else none
  | .dropReturnSlot => if p.phase = .dropping then some { p with phase := .dropped } else none

/-- The slots after an action: only the second half of a drop returns one. -/
def EventStream.slotsAfter (s : EventStream) : PublisherAction → ℕ
  | .dropReturnSlot => saturatingAdd s.remainingPublisherSlots 1
  | _ => s.remainingPublisherSlots

inductive Action where
  | applyStreamRule (rule : StreamRule) (queueCreated : Bool)
  | tryCreatePublisher
  | publisher (i : ℕ) (action : PublisherAction)
  deriving DecidableEq, Repr

def EventStream.step (s : EventStream) : Action → Option EventStream
  | .applyStreamRule rule queueCreated => some (s.applyStreamRule rule queueCreated)
  | .tryCreatePublisher => s.tryCreatePublisher accepts
  | .publisher i action => do
      let p ← s.publishers[i]?
      let p' ← p.act accepts s action
      return { s with
        remainingPublisherSlots := s.slotsAfter action
        publishers := s.publishers.set i p' }

namespace EventStream

/-- The publishers whose drop has not completed. -/
def undropped (s : EventStream) : ℕ := s.publishers.countP fun p => p.phase ≠ .dropped

end EventStream

/-- The queue after a number of toggles: odd toggles create a queue, even toggles drop it. -/
def queueAfter (toggles : ℕ) : Option ℕ := if toggles % 2 = 1 then some (toggles / 2) else none

/-- A publisher knows the generation it last saw, and between two calls it has a producer on the
queue of that generation. -/
structure Publisher.Inv (p : Publisher) (toggles : ℕ) : Prop where
  seen_le : p.seenToggles ≤ toggles
  generation : p.queueGeneration = UInt64.ofNat p.seenToggles
  producer : p.producer = if p.phase = .live then queueAfter p.seenToggles else none

structure EventStream.Inv (s : EventStream) : Prop where
  slots : s.remainingPublisherSlots + s.undropped = s.streamConfig.publisherSlots
  generation : s.queueGeneration = UInt64.ofNat s.toggles
  queue : s.queue = queueAfter s.toggles
  created : s.createdQueues = (s.toggles + 1) / 2
  publishers : ∀ p ∈ s.publishers, p.Inv s.toggles

section Invariant

variable {accepts : ℕ → ℕ → Bool}
  (haccepts : ∀ slots alive, accepts slots alive = true ↔ alive < slots)
  {s s' : EventStream} {p p' : Publisher} {i : ℕ} {action : PublisherAction}

/-- Everything a publisher can do, and from which phase. -/
theorem act_cases (h : p.act accepts s action = some p') :
    (action = .replaceProducerRelease ∧ p.phase = .live ∧
      p' = { p with producer := none, phase := .replacing }) ∨
    (action = .replaceProducerCreate ∧ p.phase = .replacing ∧
      p' = ⟨s.queueGeneration, s.createProducer accepts, .live, s.toggles⟩) ∨
    (action = .producer ∧ p.phase = .live ∧ p' = p) ∨
    (action = .dropRelease ∧ p.phase = .live ∧
      p' = { p with producer := none, phase := .dropping }) ∨
    (action = .dropReturnSlot ∧ p.phase = .dropping ∧ p' = { p with phase := .dropped }) := by
  cases action with
  | replaceProducerRelease =>
    simp only [Publisher.act, Option.ite_none_right_eq_some, Option.some.injEq] at h
    exact .inl ⟨rfl, h.1.1, h.2.symm⟩
  | replaceProducerCreate =>
    simp only [Publisher.act, Option.ite_none_right_eq_some, Option.some.injEq] at h
    exact .inr (.inl ⟨rfl, h.1, h.2.symm⟩)
  | producer =>
    simp only [Publisher.act, Option.ite_none_right_eq_some, Option.some.injEq] at h
    exact .inr (.inr (.inl ⟨rfl, h.1.1, h.2.symm⟩))
  | dropRelease =>
    simp only [Publisher.act, Option.ite_none_right_eq_some, Option.some.injEq] at h
    exact .inr (.inr (.inr (.inl ⟨rfl, h.1, h.2.symm⟩)))
  | dropReturnSlot =>
    simp only [Publisher.act, Option.ite_none_right_eq_some, Option.some.injEq] at h
    exact .inr (.inr (.inr (.inr ⟨rfl, h.1, h.2.symm⟩)))

theorem queueAfter_succ_of_none {t : ℕ} (h : queueAfter t = none) :
    queueAfter (t + 1) = some ((t + 1) / 2) := by
  unfold queueAfter at h ⊢
  split at h
  · cases h
  · rw [if_pos (by omega)]

theorem queueAfter_succ_of_some {t q : ℕ} (h : queueAfter t = some q) :
    queueAfter (t + 1) = none ∧ (t + 2) / 2 = (t + 1) / 2 := by
  unfold queueAfter at h ⊢
  split at h
  · rw [if_neg (by omega)]
    exact ⟨rfl, by omega⟩
  · cases h

theorem queueAfter_isSome {t : ℕ} : (queueAfter t).isSome ↔ t % 2 = 1 := by
  unfold queueAfter
  split
  · simp_all
  · simp_all

/-- Only publishers between two calls hold a producer. -/
theorem Publisher.Inv.live_of_producer {t queue : ℕ} (h : p.Inv t)
    (hp : p.producer = some queue) : p.phase = .live := by
  by_contra hlive
  rw [h.producer, if_neg hlive] at hp
  cases hp

theorem aliveProducers_le (hinv : s.Inv) (queue : ℕ) : s.aliveProducers queue ≤ s.undropped := by
  apply List.countP_mono_left
  intro p hp hq
  have hlive := (hinv.publishers p hp).live_of_producer (of_decide_eq_true hq)
  rw [hlive]
  rfl

/-- A publisher that has given up its producer but not its slot leaves a lane free. -/
theorem aliveProducers_lt (hinv : s.Inv) (hp : p ∈ s.publishers) (hlive : p.phase ≠ .live)
    (hdropped : p.phase ≠ .dropped) (queue : ℕ) : s.aliveProducers queue < s.undropped := by
  have himp (x : Publisher) (hx : x ∈ s.publishers) :
      decide (x.producer = some queue) = true → decide (x.phase ≠ .dropped) = true := by
    intro hq
    rw [(hinv.publishers x hx).live_of_producer (of_decide_eq_true hq)]
    rfl
  have hnone : decide (p.producer = some queue) = false := by
    apply decide_eq_false
    intro hq
    exact hlive ((hinv.publishers p hp).live_of_producer hq)
  obtain ⟨l₁, l₂, hl⟩ := List.append_of_mem hp
  have h₁ := List.countP_mono_left fun x (hx : x ∈ l₁) => himp x (by simp [hl, hx])
  have h₂ := List.countP_mono_left fun x (hx : x ∈ l₂) => himp x (by simp [hl, hx])
  simp only [EventStream.aliveProducers, EventStream.undropped, hl, List.countP_append,
    List.countP_cons, hnone, decide_eq_true hdropped, Bool.false_eq_true, ↓reduceIte]
  omega

include haccepts

theorem createProducer_eq_queue
    (h : ∀ queue, s.aliveProducers queue < s.streamConfig.publisherSlots) :
    s.createProducer accepts = s.queue := by
  unfold EventStream.createProducer
  cases s.queue with
  | none => rfl
  | some queue => exact if_pos ((haccepts _ _).mpr (h queue))

/-- With a slot left there is a lane left. -/
theorem createProducer_of_slot (hinv : s.Inv) (h : 0 < s.remainingPublisherSlots) :
    s.createProducer accepts = s.queue := by
  apply createProducer_eq_queue haccepts
  intro queue
  have hle := aliveProducers_le hinv queue
  have hslots := hinv.slots
  omega

/-- A publisher in the middle of replacing its producer finds a lane. -/
theorem createProducer_of_replacing (hinv : s.Inv) (hp : p ∈ s.publishers)
    (hphase : p.phase = .replacing) : s.createProducer accepts = s.queue := by
  apply createProducer_eq_queue haccepts
  intro queue
  have hlt := aliveProducers_lt hinv hp (by rw [hphase]; decide) (by rw [hphase]; decide) queue
  have hslots := hinv.slots
  omega

/-- What an action of a publisher preserves. -/
theorem Publisher.Inv.act (hinv : s.Inv) (hp : p ∈ s.publishers)
    (h : p.act accepts s action = some p') : p'.Inv s.toggles := by
  have hpinv := hinv.publishers p hp
  rcases act_cases h with
    ⟨-, -, rfl⟩ | ⟨-, hphase, rfl⟩ | ⟨-, -, rfl⟩ | ⟨-, -, rfl⟩ | ⟨-, hphase, rfl⟩
  · exact ⟨hpinv.seen_le, hpinv.generation, rfl⟩
  · refine ⟨Nat.le_refl _, hinv.generation, ?_⟩
    exact (createProducer_of_replacing haccepts hinv hp hphase).trans hinv.queue
  · exact hpinv
  · exact ⟨hpinv.seen_le, hpinv.generation, rfl⟩
  · refine ⟨hpinv.seen_le, hpinv.generation, ?_⟩
    have hnone := hpinv.producer
    rw [if_neg (by rw [hphase]; decide)] at hnone
    exact hnone

omit haccepts

/-- Only the second half of a drop ends the life of a publisher. -/
theorem act_phase (h : p.act accepts s action = some p') :
    p.phase ≠ .dropped ∧ (p'.phase = .dropped ↔ action = .dropReturnSlot) := by
  rcases act_cases h with ⟨rfl, hphase, rfl⟩ | ⟨rfl, hphase, rfl⟩ | ⟨rfl, hphase, rfl⟩ |
    ⟨rfl, hphase, rfl⟩ | ⟨rfl, hphase, rfl⟩
  · simp [hphase]
  · simp [hphase]
  · simp [hphase]
  · simp [hphase]
  · simp [hphase]

/-- While a drop is under way, the slot it returns is missing from the count. -/
theorem remaining_lt (hinv : s.Inv) (hp : p ∈ s.publishers) (hdropped : p.phase ≠ .dropped) :
    s.remainingPublisherSlots < usizeMax := by
  have hpos : 0 < s.undropped := List.countP_pos_iff.mpr ⟨p, hp, decide_eq_true hdropped⟩
  have hslots := hinv.slots
  have hle := s.streamConfig.publisherSlots_le
  omega

/-- An action keeps the sum of free slots and publishers that are not dropped. -/
theorem slots_act (hinv : s.Inv) (hi : s.publishers[i]? = some p)
    (h : p.act accepts s action = some p') :
    s.slotsAfter action + (s.publishers.set i p').countP (fun p => p.phase ≠ .dropped) =
      s.streamConfig.publisherSlots := by
  obtain ⟨hlt, hget⟩ := List.getElem?_eq_some_iff.mp hi
  obtain ⟨hdropped, hreturn⟩ := act_phase h
  have hp : p ∈ s.publishers := List.mem_of_getElem? hi
  have hpos : 0 < s.undropped := List.countP_pos_iff.mpr ⟨p, hp, decide_eq_true hdropped⟩
  have hslots := hinv.slots
  have hset : (s.publishers.set i p').countP (fun p => p.phase ≠ .dropped) =
      s.undropped - 1 + if p'.phase ≠ .dropped then 1 else 0 := by
    rw [List.countP_set hlt, hget]
    simp [hdropped, EventStream.undropped]
  rw [hset]
  by_cases haction : action = .dropReturnSlot
  · have hroom := remaining_lt hinv hp hdropped
    rw [if_neg (not_not.mpr (hreturn.mpr haction)), haction, EventStream.slotsAfter, saturatingAdd]
    omega
  · have hkeep : s.slotsAfter action = s.remainingPublisherSlots := by
      cases action with
      | dropReturnSlot => exact absurd rfl haction
      | _ => rfl
    rw [if_pos fun hd => haction (hreturn.mp hd), hkeep]
    omega

theorem Publisher.Inv.mono {t t' : ℕ} (h : p.Inv t) (hle : t ≤ t') : p.Inv t' :=
  ⟨Nat.le_trans h.seen_le hle, h.generation, h.producer⟩

theorem new_inv (config : StreamConfig) : (EventStream.new config).Inv where
  slots := Nat.add_zero _
  generation := rfl
  queue := rfl
  created := show 0 = (0 + 1) / 2 by decide
  publishers _ hp := absurd hp List.not_mem_nil

/-- A toggle leaves the publishers on the queues they know. -/
theorem applyStreamRule_inv (hinv : s.Inv) (rule : StreamRule) (queueCreated : Bool) :
    (s.applyStreamRule rule queueCreated).Inv := by
  have hqueue := hinv.queue
  have hnext : s.queueGeneration + 1 = UInt64.ofNat (s.toggles + 1) := by
    rw [hinv.generation, UInt64.ofNat_add]
    rfl
  have hpublishers (p : Publisher) (hp : p ∈ s.publishers) : p.Inv (s.toggles + 1) :=
    (hinv.publishers p hp).mono (Nat.le_succ _)
  unfold EventStream.applyStreamRule
  split
  · next hnone =>
    split
    · rw [hnone] at hqueue
      refine ⟨hinv.slots, hnext, ?_, ?_, hpublishers⟩
      · change some s.createdQueues = queueAfter (s.toggles + 1)
        rw [queueAfter_succ_of_none hqueue.symm, hinv.created]
      · have hcreated := hinv.created
        change s.createdQueues + 1 = (s.toggles + 1 + 1) / 2
        unfold queueAfter at hqueue
        split at hqueue
        · cases hqueue
        · omega
    · exact hinv
  · next queue hsome =>
    rw [hsome] at hqueue
    obtain ⟨hafter, hcreated⟩ := queueAfter_succ_of_some hqueue.symm
    exact ⟨hinv.slots, hnext, hafter.symm, hinv.created.trans hcreated.symm, hpublishers⟩
  · exact hinv
  · exact hinv

include haccepts

theorem tryCreatePublisher_inv (hinv : s.Inv) (h : s.tryCreatePublisher accepts = some s') :
    s'.Inv := by
  unfold EventStream.tryCreatePublisher at h
  split at h
  · cases h
  · next hslot =>
    cases h
    have hproducer := createProducer_of_slot haccepts hinv (by omega)
    have hslots := hinv.slots
    refine ⟨?_, hinv.generation, hinv.queue, hinv.created, ?_⟩
    · rw [EventStream.undropped, List.countP_append]
      change s.remainingPublisherSlots - 1 + (s.undropped + 1) = s.streamConfig.publisherSlots
      omega
    · intro p hp
      rcases List.mem_append.mp hp with hold | hnew
      · exact hinv.publishers p hold
      · rw [List.mem_singleton.mp hnew]
        exact ⟨Nat.le_refl _, hinv.generation, hproducer.trans hinv.queue⟩

/-- Every step keeps the invariant. -/
theorem step_inv {a : Action} (h : s.step accepts a = some s') (hinv : s.Inv) : s'.Inv := by
  cases a with
  | applyStreamRule rule queueCreated =>
    cases h
    exact applyStreamRule_inv hinv rule queueCreated
  | tryCreatePublisher => exact tryCreatePublisher_inv haccepts hinv h
  | publisher i action =>
    obtain ⟨p, hi, h⟩ := Option.bind_eq_some_iff.mp h
    obtain ⟨p', hact, h⟩ := Option.bind_eq_some_iff.mp h
    cases h
    refine ⟨slots_act hinv hi hact, hinv.generation, hinv.queue, hinv.created, ?_⟩
    intro x hx
    rcases List.mem_or_eq_of_mem_set hx with hold | rfl
    · exact hinv.publishers x hold
    · have hnew : x.Inv s.toggles :=
        Publisher.Inv.act haccepts hinv (List.mem_of_getElem? hi) hact
      exact hnew

omit haccepts

/-- A publisher that finds its generation up to date has a producer exactly while the stream has a
queue, and it is a producer on that queue unless the counter of generations went around. -/
theorem producer_up_to_date (hinv : s.Inv) (hp : p ∈ s.publishers) (hlive : p.phase = .live)
    (hgeneration : p.queueGeneration = s.queueGeneration) :
    (p.producer.isSome ↔ s.queue.isSome) ∧
      (s.toggles < p.seenToggles + 2 ^ 64 → p.producer = s.queue) := by
  have hpinv := hinv.publishers p hp
  have hproducer := hpinv.producer
  have hle := hpinv.seen_le
  rw [if_pos hlive] at hproducer
  have hmod : p.seenToggles % 2 ^ 64 = s.toggles % 2 ^ 64 := by
    rw [hpinv.generation, hinv.generation] at hgeneration
    have hnat := congrArg UInt64.toNat hgeneration
    rwa [UInt64.toNat_ofNat', UInt64.toNat_ofNat'] at hnat
  rw [hproducer, hinv.queue]
  constructor
  · rw [queueAfter_isSome, queueAfter_isSome]
    omega
  · intro hlt
    have heq : p.seenToggles = s.toggles := by omega
    rw [heq]

theorem config_step {a : Action} (h : s.step accepts a = some s') :
    s'.streamConfig = s.streamConfig := by
  cases a with
  | applyStreamRule rule queueCreated =>
    cases h
    unfold EventStream.applyStreamRule
    split
    · split
      · rfl
      · rfl
    · rfl
    · rfl
    · rfl
  | tryCreatePublisher =>
    simp only [EventStream.step, EventStream.tryCreatePublisher] at h
    split at h
    · cases h
    · cases h
      rfl
  | publisher i action =>
    obtain ⟨p, -, h⟩ := Option.bind_eq_some_iff.mp h
    obtain ⟨p', -, h⟩ := Option.bind_eq_some_iff.mp h
    cases h
    rfl

end Invariant

/-- In every state that publishers and the stream policy can reach: slots are never lost, a slot
is as good as a lane, and a publisher that is up to date is on the queue of the stream. -/
theorem publisher_slots_imply_lanes (accepts : ℕ → ℕ → Bool)
    (haccepts : ∀ slots alive, accepts slots alive = true ↔ alive < slots) (config : StreamConfig)
    (actions : List Action) (s : EventStream)
    (h : run (EventStream.step accepts) (EventStream.new config) actions = some s) :
    (s.remainingPublisherSlots + s.undropped = config.publisherSlots ∧
      ∀ p ∈ s.publishers, p.phase = .dropping → s.remainingPublisherSlots + 1 ≤ usizeMax) ∧
    ((0 < s.remainingPublisherSlots → s.createProducer accepts = s.queue) ∧
      (∀ p ∈ s.publishers, p.phase = .replacing → s.createProducer accepts = s.queue) ∧
      (∀ s', s.step accepts .tryCreatePublisher = some s' →
        ∃ p, s'.publishers = s.publishers ++ [p] ∧ p.producer = s'.queue) ∧
      (∀ i s', s.step accepts (.publisher i .replaceProducerCreate) = some s' →
        ∃ p, s'.publishers[i]? = some p ∧ p.producer = s'.queue)) ∧
    (∀ p ∈ s.publishers, p.phase = .live → p.queueGeneration = s.queueGeneration →
      (p.producer.isSome ↔ s.queue.isSome) ∧
        (s.toggles < p.seenToggles + 2 ^ 64 → p.producer = s.queue)) := by
  have hinv : s.Inv := run_invariant EventStream.Inv (step_inv haccepts) h (new_inv config)
  have hconfig : s.streamConfig = config :=
    run_invariant (fun s => s.streamConfig = config)
      (fun hstep hs => (config_step hstep).trans hs) h rfl
  have hslots := hinv.slots
  rw [hconfig] at hslots
  refine ⟨⟨hslots, ?_⟩, ⟨?_, ?_, ?_, ?_⟩, ?_⟩
  · intro p hp hphase
    exact remaining_lt hinv hp (by rw [hphase]; decide)
  · exact createProducer_of_slot haccepts hinv
  · intro p hp hphase
    exact createProducer_of_replacing haccepts hinv hp hphase
  · intro s' hs'
    simp only [EventStream.step, EventStream.tryCreatePublisher] at hs'
    split at hs'
    · cases hs'
    · next hslot =>
      cases hs'
      exact ⟨_, rfl, createProducer_of_slot haccepts hinv (by omega)⟩
  · intro i s' hs'
    obtain ⟨p, hi, hs'⟩ := Option.bind_eq_some_iff.mp hs'
    obtain ⟨p', hact, hs'⟩ := Option.bind_eq_some_iff.mp hs'
    cases hs'
    simp only [Publisher.act, Option.ite_none_right_eq_some, Option.some.injEq] at hact
    obtain ⟨hphase, rfl⟩ := hact
    have hlt : i < s.publishers.length := (List.getElem?_eq_some_iff.mp hi).1
    refine ⟨_, List.getElem?_set_self hlt, ?_⟩
    exact createProducer_of_replacing haccepts hinv (List.mem_of_getElem? hi) hphase
  · intro p hp hlive hgeneration
    exact producer_up_to_date hinv hp hlive hgeneration

/-- A stream with one slot is enabled, disabled and enabled again, and its publisher follows. -/
def toggledActions : List Action :=
  [.applyStreamRule .on true, .tryCreatePublisher, .applyStreamRule .off true,
    .applyStreamRule .on true, .publisher 0 .replaceProducerRelease,
    .publisher 0 .replaceProducerCreate]

theorem toggled_publisher_on_queue :
    ∃ s, run (EventStream.step fun slots alive => alive < slots)
        (EventStream.new ⟨1, by decide⟩) toggledActions = some s ∧
      s.remainingPublisherSlots + s.undropped = 1 ∧ s.queue = some 1 ∧
      ∀ p ∈ s.publishers, p.producer = s.queue := by
  obtain ⟨s, h⟩ : ∃ s, run (EventStream.step fun slots alive => alive < slots)
    (EventStream.new ⟨1, by decide⟩) toggledActions = some s := ⟨_, rfl⟩
  obtain ⟨⟨hslots, -⟩, -, hproducer⟩ := publisher_slots_imply_lanes
    (fun slots alive => alive < slots) (fun _ _ => decide_eq_true_iff) _ toggledActions s h
  cases h
  refine ⟨_, rfl, hslots, rfl, ?_⟩
  intro p hp
  have hp' := List.mem_singleton.mp hp
  exact (hproducer p hp (by rw [hp']) (by rw [hp'])).2 (by rw [hp']; decide)

end AgaveSdk.EventSystem
