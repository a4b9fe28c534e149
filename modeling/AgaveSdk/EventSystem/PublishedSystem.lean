import AgaveSdk.EventSystem.QueueCreation

/-! The registry of streams with the directories of their queues. Calls run one after another, and
any creation of a queue may fail at any of its steps. -/
namespace AgaveSdk.EventSystem
open FallibleState Memory Runs

/-- A stream with the serialized schema of its events and its queue. -/
structure PublishedStream where
  shared : SharedStream
  schema : List UInt8
  queue : Option StreamQueue

/-- The failure that a call reports. -/
def failureOf : Outcome QueueFailure Unit → Option QueueFailure
  | .error (.err failure) => some failure
  | _ => none

namespace PublishedStream

def applyRule (c : PublishedStream) (rule : StreamRule) (attempt : Attempt) (fs : FileSystem) :
    Option QueueFailure × PublishedStream × FileSystem :=
  let (result, state, fs) := exec (applyStreamRule attempt c.shared.streamName c.schema rule)
    (⟨c.queue, c.shared.stream.queueGeneration⟩, fs)
  (failureOf result,
    { c with
      shared := c.shared.applyStreamRule rule (failureOf result)
      queue := state.queue },
    fs)

/-- With the last strong reference the queue is dropped, and with it its directory. -/
def release (c : PublishedStream) (fs : FileSystem) : PublishedStream × FileSystem :=
  if c.shared.strongCount = 0 then
    ({ c with shared := c.shared.release, queue := none },
      match c.queue with
      | some queue => queue.drop fs
      | none => fs)
  else (c, fs)

/-- Drops the only handle of a stream that `create_stream` does not return. -/
def discard (c : PublishedStream) (fs : FileSystem) : PublishedStream × FileSystem :=
  { c with shared := { c.shared with factories := 0 } }.release fs

end PublishedStream

structure PublishedSystem where
  memory : List PublishedStream
  manager : StreamPolicyManager
  fileSystem : FileSystem

inductive PublishedAction where
  | createStream (streamName : StreamName) (config : StreamConfig) (schema : List UInt8)
      (attempt : Attempt)
  | setStreamPolicy (policy : StreamPolicy) (attempts : List Attempt)
  | handle (i : ℕ) (action : HandleAction)

namespace PublishedSystem

/-- The system without its directories. -/
def system (s : PublishedSystem) : SystemState := ⟨s.memory.map PublishedStream.shared, s.manager⟩

def new : PublishedSystem := ⟨[], SystemState.new.manager, ⟨fun _ _ => none⟩⟩

def pruneDeadStreams (s : PublishedSystem) : PublishedSystem :=
  { s with manager := s.system.pruneDeadStreams.manager }

/-- The loop of `set_stream_policy`, with what the system answers to each creation. -/
def applyPolicy (policy : StreamPolicy) :
    List ℕ → List Attempt → List PublishedStream → FileSystem → List PublishedStream × FileSystem
  | [], _, memory, fs => (memory, fs)
  | i :: is, attempts, memory, fs =>
    match memory[i]? with
    | none => applyPolicy policy is attempts.tail memory fs
    | some c =>
      if 0 < c.shared.strongCount then
        let (_, c', fs') := c.applyRule (policy.streamRule c.shared.streamName)
          (attempts.headD ⟨none, 0, 0, 0⟩) fs
        applyPolicy policy is attempts.tail (memory.set i c') fs'
      else applyPolicy policy is attempts.tail memory fs

def setStreamPolicy (s : PublishedSystem) (policy : StreamPolicy) (attempts : List Attempt) :
    PublishedSystem :=
  let s := s.pruneDeadStreams
  let (memory, fs) := applyPolicy policy s.manager.streams attempts s.memory s.fileSystem
  ⟨memory, ⟨s.manager.streams, policy⟩, fs⟩

/-- `register_new_stream` of a stream that gets the next address. -/
def registerNewStream (s : PublishedSystem) (stream : PublishedStream) (attempt : Attempt) :
    Except CreateStreamError Unit × PublishedStream × PublishedSystem :=
  let s := s.pruneDeadStreams
  if s.system.nameInUse stream.shared.streamName then
    (.error .streamNameAlreadyInUse, stream, s)
  else
    match stream.applyRule (s.manager.streamPolicy.streamRule stream.shared.streamName) attempt
        s.fileSystem with
    | (some failure, stream, fs) =>
      (.error (.queueFailure failure), stream, { s with fileSystem := fs })
    | (none, stream, fs) =>
      (.ok (), stream,
        ⟨s.memory, { s.manager with streams := s.manager.streams ++ [s.memory.length] }, fs⟩)

/-- The stream that `create_stream` makes before any rule is applied. -/
def freshStream (streamName : StreamName) (config : StreamConfig) (schema : List UInt8) :
    PublishedStream :=
  ⟨⟨streamName, EventStream.new config, 1, false, none⟩, schema, none⟩

def createStream (s : PublishedSystem) (streamName : StreamName) (config : StreamConfig)
    (schema : List UInt8) (attempt : Attempt) : Except CreateStreamError ℕ × PublishedSystem :=
  match s.registerNewStream (freshStream streamName config schema) attempt with
  | (.error e, stream, s) =>
    let (stream, fs) := stream.discard s.fileSystem
    (.error e, ⟨s.memory ++ [stream], s.manager, fs⟩)
  | (.ok (), stream, s) =>
    (.ok s.memory.length,
      { s with memory :=
          s.memory ++ [{ stream with shared := { stream.shared with obtained := true } }] })

def step (accepts : ℕ → ℕ → Bool) (s : PublishedSystem) : PublishedAction → Option PublishedSystem
  | .createStream streamName config schema attempt =>
    some (s.createStream streamName config schema attempt).2
  | .setStreamPolicy policy attempts => some (s.setStreamPolicy policy attempts)
  | .handle i action => do
    let c ← s.memory[i]?
    let shared ← c.shared.handle accepts action
    let (c', fs) := { c with shared }.release s.fileSystem
    return { s with memory := s.memory.set i c', fileSystem := fs }

end PublishedSystem

section Stream

variable {c c' : PublishedStream} {rule : StreamRule} {attempt : Attempt} {fs fs' : FileSystem}
  {failure : Option QueueFailure}

/-- The entries that the directory of the stream should have, if it should exist. -/
def PublishedStream.published (c : PublishedStream) : Option (List DirectoryEntry) :=
  c.queue.map fun queue => filledEntries c.schema queue.identifier queue.queueFile

/-- The queue is there exactly if the stream is enabled, and its directory has the stream's name. -/
structure PublishedStream.Agrees (c : PublishedStream) : Prop where
  queue : c.queue.isSome = c.shared.stream.queue.isSome
  directory : ∀ queue, c.queue = some queue → queue.eventStreamDirectory = c.shared.streamName

/-- The stream keeps its name, and only its published directory has changed, to what it should
be. -/
structure Moves (c : PublishedStream) (fs : FileSystem) (c' : PublishedStream)
    (fs' : FileSystem) : Prop where
  streamName : c'.shared.streamName = c.shared.streamName
  agrees : c'.Agrees
  published : fs'.directory .published c.shared.streamName = c'.published
  elsewhere : ∀ place streamName, place ≠ .published ∨ streamName ≠ c.shared.streamName →
    fs'.directory place streamName = fs.directory place streamName

theorem published_eq_none (h : c.queue = none) : c.published = none := by
  rw [PublishedStream.published, h, Option.map_none]

theorem moves_unchanged (hname : c'.shared.streamName = c.shared.streamName)
    (hpublished : fs.directory .published c.shared.streamName = c.published)
    (hsame : c'.published = c.published) (hagrees : c'.Agrees) : Moves c fs c' fs where
  streamName := hname
  agrees := hagrees
  published := hpublished.trans hsame.symm
  elsewhere _ _ _ := rfl

theorem moves_set {entries : Option (List DirectoryEntry)}
    (hname : c'.shared.streamName = c.shared.streamName) (hpublished : c'.published = entries)
    (hagrees : c'.Agrees) :
    Moves c fs c' (fs.set .published c.shared.streamName entries) where
  streamName := hname
  agrees := hagrees
  published := by rw [FileSystem.directory_set_self, hpublished]
  elsewhere place streamName hother := by
    rcases hother with hplace | hname
    · exact FileSystem.directory_set_place hplace
    · exact FileSystem.directory_set_name hname

/-- A rule that is applied leaves the directory of the stream as it should be. -/
theorem applyRule_moves (hagrees : c.Agrees)
    (hpublished : fs.directory .published c.shared.streamName = c.published)
    (h : c.applyRule rule attempt fs = (failure, c', fs')) :
    Moves c fs c' fs' ∧ c'.shared = c.shared.applyStreamRule rule failure ∧
      (failure ≠ none → rule = .on ∧ c.queue = none ∧ c'.queue = none ∧ fs' = fs) := by
  have hcases := @applyStreamRule_cases attempt c.shared.streamName c.schema fs
    ⟨c.queue, c.shared.stream.queueGeneration⟩ rule
  have hqueue (failure : Option QueueFailure) :=
    c.shared.stream.applyStreamRule_queue rule failure.isNone
  rw [PublishedStream.applyRule] at h
  generalize exec (applyStreamRule attempt c.shared.streamName c.schema rule)
    (⟨c.queue, c.shared.stream.queueGeneration⟩, fs) = outcome at h hcases
  cases hcases with
  | created hnone =>
    cases h
    refine ⟨moves_set rfl rfl ⟨?_, ?_⟩, rfl, fun hfailed => absurd rfl hfailed⟩
    · rw [Bool.eq_iff_iff]
      exact iff_of_true rfl ((hqueue none).mpr ⟨rfl, .inr rfl⟩)
    · rintro queue ⟨⟩
      rfl
  | failed failure hnone =>
    cases h
    replace hnone : c.queue = none := hnone
    refine ⟨moves_unchanged rfl hpublished rfl ⟨?_, hagrees.directory⟩, rfl,
      fun _ => ⟨rfl, hnone, hnone, rfl⟩⟩
    rw [Bool.eq_iff_iff]
    refine iff_of_false (by simp [hnone]) fun hsome => ?_
    have hold := ((hqueue (some failure)).mp hsome).2
    simp [← hagrees.queue, hnone] at hold
  | dropped queue hsome =>
    cases h
    rw [StreamQueue.drop, hagrees.directory queue hsome]
    refine ⟨moves_set rfl rfl ⟨?_, by rintro queue ⟨⟩⟩, rfl, fun hfailed => absurd rfl hfailed⟩
    rw [Bool.eq_iff_iff]
    exact iff_of_false (by simp) fun hon => by cases ((hqueue none).mp hon).1
  | followed rule hsame =>
    cases h
    refine ⟨moves_unchanged rfl hpublished rfl ⟨?_, hagrees.directory⟩, rfl,
      fun hfailed => absurd rfl hfailed⟩
    rw [Bool.eq_iff_iff]
    exact hsame.trans ((hqueue none).trans (and_iff_left (.inr rfl))).symm

/-- Releasing a stream removes its directory with the last handle. -/
theorem release_moves (hagrees : c.Agrees)
    (hpublished : fs.directory .published c.shared.streamName = c.published)
    (h : c.release fs = (c', fs')) :
    Moves c fs c' fs' ∧ c'.shared = c.shared.release ∧
      (c'.shared.strongCount = 0 → c'.queue = none) := by
  rw [PublishedStream.release] at h
  split at h
  · next hzero =>
    have hname := c.shared.release_streamName
    have hdropped : PublishedStream.Agrees { c with shared := c.shared.release, queue := none } :=
      ⟨(congrArg Option.isSome (SharedStream.release_queue hzero)).symm, by rintro queue ⟨⟩⟩
    cases hqueue : c.queue with
    | none =>
      rw [hqueue] at h
      cases h
      exact ⟨moves_unchanged hname hpublished (published_eq_none hqueue).symm hdropped, rfl,
        fun _ => rfl⟩
    | some queue =>
      have hdrop : queue.drop fs = fs.set .published c.shared.streamName none := by
        rw [StreamQueue.drop, hagrees.directory queue hqueue]
      simp only [hqueue, hdrop] at h
      cases h
      exact ⟨moves_set hname rfl hdropped, rfl, fun _ => rfl⟩
  · next hpos =>
    cases h
    exact ⟨moves_unchanged rfl hpublished rfl hagrees,
      (SharedStream.release_of_pos (Nat.pos_of_ne_zero hpos)).symm, fun hzero => absurd hzero hpos⟩

end Stream

section Streams

variable {memory : List PublishedStream} {c c' d : PublishedStream} {fs fs' : FileSystem} {i : ℕ}

/-- Every stream that is alive has its name to itself and the directory that it should have, and
there is no other directory. -/
structure Exact (memory : List PublishedStream) (fs : FileSystem) : Prop where
  names : ∀ {i j : ℕ} {c c' : PublishedStream}, memory[i]? = some c → memory[j]? = some c' →
    0 < c.shared.strongCount → 0 < c'.shared.strongCount →
    c.shared.streamName = c'.shared.streamName → i = j
  dropped : ∀ {i : ℕ} {c : PublishedStream}, memory[i]? = some c → c.shared.strongCount = 0 →
    c.queue = none
  agrees : ∀ {i : ℕ} {c : PublishedStream}, memory[i]? = some c → c.Agrees
  staging : ∀ streamName, fs.directory .staging streamName = none
  published : ∀ {i : ℕ} {c : PublishedStream}, memory[i]? = some c → 0 < c.shared.strongCount →
    fs.directory .published c.shared.streamName = c.published
  only : ∀ {streamName : StreamName}, fs.directory .published streamName ≠ none →
    ∃ (i : ℕ) (c : PublishedStream), memory[i]? = some c ∧ 0 < c.shared.strongCount ∧
      c.shared.streamName = streamName

/-- One stream that was alive moves. -/
theorem Exact.set (h : Exact memory fs) (hc : memory[i]? = some c) (hpos : 0 < c.shared.strongCount)
    (hmoves : Moves c fs c' fs') (hdropped : c'.shared.strongCount = 0 → c'.queue = none) :
    Exact (memory.set i c') fs' := by
  -- The streams elsewhere that are alive have other names.
  have hother {j : ℕ} {x : PublishedStream} (hne : j ≠ i) (hx : memory[j]? = some x)
      (hxpos : 0 < x.shared.strongCount) : x.shared.streamName ≠ c.shared.streamName :=
    fun hname => hne (h.names hx hc hxpos hpos hname)
  constructor
  case names =>
    intro j k x y hx hy hxpos hypos hname
    rcases get_set hx with ⟨rfl, rfl⟩ | ⟨hj, hxold⟩
    · rcases get_set hy with ⟨rfl, -⟩ | ⟨hk, hyold⟩
      · rfl
      · exact absurd (hname.symm.trans hmoves.streamName) (hother hk hyold hypos)
    · rcases get_set hy with ⟨rfl, rfl⟩ | ⟨hk, hyold⟩
      · exact absurd (hname.trans hmoves.streamName) (hother hj hxold hxpos)
      · exact h.names hxold hyold hxpos hypos hname
  case dropped =>
    intro j x hx hzero
    rcases get_set hx with ⟨-, rfl⟩ | ⟨-, hx⟩
    · exact hdropped hzero
    · exact h.dropped hx hzero
  case agrees =>
    intro j x hx
    rcases get_set hx with ⟨-, rfl⟩ | ⟨-, hx⟩
    · exact hmoves.agrees
    · exact h.agrees hx
  case staging =>
    intro streamName
    rw [hmoves.elsewhere _ _ (.inl (by decide)), h.staging]
  case published =>
    intro j x hx hxpos
    rcases get_set hx with ⟨-, rfl⟩ | ⟨hj, hx⟩
    · rw [hmoves.streamName, hmoves.published]
    · rw [hmoves.elsewhere _ _ (.inr (hother hj hx hxpos)), h.published hx hxpos]
  case only =>
    intro streamName hsome
    by_cases hname : streamName = c.shared.streamName
    · subst hname
      rw [hmoves.published] at hsome
      have halive : 0 < c'.shared.strongCount := by
        by_contra hzero
        exact hsome (published_eq_none (hdropped (by omega)))
      exact ⟨i, c', set_get hc, halive, hmoves.streamName⟩
    · rw [hmoves.elsewhere _ _ (.inr hname)] at hsome
      obtain ⟨j, x, hx, hxpos, rfl⟩ := h.only hsome
      have hj : j ≠ i := by
        rintro rfl
        rw [hc, Option.some.injEq] at hx
        exact hname (by rw [hx])
      exact ⟨j, x, (List.getElem?_set_ne hj.symm).trans hx, hxpos, rfl⟩

/-- A new stream without a queue, dead or with a name that no stream has that is alive. -/
theorem Exact.append (h : Exact memory fs) (hagrees : d.Agrees) (hqueue : d.queue = none)
    (hfree : 0 < d.shared.strongCount → ∀ {i : ℕ} {c : PublishedStream}, memory[i]? = some c →
      0 < c.shared.strongCount → c.shared.streamName ≠ d.shared.streamName) :
    Exact (memory ++ [d]) fs where
  names hx hy hxpos hypos hname := by
    rcases get_alloc hx with hxold | ⟨rfl, rfl⟩
    · rcases get_alloc hy with hyold | ⟨rfl, rfl⟩
      · exact h.names hxold hyold hxpos hypos hname
      · exact absurd hname (hfree hypos hxold hxpos)
    · rcases get_alloc hy with hyold | ⟨rfl, -⟩
      · exact absurd hname.symm (hfree hxpos hyold hypos)
      · rfl
  dropped hx hzero := by
    rcases get_alloc hx with hx | ⟨-, rfl⟩
    · exact h.dropped hx hzero
    · exact hqueue
  agrees hx := by
    rcases get_alloc hx with hx | ⟨-, rfl⟩
    · exact h.agrees hx
    · exact hagrees
  staging := h.staging
  published hx hxpos := by
    rcases get_alloc hx with hx | ⟨-, rfl⟩
    · exact h.published hx hxpos
    · rw [published_eq_none hqueue]
      by_contra hsome
      obtain ⟨i, c, hc, hpos, hname⟩ := h.only hsome
      exact hfree hxpos hc hpos hname
  only hsome := by
    obtain ⟨i, c, hc, hpos, hname⟩ := h.only hsome
    exact ⟨i, c, alloc_get hc, hpos, hname⟩

/-- Applying a rule to a stream that is alive. -/
theorem Exact.applyRule {rule : StreamRule} {attempt : Attempt} {failure : Option QueueFailure}
    (h : Exact memory fs) (hc : memory[i]? = some c) (hpos : 0 < c.shared.strongCount)
    (happly : c.applyRule rule attempt fs = (failure, c', fs')) : Exact (memory.set i c') fs' := by
  obtain ⟨hmoves, hshared, -⟩ := applyRule_moves (h.agrees hc) (h.published hc hpos) happly
  refine h.set hc hpos hmoves fun hzero => ?_
  rw [hshared, SharedStream.applyStreamRule_strongCount] at hzero
  omega

theorem Exact.applyPolicy {policy : StreamPolicy} {is : List ℕ} {attempts : List Attempt}
    (h : Exact memory fs) :
    Exact (PublishedSystem.applyPolicy policy is attempts memory fs).1
      (PublishedSystem.applyPolicy policy is attempts memory fs).2 := by
  induction is generalizing attempts memory fs with
  | nil => exact h
  | cons i is ih =>
    rw [PublishedSystem.applyPolicy]
    cases hc : memory[i]? with
    | none => exact ih h
    | some c =>
      simp only
      split
      · next hpos => exact ih (h.applyRule hc hpos rfl)
      · exact ih h

theorem map_set_shared {f : SharedStream → SharedStream} (hc : memory[i]? = some c)
    (hf : c'.shared = f c.shared) :
    (memory.set i c').map PublishedStream.shared =
      (memory.map PublishedStream.shared).modify i f := by
  refine List.ext_getElem? fun j => ?_
  rw [List.getElem?_map, List.getElem?_modify, List.getElem?_map]
  by_cases hij : i = j
  · subst hij
    simp [set_get hc, hc, hf]
  · simp [List.getElem?_set_ne hij, hij]

/-- The loop does to the registry what the loop without directories does. -/
theorem applyPolicy_shared (policy : StreamPolicy) (is : List ℕ) (attempts : List Attempt)
    (memory : List PublishedStream) (fs : FileSystem) :
    ∃ failures, (PublishedSystem.applyPolicy policy is attempts memory fs).1.map
        PublishedStream.shared =
      SystemState.applyPolicy policy is failures (memory.map PublishedStream.shared) := by
  induction is generalizing attempts memory fs with
  | nil => exact ⟨[], rfl⟩
  | cons i is ih =>
    rw [PublishedSystem.applyPolicy]
    cases hc : memory[i]? with
    | none =>
      obtain ⟨failures, hfailures⟩ := ih attempts.tail memory fs
      refine ⟨none :: failures, ?_⟩
      rw [SystemState.applyPolicy, modify_self fun x hx => ?_]
      · exact hfailures
      · rw [List.getElem?_map, hc, Option.map_none] at hx
        cases hx
    | some c =>
      simp only
      split
      · next hpos =>
        obtain ⟨failures, hfailures⟩ := ih attempts.tail
          (memory.set i (c.applyRule (policy.streamRule c.shared.streamName)
            (attempts.headD ⟨none, 0, 0, 0⟩) fs).2.1)
          (c.applyRule (policy.streamRule c.shared.streamName)
            (attempts.headD ⟨none, 0, 0, 0⟩) fs).2.2
        refine ⟨(c.applyRule (policy.streamRule c.shared.streamName)
          (attempts.headD ⟨none, 0, 0, 0⟩) fs).1 :: failures, ?_⟩
        rw [hfailures, SystemState.applyPolicy, map_set_shared hc]
        · rfl
        · rw [if_pos hpos]
          rfl
      · next hpos =>
        obtain ⟨failures, hfailures⟩ := ih attempts.tail memory fs
        refine ⟨none :: failures, ?_⟩
        rw [SystemState.applyPolicy, modify_self fun x hx => ?_]
        · exact hfailures
        · rw [List.getElem?_map, hc, Option.map_some, Option.some.injEq] at hx
          rw [← hx, if_neg hpos]

end Streams

namespace PublishedSystem

section Steps

variable {accepts : ℕ → ℕ → Bool} {s s' : PublishedSystem} {c : PublishedStream}
  {streamName : StreamName} {config : StreamConfig} {schema : List UInt8} {attempt : Attempt}
  {fs : FileSystem}

theorem freshStream_agrees : (freshStream streamName config schema).Agrees :=
  ⟨rfl, by rintro queue ⟨⟩⟩

theorem freshStream_alive : 0 < (freshStream streamName config schema).shared.strongCount :=
  Nat.zero_lt_one

theorem release_shared : (c.release fs).1.shared = c.shared.release := by
  unfold PublishedStream.release
  split
  · rfl
  · next hpos => exact (SharedStream.release_of_pos (Nat.pos_of_ne_zero hpos)).symm

theorem strongCount_of_unheld (hpublishers : c.shared.stream.publishers = []) :
    { c.shared with factories := 0 }.strongCount = 0 := by
  simp [SharedStream.strongCount, EventStream.undropped, hpublishers]

/-- A stream without a queue and publishers goes without a trace. -/
theorem discard_eq (hqueue : c.queue = none) (hpublishers : c.shared.stream.publishers = []) :
    c.discard fs =
      ({ c with shared := { c.shared with factories := 0 }.release, queue := none }, fs) := by
  rw [PublishedStream.discard, PublishedStream.release,
    if_pos (strongCount_of_unheld hpublishers), hqueue]

/-- What is left of a discarded stream changes nothing. -/
theorem append_discarded {memory : List PublishedStream} (h : Exact memory fs)
    (hqueue : c.queue = none) (hpublishers : c.shared.stream.publishers = []) :
    Exact (memory ++ [(c.discard fs).1]) (c.discard fs).2 := by
  have hzero := strongCount_of_unheld hpublishers
  rw [discard_eq hqueue hpublishers]
  refine h.append ⟨?_, by rintro queue ⟨⟩⟩ rfl fun hpos => ?_
  · exact (congrArg Option.isSome (SharedStream.release_queue hzero)).symm
  · rw [SharedStream.release_strongCount] at hpos
    omega

theorem ruleResult_none (c : SharedStream) (rule : StreamRule) :
    c.ruleResult rule none = .ok () := by
  unfold SharedStream.ruleResult
  split
  · next h => cases h
  · rfl

theorem freshStream_publishers (rule : StreamRule) (failure : Option QueueFailure) :
    ((freshStream streamName config schema).shared.applyStreamRule rule failure).stream.publishers =
      [] := by
  rw [SharedStream.applyStreamRule, EventStream.applyStreamRule_publishers]
  rfl

/-- No stream that is alive has the name. -/
def Free (s : PublishedSystem) (streamName : StreamName) : Prop :=
  ∀ {i : ℕ} {c : PublishedStream}, s.memory[i]? = some c → 0 < c.shared.strongCount →
    c.shared.streamName ≠ streamName

theorem free_of_nameInUse (hinv : s.system.Inv)
    (hfree : s.system.pruneDeadStreams.nameInUse streamName ≠ true) : s.Free streamName := by
  intro i c hc hpos hname
  refine hfree ((SystemState.nameInUse_iff (SystemState.pruneDeadStreams_inv hinv) streamName).mpr
    ⟨i, c.shared, ⟨?_, hpos⟩, hname⟩)
  exact (List.getElem?_map ..).trans (congrArg (Option.map PublishedStream.shared) hc)

/-- The rule of the policy is applied to the new stream in its place. -/
theorem fresh_applyRule {rule : StreamRule} {failure : Option QueueFailure} {fs' : FileSystem}
    (h : Exact s.memory s.fileSystem) (hfree : s.Free streamName)
    (happly : (freshStream streamName config schema).applyRule rule attempt s.fileSystem =
      (failure, c, fs')) :
    Exact (s.memory ++ [c]) fs' ∧
      c.shared = (freshStream streamName config schema).shared.applyStreamRule rule failure ∧
      (failure ≠ none → rule = .on ∧ c.queue = none ∧ fs' = s.fileSystem) := by
  have happended : Exact (s.memory ++ [freshStream streamName config schema]) s.fileSystem :=
    h.append freshStream_agrees rfl fun _ => hfree
  have hnew : (s.memory ++ [freshStream streamName config schema])[s.memory.length]? =
      some (freshStream streamName config schema) := List.getElem?_concat_length
  have hset := happended.applyRule hnew freshStream_alive happly
  obtain ⟨-, hshared, hfailed⟩ := applyRule_moves freshStream_agrees
    (happended.published hnew freshStream_alive) happly
  refine ⟨by simpa using hset, hshared, fun hne => ?_⟩
  obtain ⟨hrule, -, hqueue, hfs⟩ := hfailed hne
  exact ⟨hrule, hqueue, hfs⟩

/-- Registering fails and leaves a stream without a queue, or registers the stream. -/
theorem registerNewStream_cases (hinv : s.system.Inv) (h : Exact s.memory s.fileSystem) :
    (∃ e failure stream, s.registerNewStream (freshStream streamName config schema) attempt =
        (.error e, stream, s.pruneDeadStreams) ∧
      stream.queue = none ∧ stream.shared.stream.publishers = [] ∧
      (s.system.createStream streamName config failure).2 =
        { s.system.pruneDeadStreams with
          memory := s.system.memory ++ [{ stream.shared with factories := 0 }.release] }) ∨
    (∃ stream fs, s.registerNewStream (freshStream streamName config schema) attempt =
        (.ok (), stream, ⟨s.memory, { s.system.pruneDeadStreams.manager with
          streams := s.system.pruneDeadStreams.manager.streams ++ [s.memory.length] }, fs⟩) ∧
      Exact (s.memory ++ [stream]) fs ∧ 0 < stream.shared.strongCount ∧
      (s.system.createStream streamName config none).2 =
        ⟨s.system.memory ++ [{ stream.shared with obtained := true }],
          { s.system.pruneDeadStreams.manager with
            streams :=
              s.system.pruneDeadStreams.manager.streams ++ [s.system.memory.length] }⟩) := by
  by_cases hname : s.system.pruneDeadStreams.nameInUse streamName = true
  · refine .inl ⟨.streamNameAlreadyInUse, none, freshStream streamName config schema,
      if_pos hname, rfl, rfl, ?_⟩
    unfold SystemState.createStream
    simp only [if_pos hname]
    rfl
  have hfree : s.Free streamName := free_of_nameInUse hinv hname
  rcases happly : (freshStream streamName config schema).applyRule
    (s.pruneDeadStreams.manager.streamPolicy.streamRule
      (freshStream streamName config schema).shared.streamName) attempt
    s.pruneDeadStreams.fileSystem with ⟨_ | failure, stream, fs⟩
  · obtain ⟨hexact, hshared, -⟩ := fresh_applyRule h hfree happly
    refine .inr ⟨stream, fs, ?_, hexact, ?_, ?_⟩
    · refine (if_neg hname).trans ?_
      rw [happly]
      rfl
    · rw [hshared, SharedStream.applyStreamRule_strongCount]
      exact freshStream_alive
    · unfold SystemState.createStream
      simp only [if_neg hname, ruleResult_none, hshared]
      rfl
  · obtain ⟨-, hshared, hfailed⟩ := fresh_applyRule h hfree happly
    obtain ⟨hon, hqueue, hfs⟩ := hfailed (by simp)
    subst hfs
    refine .inl ⟨.queueFailure failure, some failure, stream, ?_, hqueue, ?_, ?_⟩
    · refine (if_neg hname).trans ?_
      rw [happly]
      rfl
    · rw [hshared]
      exact freshStream_publishers _ _
    · unfold SystemState.createStream
      simp only [if_neg hname, hshared]
      split
      · rfl
      · next hok =>
        have hresult : (freshStream streamName config schema).shared.ruleResult .on
          (some failure) = .error (.queueFailure failure) := rfl
        rw [← hon] at hresult
        cases hresult.symm.trans hok

theorem exact_obtained {memory : List PublishedStream} (h : Exact (memory ++ [c]) fs)
    (hpos : 0 < c.shared.strongCount) :
    Exact (memory ++ [{ c with shared := { c.shared with obtained := true } }]) fs := by
  have hc : (memory ++ [c])[memory.length]? = some c := List.getElem?_concat_length
  have hagrees := h.agrees hc
  have hset := h.set hc hpos (moves_unchanged rfl (h.published hc hpos) rfl
    ⟨hagrees.queue, hagrees.directory⟩ :
      Moves c fs { c with shared := { c.shared with obtained := true } } fs)
    fun hzero => absurd hzero (Nat.pos_iff_ne_zero.mp hpos)
  simpa using hset

/-- Creating a stream does to the registry what it does without directories, and keeps the
directories as they should be. -/
theorem createStream_spec (hinv : s.system.Inv) (h : Exact s.memory s.fileSystem) :
    (∃ failure, (s.system.createStream streamName config failure).2 =
      (s.createStream streamName config schema attempt).2.system) ∧
    Exact (s.createStream streamName config schema attempt).2.memory
      (s.createStream streamName config schema attempt).2.fileSystem := by
  rcases @registerNewStream_cases s streamName config schema attempt hinv h with
    ⟨e, failure, stream, hregister, hqueue, hpublishers, hsystem⟩ |
    ⟨stream, fs, hregister, hexact, hpos, hsystem⟩
  · rw [createStream, hregister]
    refine ⟨⟨failure, hsystem.trans ?_⟩, append_discarded h hqueue hpublishers⟩
    simp [system, pruneDeadStreams, SystemState.pruneDeadStreams,
      discard_eq hqueue hpublishers]
  · rw [createStream, hregister]
    refine ⟨⟨none, hsystem.trans ?_⟩, exact_obtained hexact hpos⟩
    simp [system]

/-- An action of a holder, after which the stream may be released. -/
theorem handle_exact {i : ℕ} {action : HandleAction} {shared : SharedStream} {c' : PublishedStream}
    (h : Exact s.memory s.fileSystem) (hc : s.memory[i]? = some c)
    (hact : c.shared.handle accepts action = some shared)
    (hrelease : { c with shared }.release s.fileSystem = (c', fs)) :
    Exact (s.memory.set i c') fs := by
  obtain ⟨hpos, hname, -, hqueue, -⟩ := SharedStream.handle_cases hact
  have hagrees := h.agrees hc
  have hmoved : PublishedStream.Agrees { c with shared } :=
    ⟨by simp only [hqueue, hagrees.queue], by simpa only [hname] using hagrees.directory⟩
  have hpublished : s.fileSystem.directory .published shared.streamName = c.published := by
    rw [hname, h.published hc hpos]
  obtain ⟨hmoves, -, hdropped⟩ := release_moves hmoved hpublished hrelease
  refine h.set hc hpos ⟨hmoves.streamName.trans hname, hmoves.agrees, ?_, ?_⟩ hdropped
  · rw [← hname]
    exact hmoves.published
  · rw [← hname]
    exact hmoves.elsewhere

/-- Every action does to the registry what some action without directories does, and keeps the
directories as they should be. -/
theorem step_spec {action : PublishedAction} (hinv : s.system.Inv)
    (h : Exact s.memory s.fileSystem) (hstep : s.step accepts action = some s') :
    (∃ action', s.system.step accepts action' = some s'.system) ∧
      Exact s'.memory s'.fileSystem := by
  cases action with
  | createStream streamName config schema attempt =>
    cases hstep
    obtain ⟨⟨failure, hsystem⟩, hexact⟩ := @createStream_spec s streamName config schema attempt
      hinv h
    exact ⟨⟨.createStream streamName config failure, congrArg some hsystem⟩, hexact⟩
  | setStreamPolicy policy attempts =>
    cases hstep
    obtain ⟨failures, hfailures⟩ := applyPolicy_shared policy
      s.pruneDeadStreams.manager.streams attempts s.memory s.fileSystem
    refine ⟨⟨.setStreamPolicy policy failures, congrArg some ?_⟩, h.applyPolicy⟩
    exact congrArg
      (SystemState.mk · ⟨s.pruneDeadStreams.manager.streams, policy⟩) hfailures.symm
  | handle i action =>
    obtain ⟨c, hc, hstep⟩ := Option.bind_eq_some_iff.mp hstep
    obtain ⟨shared, hact, hstep⟩ := Option.bind_eq_some_iff.mp hstep
    rcases hrelease : PublishedStream.release { c with shared } s.fileSystem with ⟨c', fs⟩
    rw [hrelease] at hstep
    cases hstep
    refine ⟨⟨.handle i action, ?_⟩, handle_exact h hc hact hrelease⟩
    have hshared : s.system.memory[i]? = some c.shared := by
      rw [system, List.getElem?_map, hc, Option.map_some]
    have hreleased : shared.release = c'.shared :=
      release_shared.symm.trans (congrArg (·.1.shared) hrelease)
    refine Option.bind_eq_some_iff.mpr ⟨c.shared, hshared,
      Option.bind_eq_some_iff.mpr ⟨shared, hact, ?_⟩⟩
    simp [system, List.map_set, hreleased]

/-- The directories are those of the queues: `tmp` is empty, and `event-streams` has one directory
for each stream that is alive and has a queue, with its schema and one link to that queue. -/
structure Publishes (s : PublishedSystem) : Prop where
  staging : ∀ streamName, s.fileSystem.directory .staging streamName = none
  published : ∀ streamName entries,
    s.fileSystem.directory .published streamName = some entries ↔
      ∃ (i : ℕ) (c : PublishedStream) (queue : StreamQueue), s.memory[i]? = some c ∧
        0 < c.shared.strongCount ∧ c.shared.streamName = streamName ∧ c.queue = some queue ∧
        entries = [.schema c.schema, .queue queue.identifier queue.queueFile]
  distinct : ∀ (i j : ℕ) (c c' : PublishedStream), s.memory[i]? = some c →
    s.memory[j]? = some c' → 0 < c.shared.strongCount → 0 < c'.shared.strongCount →
    c.shared.streamName = c'.shared.streamName → i = j

theorem publishes_of_exact (h : Exact s.memory s.fileSystem) : s.Publishes where
  staging := h.staging
  published streamName entries := by
    constructor
    · intro hentries
      obtain ⟨i, c, hc, hpos, rfl⟩ := h.only (by rw [hentries]; simp)
      rw [h.published hc hpos] at hentries
      obtain ⟨queue, hqueue, hfilled⟩ := Option.map_eq_some_iff.mp hentries
      exact ⟨i, c, queue, hc, hpos, rfl, hqueue, hfilled.symm⟩
    · intro hstream
      obtain ⟨i, c, queue, hc, hpos, rfl, hqueue, rfl⟩ := hstream
      rw [h.published hc hpos, PublishedStream.published, hqueue]
      rfl
  distinct i j c c' hc hc' hpos hpos' hname := h.names hc hc' hpos hpos' hname

theorem new_exact : Exact new.memory new.fileSystem where
  names hc := by cases hc
  dropped hc := by cases hc
  agrees hc := by cases hc
  staging _ := rfl
  published hc := by cases hc
  only hsome := absurd rfl hsome

theorem run_publishes {actions : List PublishedAction}
    (h : run (step accepts) new actions = some s) : s.Publishes := by
  have hinv := run_invariant (fun s => s.system.Inv ∧ Exact s.memory s.fileSystem)
    (fun hstep hinv => by
      obtain ⟨⟨action', hsystem⟩, hexact⟩ := step_spec hinv.1 hinv.2 hstep
      exact ⟨SystemState.step_inv hsystem hinv.1, hexact⟩) h ⟨SystemState.new_inv, new_exact⟩
  exact publishes_of_exact hinv.2

end Steps

end PublishedSystem

/-- A creation that fails at any of its steps changes nothing, and so after any run of calls the
directories are exactly those of the queues. -/
theorem failed_creation_leaves_no_trace (accepts : ℕ → ℕ → Bool) :
    (∀ attempt streamName schema step p, attempt.fault = some step → p.1.queue = none →
      exec (applyStreamRule attempt streamName schema .on) p =
        (.error (.err (if p.2.directory .staging streamName ≠ none then .fileSystem
          else step.failure)), p)) ∧
    (∀ attempt streamName schema rule p e p',
      exec (applyStreamRule attempt streamName schema rule) p = (.error e, p') → p' = p) ∧
    ∀ actions s, run (PublishedSystem.step accepts) PublishedSystem.new actions = some s →
      s.Publishes :=
  ⟨fun _ _ _ _ _ hfault hqueue => applyStreamRule_of_fault hfault hqueue,
    fun _ _ _ _ _ _ _ herror => applyStreamRule_of_error herror,
    fun _ _ hrun => PublishedSystem.run_publishes hrun⟩

/-- A stream whose first creation fails, and which a policy then drops and enables twice, the first
time in vain. -/
def interruptedActions : List PublishedAction :=
  [.setStreamPolicy ⟨.on, []⟩ [],
    .createStream networkGossip ⟨2, by decide⟩ [7] ⟨some .linkQueue, 0, 1, 3⟩,
    .createStream networkGossip ⟨2, by decide⟩ [7] ⟨none, 0, 2, 3⟩,
    .setStreamPolicy ⟨.off, []⟩ [],
    .setStreamPolicy ⟨.on, []⟩ [⟨some .publish, 0, 4, 3⟩],
    .setStreamPolicy ⟨.on, []⟩ [⟨none, 0, 5, 6⟩]]

theorem interrupted_publishes : ∃ s,
    run (PublishedSystem.step fun slots alive => alive < slots) PublishedSystem.new
      interruptedActions = some s ∧ s.Publishes ∧
    s.fileSystem.directory .published networkGossip = some [.schema [7], .queue 5 6] := by
  obtain ⟨s, h⟩ : ∃ s, run (PublishedSystem.step fun slots alive => alive < slots)
    PublishedSystem.new interruptedActions = some s := ⟨_, rfl⟩
  have hpublishes := (failed_creation_leaves_no_trace _).2.2 _ s h
  cases h
  exact ⟨_, rfl, hpublishes, rfl⟩

end AgaveSdk.EventSystem
