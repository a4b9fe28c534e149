import AgaveSdk.EventSystem.QueueCreation
import AgaveSdk.EventSystem.StreamExplorer

/-! Queues that are created and dropped in one step each, and how the directories look to those who
only see queues that live. -/
namespace AgaveSdk.EventSystem
open FallibleState Runs Memory

inductive CallState where
  | pending
  | holds (queue : StreamQueue)
  | over
  deriving DecidableEq

/-- A call of `StreamQueue::create` and the queue it returned. -/
structure CreationCall where
  streamName : StreamName
  state : CallState
  deriving DecidableEq

structure AtomicStreams where
  calls : List CreationCall
  fileSystem : FileSystem

inductive AtomicAction where
  | begins (streamName : StreamName)
  | create (k : ℕ) (attempt : Attempt)
  | drop (k : ℕ)

namespace AtomicStreams

/-- `schema` gives the serialized schema of each call. -/
def step (schema : ℕ → List UInt8) (a : AtomicStreams) : AtomicAction → Option AtomicStreams
  | .begins streamName => some { a with calls := a.calls ++ [⟨streamName, .pending⟩] }
  | .create k attempt =>
      match a.calls[k]? with
      | some ⟨streamName, .pending⟩ =>
          match exec (StreamQueue.create attempt streamName (schema k)) a.fileSystem with
          | (.ok queue, fs) => some ⟨a.calls.set k ⟨streamName, .holds queue⟩, fs⟩
          | (.error _, fs) => some ⟨a.calls.set k ⟨streamName, .over⟩, fs⟩
      | _ => none
  | .drop k =>
      match a.calls[k]? with
      | some ⟨streamName, .holds queue⟩ =>
          some ⟨a.calls.set k ⟨streamName, .over⟩, queue.drop a.fileSystem⟩
      | _ => none

/-- The call holds a queue under this name. -/
def Holds (a : AtomicStreams) (k : ℕ) (streamName : StreamName) (queue : StreamQueue) : Prop :=
  a.calls[k]? = some ⟨streamName, .holds queue⟩

/-- The queues that are held are published, each alone under its name, and nothing else is there. -/
structure Inv (schema : ℕ → List UInt8) (a : AtomicStreams) : Prop where
  staging : ∀ streamName, a.fileSystem.directory .staging streamName = none
  published : ∀ {streamName entries},
    a.fileSystem.directory .published streamName = some entries ↔
      ∃ k queue, a.Holds k streamName queue ∧
        entries = filledEntries (schema k) queue.identifier queue.queueFile
  unique : ∀ {k k' streamName queue queue'}, a.Holds k streamName queue →
    a.Holds k' streamName queue' → k = k'
  named : ∀ {k streamName queue}, a.Holds k streamName queue →
    queue.eventStreamDirectory = streamName

section Calls

variable {schema : ℕ → List UInt8} {a a' : AtomicStreams} {k : ℕ} {streamName : StreamName}
  {attempt : Attempt} {queue : StreamQueue}

/-- The calls decide what the directories hold. -/
theorem Inv.ext (h : a.Inv schema) (h' : a'.Inv schema) (hcalls : a.calls = a'.calls) : a = a' := by
  obtain ⟨calls, fs⟩ := a
  obtain ⟨calls', fs'⟩ := a'
  obtain rfl : calls = calls' := hcalls
  congr 1
  ext place streamName : 3
  cases place with
  | staging => rw [h.staging, h'.staging]
  | published =>
    apply Option.ext
    intro entries
    exact h.published.trans h'.published.symm

theorem create_fault (hcall : a.calls[k]? = some ⟨streamName, .pending⟩)
    {fault : CreationFault} (hfault : attempt.fault = some fault) :
    step schema a (.create k attempt) =
      some ⟨a.calls.set k ⟨streamName, .over⟩, a.fileSystem⟩ := by
  simp only [step, hcall, exec_create_of_fault hfault]

theorem create_ok (hcall : a.calls[k]? = some ⟨streamName, .pending⟩)
    (hfault : attempt.fault = none)
    (hstaging : a.fileSystem.directory .staging streamName = none)
    (hpublished : ∀ entries, a.fileSystem.directory .published streamName = some entries →
      entries = []) :
    step schema a (.create k attempt) =
      some ⟨a.calls.set k ⟨streamName, .holds ⟨attempt.identifier, attempt.fd, streamName⟩⟩,
        a.fileSystem.set .published streamName
          (some (filledEntries (schema k) attempt.identifier attempt.fd))⟩ := by
  have hfree : ¬ ((a.fileSystem.directory .published streamName).any
      fun old => !old.isEmpty) = true := by
    rw [Option.any_eq_true]
    rintro ⟨old, hold, hne⟩
    rw [hpublished old (Option.mem_def.mp hold)] at hne
    cases hne
  simp only [step, hcall, exec_create, hfault, hstaging, ne_eq, not_true_eq_false, if_false,
    if_neg hfree]

theorem step_drop (h : a.Holds k streamName queue) :
    step schema a (.drop k) =
      some ⟨a.calls.set k ⟨streamName, .over⟩, queue.drop a.fileSystem⟩ := by
  unfold Holds at h
  simp only [step, h]

/-- The queues that are held after one call has changed. -/
theorem holds_set {fs : FileSystem} {call call' : CreationCall} {j : ℕ} {name : StreamName}
    (hcall : a.calls[k]? = some call) :
    (⟨a.calls.set k call', fs⟩ : AtomicStreams).Holds j name queue ↔
      j = k ∧ call' = ⟨name, .holds queue⟩ ∨ j ≠ k ∧ a.Holds j name queue := by
  unfold Holds
  constructor
  · intro h
    rcases get_set h with ⟨hj, hcall'⟩ | hold
    · exact .inl ⟨hj, hcall'.symm⟩
    · exact .inr hold
  · rintro (⟨rfl, rfl⟩ | ⟨hne, hold⟩)
    · exact set_get hcall
    · exact (List.getElem?_set_ne hne.symm).trans hold

/-- A call that is pending holds nothing. -/
theorem Holds.ne {j : ℕ} {name : StreamName} (h : a.Holds j name queue)
    (hcall : a.calls[k]? = some ⟨streamName, .pending⟩) : j ≠ k := by
  rintro rfl
  have hpending := h.symm.trans hcall
  cases hpending

theorem new_inv : (⟨[], ⟨fun _ _ => none⟩⟩ : AtomicStreams).Inv schema where
  staging _ := rfl
  published := by
    intro name entries
    constructor
    · nofun
    · rintro ⟨j, queue, hheld, -⟩
      cases hheld
  unique := nofun
  named := nofun

/-- Nothing changes in the directories, as the same queues are held. -/
theorem Inv.same (h : a.Inv schema) (hfs : a'.fileSystem = a.fileSystem)
    (hholds : ∀ {j name queue}, a'.Holds j name queue ↔ a.Holds j name queue) :
    a'.Inv schema where
  staging name := by
    rw [hfs]
    exact h.staging name
  published := by
    rw [hfs]
    simp only [hholds]
    exact h.published
  unique hheld hheld' := h.unique (hholds.mp hheld) (hholds.mp hheld')
  named hheld := h.named (hholds.mp hheld)

theorem begins_inv (h : a.Inv schema) :
    Inv schema { a with calls := a.calls ++ [⟨streamName, .pending⟩] } := by
  refine h.same rfl fun {j name queue} => ⟨fun hheld => ?_, fun hheld => alloc_get hheld⟩
  rcases get_alloc hheld with hold | ⟨-, hnew⟩
  · exact hold
  · cases hnew

theorem failed_inv (h : a.Inv schema) (hcall : a.calls[k]? = some ⟨streamName, .pending⟩) :
    Inv schema ⟨a.calls.set k ⟨streamName, .over⟩, a.fileSystem⟩ := by
  refine h.same rfl fun {j name queue} => (holds_set hcall).trans ⟨?_, ?_⟩
  · rintro (⟨-, hover⟩ | ⟨-, hold⟩)
    · cases hover
    · exact hold
  · exact fun hheld => .inr ⟨hheld.ne hcall, hheld⟩

/-- A queue is published where nothing was. -/
theorem created_inv (h : a.Inv schema) (hcall : a.calls[k]? = some ⟨streamName, .pending⟩)
    (hnamed : queue.eventStreamDirectory = streamName)
    (hfree : ∀ entries, a.fileSystem.directory .published streamName = some entries →
      entries = []) :
    Inv schema ⟨a.calls.set k ⟨streamName, .holds queue⟩, a.fileSystem.set .published streamName
      (some (filledEntries (schema k) queue.identifier queue.queueFile))⟩ := by
  have hset {j : ℕ} {name : StreamName} {queue' : StreamQueue} {fs : FileSystem} :
      (⟨a.calls.set k ⟨streamName, .holds queue⟩, fs⟩ : AtomicStreams).Holds j name queue' ↔
        j = k ∧ name = streamName ∧ queue' = queue ∨ j ≠ k ∧ a.Holds j name queue' := by
    rw [holds_set hcall, CreationCall.mk.injEq, CallState.holds.injEq, eq_comm (a := streamName),
      eq_comm (a := queue)]
  have hother {j : ℕ} {name : StreamName} {queue' : StreamQueue} (hheld : a.Holds j name queue') :
      name ≠ streamName := by
    rintro rfl
    have hempty := hfree _ (h.published.mpr ⟨j, queue', hheld, rfl⟩)
    cases hempty
  constructor
  case staging =>
    intro name
    exact (FileSystem.directory_set_place (by decide)).trans (h.staging name)
  case published =>
    intro name entries
    simp only [hset]
    rcases eq_or_ne name streamName with rfl | hne
    · rw [FileSystem.directory_set_self, Option.some.injEq]
      constructor
      · rintro rfl
        exact ⟨k, queue, .inl ⟨rfl, rfl, rfl⟩, rfl⟩
      · rintro ⟨j, queue', ⟨rfl, -, rfl⟩ | ⟨-, hold⟩, rfl⟩
        · rfl
        · exact absurd rfl (hother hold)
    · rw [FileSystem.directory_set_name hne, h.published]
      constructor
      · rintro ⟨j, queue', hheld, hentries⟩
        exact ⟨j, queue', .inr ⟨hheld.ne hcall, hheld⟩, hentries⟩
      · rintro ⟨j, queue', ⟨-, hname, -⟩ | ⟨-, hold⟩, hentries⟩
        · exact absurd hname hne
        · exact ⟨j, queue', hold, hentries⟩
  case unique =>
    intro j j' name queue₁ queue₂ hheld hheld'
    rcases hset.mp hheld with ⟨rfl, rfl, -⟩ | ⟨-, hold⟩
    · rcases hset.mp hheld' with ⟨rfl, -, -⟩ | ⟨-, hold'⟩
      · rfl
      · exact absurd rfl (hother hold')
    · rcases hset.mp hheld' with ⟨rfl, rfl, -⟩ | ⟨-, hold'⟩
      · exact absurd rfl (hother hold)
      · exact h.unique hold hold'
  case named =>
    intro j name queue' hheld
    rcases hset.mp hheld with ⟨-, rfl, rfl⟩ | ⟨-, hold⟩
    · exact hnamed
    · exact h.named hold

theorem dropped_inv (h : a.Inv schema) (hheld : a.Holds k streamName queue) :
    Inv schema ⟨a.calls.set k ⟨streamName, .over⟩, queue.drop a.fileSystem⟩ := by
  rw [StreamQueue.drop, h.named hheld]
  have hset {j : ℕ} {name : StreamName} {queue' : StreamQueue} {fs : FileSystem} :
      (⟨a.calls.set k ⟨streamName, .over⟩, fs⟩ : AtomicStreams).Holds j name queue' ↔
        j ≠ k ∧ a.Holds j name queue' := by
    refine (holds_set hheld).trans (or_iff_right ?_)
    rintro ⟨-, hover⟩
    cases hover
  constructor
  case staging =>
    intro name
    exact (FileSystem.directory_set_place (by decide)).trans (h.staging name)
  case published =>
    intro name entries
    simp only [hset]
    rcases eq_or_ne name streamName with rfl | hne
    · rw [FileSystem.directory_set_self]
      constructor
      · nofun
      · rintro ⟨j, queue', ⟨hj, hold⟩, -⟩
        exact absurd (h.unique hold hheld) hj
    · rw [FileSystem.directory_set_name hne, h.published]
      constructor
      · rintro ⟨j, queue', hold, hentries⟩
        refine ⟨j, queue', ⟨?_, hold⟩, hentries⟩
        rintro rfl
        have hsame := hold.symm.trans hheld
        cases hsame
        exact hne rfl
      · rintro ⟨j, queue', ⟨-, hold⟩, hentries⟩
        exact ⟨j, queue', hold, hentries⟩
  case unique =>
    intro j j' name queue₁ queue₂ hafter hafter'
    exact h.unique (hset.mp hafter).2 (hset.mp hafter').2
  case named =>
    intro j name queue' hafter
    exact h.named (hset.mp hafter).2

theorem step_inv {action : AtomicAction} (hstep : a.step schema action = some a')
    (h : a.Inv schema) : a'.Inv schema := by
  cases action with
  | begins streamName =>
    cases hstep
    exact begins_inv h
  | create k attempt =>
    simp only [step] at hstep
    split at hstep
    · next streamName hcall =>
      rw [exec_create, if_neg (not_not.mpr (h.staging streamName))] at hstep
      cases hfault : attempt.fault with
      | some fault =>
        rw [hfault] at hstep
        cases hstep
        exact failed_inv h hcall
      | none =>
        rw [hfault] at hstep
        by_cases hold : ((a.fileSystem.directory .published streamName).any
            fun old => !old.isEmpty) = true
        · simp only [if_pos hold] at hstep
          cases hstep
          exact failed_inv h hcall
        · simp only [if_neg hold] at hstep
          cases hstep
          refine created_inv h hcall rfl ?_
          intro entries hentries
          rw [hentries, Option.any_some, Bool.not_eq_true, Bool.not_eq_false',
            List.isEmpty_iff] at hold
          exact hold
    · cases hstep
  | drop k =>
    simp only [step] at hstep
    split at hstep
    · next streamName queue hheld =>
      cases hstep
      exact dropped_inv h hheld
    · cases hstep

end Calls

end AtomicStreams

end AgaveSdk.EventSystem
