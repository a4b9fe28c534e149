import AgaveSdk.EventSystem.StreamDirectories
import AgaveSdk.EventSystem.StreamPolicyManager
import AgaveSdk.Library.FallibleState

/-! Creating and dropping the queue of one stream, with every step at which that can fail. Removing
a directory is taken to succeed. -/
namespace AgaveSdk.EventSystem
open FallibleState

/-- An entry of a stream directory: the file `schema`, or the link `queue-<identifier>` to a
descriptor of the process. -/
inductive DirectoryEntry
  | schema (contents : List UInt8)
  | queue (identifier : UInt64) (fd : ℕ)
deriving DecidableEq, Repr

def DirectoryEntry.sameName : DirectoryEntry → DirectoryEntry → Bool
  | .schema _, .schema _ => true
  | .queue identifier _, .queue identifier' _ => identifier == identifier'
  | _, _ => false

/-- The stream directories under `tmp` and under `event-streams`. -/
@[ext]
structure FileSystem where
  directory : Place → StreamName → Option (List DirectoryEntry)

def FileSystem.set (fs : FileSystem) (place : Place) (streamName : StreamName)
    (entries : Option (List DirectoryEntry)) : FileSystem where
  directory p n := if p = place ∧ n = streamName then entries else fs.directory p n

inductive CreationFault
  | createStagingDirectory
  | openSchema
  | serializeSchema
  | writeSchema
  | drawIdentifier
  | createMemfd
  | createQueue
  | sealQueue
  | linkQueue
  | publish
deriving DecidableEq, Repr

def CreationFault.failure : CreationFault → QueueFailure
  | .serializeSchema => .failedToSerializeSchema
  | .drawIdentifier => .osRngFailure
  | .createQueue => .queue
  | _ => .fileSystem

/-- What the system answers to one creation: the step that fails, if any, how much of the schema a
failing write still writes, and the identifier and the descriptor that are drawn. -/
structure Attempt where
  fault : Option CreationFault
  written : ℕ
  identifier : UInt64
  fd : ℕ
deriving DecidableEq, Repr

def Attempt.check (attempt : Attempt) (step : CreationFault) : Comp FileSystem QueueFailure Unit :=
  failIf (attempt.fault = some step) (.err step.failure)

def createDir (streamName : StreamName) : Comp FileSystem QueueFailure Unit := do
  failIf ((← get).directory .staging streamName ≠ none) (.err QueueFailure.fileSystem)
  modify fun fs => fs.set .staging streamName (some [])

/-- Creates an entry in a staging directory, where there is none of its name. -/
def createEntry (streamName : StreamName) (entry : DirectoryEntry) :
    Comp FileSystem QueueFailure Unit := do
  match (← get).directory .staging streamName with
  | none => throw (.err .fileSystem)
  | some entries =>
    failIf (entries.any entry.sameName) (.err QueueFailure.fileSystem)
    modify fun fs => fs.set .staging streamName (some (entries ++ [entry]))

/-- Writes to the schema file that was opened in a staging directory. -/
def writeSchemaFile (streamName : StreamName) (contents : List UInt8) :
    Comp FileSystem QueueFailure Unit :=
  modify fun fs => fs.set .staging streamName
    ((fs.directory .staging streamName).map (·.map fun
      | .schema _ => .schema contents
      | entry => entry))

/-- Replaces a destination that is absent or an empty directory. -/
def renameToPublished (source destination : StreamName) : Comp FileSystem QueueFailure Unit := do
  match (← get).directory .staging source with
  | none => throw (.err .fileSystem)
  | some entries =>
    failIf (((← get).directory .published destination).any fun old => !old.isEmpty)
      (.err QueueFailure.fileSystem)
    modify fun fs => (fs.set .staging source none).set .published destination (some entries)

structure StagingDirectory where
  path : StreamName
  cleanup : Bool
deriving DecidableEq

namespace StagingDirectory

def drop (stagingDirectory : StagingDirectory) (fs : FileSystem) : FileSystem :=
  if stagingDirectory.cleanup then fs.set .staging stagingDirectory.path none else fs

def new (attempt : Attempt) (path : StreamName) :
    Comp FileSystem QueueFailure StagingDirectory := do
  attempt.check .createStagingDirectory
  createDir path
  return ⟨path, true⟩

/-- The directory is dropped in any case, after a failure with `cleanup` still set. -/
def publish (attempt : Attempt) (stagingDirectory : StagingDirectory) (destination : StreamName) :
    Comp FileSystem QueueFailure Unit := do
  onStop stagingDirectory.drop do
    attempt.check .publish
    renameToPublished stagingDirectory.path destination
  modify { stagingDirectory with cleanup := false }.drop

end StagingDirectory

/-- A published queue, with the name of its directory and the descriptor of its file. -/
structure StreamQueue where
  identifier : UInt64
  queueFile : ℕ
  eventStreamDirectory : StreamName
deriving DecidableEq

/-- The queue file is anonymous. -/
def createSealedQueue (attempt : Attempt) : Comp FileSystem QueueFailure ℕ := do
  attempt.check .createMemfd
  attempt.check .createQueue
  attempt.check .sealQueue
  return attempt.fd

/-- Fills the staging directory and returns the identifier of the queue and its file. -/
def fillStagingDirectory (attempt : Attempt) (schema : List UInt8) (path : StreamName) :
    Comp FileSystem QueueFailure (UInt64 × ℕ) := do
  attempt.check .openSchema
  createEntry path (.schema [])
  attempt.check .serializeSchema
  if attempt.fault = some .writeSchema then
    writeSchemaFile path (schema.take attempt.written)
  attempt.check .writeSchema
  writeSchemaFile path schema
  attempt.check .drawIdentifier
  let queueFile ← createSealedQueue attempt
  attempt.check .linkQueue
  createEntry path (.queue attempt.identifier queueFile)
  return (attempt.identifier, queueFile)

namespace StreamQueue

/-- A failure on the way drops the staging directory. -/
def create (attempt : Attempt) (streamName : StreamName) (schema : List UInt8) :
    Comp FileSystem QueueFailure StreamQueue := do
  let stagingDirectory ← StagingDirectory.new attempt streamName
  let (identifier, queueFile) ←
    onStop stagingDirectory.drop (fillStagingDirectory attempt schema stagingDirectory.path)
  stagingDirectory.publish attempt streamName
  return ⟨identifier, queueFile, streamName⟩

def drop (queue : StreamQueue) (fs : FileSystem) : FileSystem :=
  fs.set .published queue.eventStreamDirectory none

end StreamQueue

/-- The state of a stream that its rule changes. -/
structure QueueState where
  queue : Option StreamQueue
  queueGeneration : UInt64
deriving DecidableEq

/-- `apply_stream_rule` of the stream with this name and this serialized schema. -/
def applyStreamRule (attempt : Attempt) (streamName : StreamName) (schema : List UInt8)
    (rule : StreamRule) : Comp (QueueState × FileSystem) QueueFailure Unit := do
  let incrementGeneration : Comp (QueueState × FileSystem) QueueFailure Unit :=
    modify fun (state, fs) => ({ state with queueGeneration := state.queueGeneration + 1 }, fs)
  match rule, (← get).1.queue with
  | .on, none =>
    let queue ← zoom Prod.snd (fun fs s => (s.1, fs))
      (StreamQueue.create attempt streamName schema)
    modify fun (state, fs) => ({ state with queue := some queue }, fs)
    incrementGeneration
  | .off, some queue =>
    modify fun (state, fs) => ({ state with queue := none }, queue.drop fs)
    incrementGeneration
  | .on, some _ => pure ()
  | .off, none => pure ()

section Steps

variable {attempt : Attempt} {step : CreationFault} {streamName : StreamName}
  {schema : List UInt8} {fs : FileSystem} {place : Place}
  {entries entries' : Option (List DirectoryEntry)}

namespace FileSystem

@[simp] theorem directory_set_self :
    (fs.set place streamName entries).directory place streamName = entries := by
  simp [set]

theorem directory_set_place {place' : Place} {streamName' : StreamName} (hne : place' ≠ place) :
    (fs.set place streamName entries).directory place' streamName' =
      fs.directory place' streamName' := by
  simp [set, hne]

theorem directory_set_name {place' : Place} {streamName' : StreamName}
    (hne : streamName' ≠ streamName) :
    (fs.set place streamName entries).directory place' streamName' =
      fs.directory place' streamName' := by
  simp [set, hne]

@[simp] theorem set_set :
    (fs.set place streamName entries).set place streamName entries' =
      fs.set place streamName entries' := by
  ext p n
  simp only [set]
  split <;> rfl

theorem set_eq_self (h : fs.directory place streamName = entries) :
    fs.set place streamName entries = fs := by
  ext p n
  simp only [set]
  split
  · next heq => rw [heq.1, heq.2, h]
  · rfl

end FileSystem

theorem exec_check : exec (attempt.check step) fs =
    (if attempt.fault = some step then .error (.err step.failure) else .ok (), fs) :=
  exec_failIf _ _ _

theorem exec_createEntry {es : List DirectoryEntry} {entry : DirectoryEntry} :
    exec (createEntry streamName entry) (fs.set .staging streamName (some es)) =
      if es.any entry.sameName then
        (.error (.err .fileSystem), fs.set .staging streamName (some es))
      else (.ok (), fs.set .staging streamName (some (es ++ [entry]))) := by
  simp only [createEntry, exec_bind, exec_get, FileSystem.directory_set_self, exec_failIf]
  by_cases hname : es.any entry.sameName = true
  · simp only [if_pos hname]
  · simp only [if_neg hname, exec_modify, FileSystem.set_set]

theorem exec_writeSchemaFile {old contents : List UInt8} :
    exec (writeSchemaFile streamName contents)
        (fs.set .staging streamName (some [.schema old])) =
      (.ok (), fs.set .staging streamName (some [.schema contents])) := by
  simp [writeSchemaFile, exec_modify]

/-- A step that fails leaves the staging directory with some of its entries. -/
theorem exec_fill_of_fault (hfault : attempt.fault = some step)
    (hfill : step ≠ .createStagingDirectory ∧ step ≠ .publish) :
    ∃ entries, exec (fillStagingDirectory attempt schema streamName)
        (fs.set .staging streamName (some [])) =
      (.error (.err step.failure), fs.set .staging streamName entries) := by
  cases step <;> simp_all [fillStagingDirectory, exec_bind, exec_check, exec_createEntry,
    exec_writeSchemaFile, createSealedQueue]

/-- The entries of a stream directory that was filled to the end. -/
def filledEntries (schema : List UInt8) (identifier : UInt64) (fd : ℕ) : List DirectoryEntry :=
  [.schema schema, .queue identifier fd]

theorem exec_fill_of_ok (hok : attempt.fault = none ∨ attempt.fault = some .publish) :
    exec (fillStagingDirectory attempt schema streamName) (fs.set .staging streamName (some [])) =
      (.ok (attempt.identifier, attempt.fd), fs.set .staging streamName
        (some (filledEntries schema attempt.identifier attempt.fd))) := by
  rcases hok with hok | hok
  · simp [hok, fillStagingDirectory, exec_bind, exec_check, exec_createEntry, exec_pure,
      exec_writeSchemaFile, createSealedQueue, filledEntries, DirectoryEntry.sameName,
      -bind_pure_comp]
  · simp [hok, fillStagingDirectory, exec_bind, exec_check, exec_createEntry, exec_pure,
      exec_writeSchemaFile, createSealedQueue, filledEntries, DirectoryEntry.sameName,
      -bind_pure_comp]

/-- What publishing the staging directory does: it is renamed, or dropped and thereby removed. -/
theorem exec_publish {es : List DirectoryEntry} :
    exec (StagingDirectory.publish attempt ⟨streamName, true⟩ streamName)
        (fs.set .staging streamName (some es)) =
      if attempt.fault = some .publish then
        (.error (.err .fileSystem), fs.set .staging streamName none)
      else if (fs.directory .published streamName).any fun old => !old.isEmpty then
        (.error (.err .fileSystem), fs.set .staging streamName none)
      else
        (.ok (), (fs.set .staging streamName none).set .published streamName (some es)) := by
  have hdestination : (fs.set .staging streamName (some es)).directory .published streamName =
      fs.directory .published streamName := FileSystem.directory_set_place (by decide)
  rw [StagingDirectory.publish, exec_bind, exec_onStop, exec_bind, exec_check]
  by_cases hfault : attempt.fault = some .publish
  · simp only [if_pos hfault, StagingDirectory.drop, FileSystem.set_set]
    rfl
  · simp only [if_neg hfault, renameToPublished, exec_bind, exec_get,
      FileSystem.directory_set_self, hdestination, exec_failIf]
    by_cases hold : (fs.directory .published streamName).any (fun old => !old.isEmpty) = true
    · simp only [if_pos hold, StagingDirectory.drop, if_true, FileSystem.set_set]
    · simp only [if_neg hold, exec_modify, FileSystem.set_set, StagingDirectory.drop]
      rfl

theorem exec_new : exec (StagingDirectory.new attempt streamName) fs =
    if attempt.fault = some .createStagingDirectory ∨ fs.directory .staging streamName ≠ none then
      (.error (.err .fileSystem), fs)
    else (.ok ⟨streamName, true⟩, fs.set .staging streamName (some [])) := by
  rw [StagingDirectory.new, exec_bind, exec_check]
  by_cases hfault : attempt.fault = some .createStagingDirectory
  · rw [if_pos hfault, if_pos (.inl hfault)]
    rfl
  · rw [if_neg hfault]
    simp only [createDir, exec_bind, exec_get, exec_failIf]
    by_cases hstaged : fs.directory .staging streamName ≠ none
    · rw [if_pos hstaged, if_pos (.inr hstaged)]
    · rw [if_neg hstaged, if_neg (not_or.mpr ⟨hfault, hstaged⟩)]
      rfl

/-- A creation returns a queue whose directory it has published, or changes nothing. -/
theorem exec_create : exec (StreamQueue.create attempt streamName schema) fs =
    if fs.directory .staging streamName ≠ none then (.error (.err .fileSystem), fs)
    else match attempt.fault with
      | some step => (.error (.err step.failure), fs)
      | none =>
        if (fs.directory .published streamName).any fun old => !old.isEmpty then
          (.error (.err .fileSystem), fs)
        else (.ok ⟨attempt.identifier, attempt.fd, streamName⟩,
          fs.set .published streamName
            (some (filledEntries schema attempt.identifier attempt.fd))) := by
  rw [StreamQueue.create, exec_bind, exec_new]
  by_cases hstaged : fs.directory .staging streamName ≠ none
  · rw [if_pos (.inr hstaged), if_pos hstaged]
  rw [if_neg hstaged]
  -- Removing the staging directory brings back the state before it was created.
  have hclean (entries : Option (List DirectoryEntry)) :
      StagingDirectory.drop ⟨streamName, true⟩ (fs.set .staging streamName entries) = fs := by
    rw [StagingDirectory.drop, if_pos rfl, FileSystem.set_set,
      FileSystem.set_eq_self (not_ne_iff.mp hstaged)]
  cases hfault : attempt.fault with
  | none =>
    rw [if_neg (by simp [hstaged])]
    simp only [exec_bind, exec_onStop, exec_fill_of_ok (.inl hfault), exec_publish, hfault,
      reduceCtorEq, if_false, FileSystem.set_eq_self (not_ne_iff.mp hstaged)]
    by_cases hold : (fs.directory .published streamName).any (fun old => !old.isEmpty) = true
    · simp only [if_pos hold]
    · simp only [if_neg hold, exec_pure]
  | some step =>
    by_cases hnew : step = .createStagingDirectory
    · rw [if_pos (.inl (by rw [hnew]))]
      simp only [hnew, CreationFault.failure]
    · rw [if_neg (by simp [hstaged, hnew])]
      by_cases hpublish : step = .publish
      · subst hpublish
        simp only [exec_bind, exec_onStop, exec_fill_of_ok (.inr hfault), exec_publish, hfault,
          if_true, FileSystem.set_eq_self (not_ne_iff.mp hstaged), CreationFault.failure]
      · obtain ⟨entries, hfill⟩ :=
          @exec_fill_of_fault attempt step streamName schema fs hfault ⟨hnew, hpublish⟩
        simp only [exec_bind, exec_onStop, hfill, hclean]

/-- The error of a creation at which a step fails. -/
theorem exec_create_of_fault (hfault : attempt.fault = some step) :
    exec (StreamQueue.create attempt streamName schema) fs =
      (.error (.err (if fs.directory .staging streamName ≠ none then .fileSystem
        else step.failure)), fs) := by
  rw [exec_create, hfault]
  split
  · rfl
  · rfl

theorem create_cases :
    (∃ failure, exec (StreamQueue.create attempt streamName schema) fs =
      (.error (.err failure), fs)) ∨
    exec (StreamQueue.create attempt streamName schema) fs =
      (.ok ⟨attempt.identifier, attempt.fd, streamName⟩, fs.set .published streamName
        (some (filledEntries schema attempt.identifier attempt.fd))) := by
  rw [exec_create]
  split
  · exact .inl ⟨_, rfl⟩
  · cases attempt.fault with
    | some step => exact .inl ⟨_, rfl⟩
    | none =>
      simp only
      split
      · exact .inl ⟨_, rfl⟩
      · exact .inr rfl

variable {state : QueueState} {queue : StreamQueue}

theorem exec_applyStreamRule_create (hqueue : state.queue = none) :
    exec (applyStreamRule attempt streamName schema .on) (state, fs) =
      match exec (StreamQueue.create attempt streamName schema) fs with
      | (.ok queue, fs') => (.ok (), ⟨some queue, state.queueGeneration + 1⟩, fs')
      | (.error e, fs') => (.error e, state, fs') := by
  simp only [applyStreamRule, exec_bind, exec_get, hqueue, exec_zoom, exec_modify]
  rcases exec (StreamQueue.create attempt streamName schema) fs with ⟨e | queue, fs'⟩
  · rfl
  · rfl

theorem exec_applyStreamRule_drop (hqueue : state.queue = some queue) :
    exec (applyStreamRule attempt streamName schema .off) (state, fs) =
      (.ok (), ⟨none, state.queueGeneration + 1⟩, queue.drop fs) := by
  simp only [applyStreamRule, exec_bind, exec_get, hqueue, exec_modify]

theorem exec_applyStreamRule_on (hqueue : state.queue = some queue) :
    exec (applyStreamRule attempt streamName schema .on) (state, fs) = (.ok (), state, fs) := by
  simp only [applyStreamRule, exec_bind, exec_get, hqueue, exec_pure]

theorem exec_applyStreamRule_off (hqueue : state.queue = none) :
    exec (applyStreamRule attempt streamName schema .off) (state, fs) = (.ok (), state, fs) := by
  simp only [applyStreamRule, exec_bind, exec_get, hqueue, exec_pure]

/-- The ways in which a rule can be applied. -/
inductive Applies (attempt : Attempt) (streamName : StreamName) (schema : List UInt8)
    (state : QueueState) (fs : FileSystem) :
    StreamRule → Outcome QueueFailure Unit × QueueState × FileSystem → Prop
  | created (hqueue : state.queue = none) :
      Applies attempt streamName schema state fs .on
        (.ok (), ⟨some ⟨attempt.identifier, attempt.fd, streamName⟩, state.queueGeneration + 1⟩,
          fs.set .published streamName
            (some (filledEntries schema attempt.identifier attempt.fd)))
  | failed (failure : QueueFailure) (hqueue : state.queue = none) :
      Applies attempt streamName schema state fs .on (.error (.err failure), state, fs)
  | dropped (queue : StreamQueue) (hqueue : state.queue = some queue) :
      Applies attempt streamName schema state fs .off
        (.ok (), ⟨none, state.queueGeneration + 1⟩, queue.drop fs)
  | followed (rule : StreamRule) (hqueue : state.queue.isSome = true ↔ rule = .on) :
      Applies attempt streamName schema state fs rule (.ok (), state, fs)

theorem applyStreamRule_cases (rule : StreamRule) :
    Applies attempt streamName schema state fs rule
      (exec (applyStreamRule attempt streamName schema rule) (state, fs)) := by
  cases hqueue : state.queue with
  | none =>
    cases rule with
    | on =>
      rw [exec_applyStreamRule_create hqueue]
      obtain ⟨failure, hfailed⟩ | hcreated := @create_cases attempt streamName schema fs
      · rw [hfailed]
        exact .failed failure hqueue
      · rw [hcreated]
        exact .created hqueue
    | off =>
      rw [exec_applyStreamRule_off hqueue]
      exact .followed .off (by simp [hqueue])
  | some queue =>
    cases rule with
    | on =>
      rw [exec_applyStreamRule_on hqueue]
      exact .followed .on (by simp [hqueue])
    | off =>
      rw [exec_applyStreamRule_drop hqueue]
      exact .dropped queue hqueue

/-- Where applying a rule fails, nothing has changed. -/
theorem applyStreamRule_of_error {rule : StreamRule} {e : Stop QueueFailure}
    {p p' : QueueState × FileSystem}
    (h : exec (applyStreamRule attempt streamName schema rule) p = (.error e, p')) : p' = p := by
  obtain ⟨state, fs⟩ := p
  have hcases := @applyStreamRule_cases attempt streamName schema fs state rule
  rw [h] at hcases
  cases hcases
  rfl

/-- A step that fails makes enabling the stream fail. -/
theorem applyStreamRule_of_fault {p : QueueState × FileSystem} (hfault : attempt.fault = some step)
    (hqueue : p.1.queue = none) :
    exec (applyStreamRule attempt streamName schema .on) p =
      (.error (.err (if p.2.directory .staging streamName ≠ none then .fileSystem
        else step.failure)), p) := by
  obtain ⟨state, fs⟩ := p
  rw [exec_applyStreamRule_create hqueue, exec_create_of_fault hfault]

end Steps

end AgaveSdk.EventSystem
