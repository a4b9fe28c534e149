import AgaveSdk.Library.Memory
import AgaveSdk.EventSystem.StreamPolicy

/-! The directories in which queues are published. Each action is one system call of the publisher
process, so a run is an interleaving of any number of queues being created and removed. -/
namespace AgaveSdk.EventSystem
open Runs Memory

/-- The directory `tmp` and the directory `event-streams`. -/
inductive Place where
  | staging
  | published
  deriving DecidableEq, Repr

/-- An entry of a stream directory: the schema file, with the creation that wrote it as a ghost, or
the link `queue-<identifier>` to a descriptor of the publisher process. -/
inductive Entry where
  | schema (writer : ℕ)
  | queue (identifier : UInt64) (fd : ℕ)
  deriving DecidableEq, Repr

def Entry.sameName : Entry → Entry → Bool
  | .schema _, .schema _ => true
  | .queue identifier _, .queue identifier' _ => identifier == identifier'
  | _, _ => false

/-- A directory object. The creation it belongs to is a ghost. -/
structure Directory where
  entries : List Entry
  creation : ℕ
  deriving DecidableEq, Repr

/-- An anonymous file, which has an identifier once the queue in it is initialized. -/
structure QueueFile where
  identifier : Option UInt64
  isSealed : Bool
  creation : ℕ
  deriving DecidableEq, Repr

/-- How far `StreamQueue::create` has come. -/
inductive Progress where
  | staged
  | schemaWritten
  | identified
  | fileCreated
  | initialized
  | fileSealed
  | linked
  deriving DecidableEq, Repr

/-- The life of a queue. A removal knows the path, and after its first step a directory handle. -/
inductive Stage where
  | begun
  | building (progress : Progress)
  | live
  | removing (place : Place) (handle : Option ℕ)
  | gone
  deriving DecidableEq, Repr

/-- A call of `StreamQueue::create` and the queue it returned. The queue file is known by its
descriptor and its object. The directory object is a ghost, as the code only knows the path. -/
structure Creation where
  streamName : StreamName
  stage : Stage
  queueIdentifier : Option UInt64
  queueFile : Option (ℕ × ℕ)
  directory : Option ℕ

/-- What occupies a descriptor number. -/
inductive Descriptor where
  | queue (file : ℕ)
  | other
  deriving DecidableEq, Repr

structure World where
  directories : List Directory
  path : Place → StreamName → Option ℕ
  files : List QueueFile
  descriptors : ℕ → Option Descriptor
  creations : List Creation

/-- The system calls of one creation, and what makes it stop. -/
inductive CreationStep where
  | createStagingDirectory
  | writeSchema
  | drawIdentifier (identifier : UInt64)
  | createMemfd (fd : ℕ)
  | initializeQueue
  | sealQueue
  | linkQueue
  | publish
  | fail
  | dispose
  | openDirectory
  | unlinkEntry (entry : Entry)
  | removeDirectory
  | abandon
  | closeQueueFile
  deriving DecidableEq, Repr

/-- A creation that fails removes its staging directory. -/
def Creation.cleanup (c : Creation) : Creation := { c with stage := .removing .staging none }

namespace World

def new : World := ⟨[], fun _ _ => none, [], fun _ => none, []⟩

def put (s : World) (k : ℕ) (c : Creation) : World := { s with creations := s.creations.set k c }

def setPath (s : World) (place : Place) (streamName : StreamName) (d : Option ℕ) : World :=
  { s with path := fun p n => if p = place ∧ n = streamName then d else s.path p n }

def modifyEntries (s : World) (d : ℕ) (f : List Entry → List Entry) : World :=
  { s with directories := s.directories.modify d fun dir => { dir with entries := f dir.entries } }

def setDescriptor (s : World) (fd : ℕ) (descriptor : Option Descriptor) : World :=
  { s with descriptors := fun n => if n = fd then descriptor else s.descriptors n }

def allocDirectory (s : World) (k : ℕ) : World :=
  { s with directories := s.directories ++ [⟨[], k⟩] }

def allocFile (s : World) (k : ℕ) : World := { s with files := s.files ++ [⟨none, false, k⟩] }

def modifyFile (s : World) (f : ℕ) (g : QueueFile → QueueFile) : World :=
  { s with files := s.files.modify f g }

def isEmptyDirectory (s : World) (d : ℕ) : Bool :=
  s.directories[d]?.any fun dir => dir.entries.isEmpty

/-- Creates an entry through the path of the staging directory, where no entry of its name
exists. -/
def addStagedEntry (s : World) (k : ℕ) (c : Creation) (entry : Entry) (progress : Progress) :
    World :=
  match s.path .staging c.streamName with
  | none => s.put k c.cleanup
  | some d =>
      if s.directories[d]?.any fun dir => dir.entries.any entry.sameName then s.put k c.cleanup
      else (s.modifyEntries d (· ++ [entry])).put k { c with stage := .building progress }

/-- `rename` replaces a destination that is absent or an empty directory. -/
def publish (s : World) (k : ℕ) (c : Creation) : World :=
  match s.path .staging c.streamName with
  | none => s.put k c.cleanup
  | some d =>
      if (s.path .published c.streamName).all s.isEmptyDirectory then
        ((s.setPath .staging c.streamName none).setPath .published c.streamName (some d)).put k
          { c with stage := .live }
      else s.put k c.cleanup

/-- The steps of one creation, each in the stage where the code takes it. `fail` is a system call
that fails without a reason in this state. -/
def act (s : World) (k : ℕ) (c : Creation) : CreationStep → Option World
  | .createStagingDirectory =>
      if c.stage = .begun then
        match s.path .staging c.streamName with
        | some _ => some (s.put k { c with stage := .gone })
        | none => some (((s.allocDirectory k).setPath .staging c.streamName
            (some s.directories.length)).put k
            { c with stage := .building .staged, directory := some s.directories.length })
      else none
  | .writeSchema =>
      if c.stage = .building .staged then some (s.addStagedEntry k c (.schema k) .schemaWritten)
      else none
  | .drawIdentifier identifier =>
      -- identifiers are random numbers of 64 bits, taken to be distinct
      if c.stage = .building .schemaWritten ∧
          ∀ c' ∈ s.creations, c'.queueIdentifier ≠ some identifier then
        some (s.put k
          { c with stage := .building .identified, queueIdentifier := some identifier })
      else none
  | .createMemfd fd =>
      if c.stage = .building .identified ∧ s.descriptors fd = none then
        some (((s.allocFile k).setDescriptor fd (some (.queue s.files.length))).put k
          { c with stage := .building .fileCreated, queueFile := some (fd, s.files.length) })
      else none
  | .initializeQueue => do
      let file ← c.queueFile
      if c.stage = .building .fileCreated then
        some ((s.modifyFile file.2 fun file => { file with identifier := c.queueIdentifier }).put k
          { c with stage := .building .initialized })
      else none
  | .sealQueue => do
      let file ← c.queueFile
      if c.stage = .building .initialized then
        some ((s.modifyFile file.2 fun file => { file with isSealed := true }).put k
          { c with stage := .building .fileSealed })
      else none
  | .linkQueue => do
      let file ← c.queueFile
      let identifier ← c.queueIdentifier
      if c.stage = .building .fileSealed then
        some (s.addStagedEntry k c (.queue identifier file.1) .linked)
      else none
  | .publish => if c.stage = .building .linked then some (s.publish k c) else none
  | .fail =>
      match c.stage with
      | .begun => some (s.put k { c with stage := .gone })
      | .building _ => some (s.put k c.cleanup)
      | _ => none
  | .dispose =>
      if c.stage = .live then some (s.put k { c with stage := .removing .published none }) else none
  | .openDirectory =>
      match c.stage with
      | .removing place none =>
          match s.path place c.streamName with
          | none => some (s.put k { c with stage := .gone })
          | some d => some (s.put k { c with stage := .removing place (some d) })
      | _ => none
  | .unlinkEntry entry =>
      match c.stage with
      | .removing _ (some d) => some (s.modifyEntries d (·.erase entry))
      | _ => none
  | .removeDirectory =>
      match c.stage with
      | .removing place (some _) =>
          if (s.path place c.streamName).any s.isEmptyDirectory then
            some ((s.setPath place c.streamName none).put k { c with stage := .gone })
          else some (s.put k { c with stage := .gone })
      | _ => none
  | .abandon =>
      match c.stage with
      | .removing _ _ => some (s.put k { c with stage := .gone })
      | _ => none
  | .closeQueueFile => do
      let file ← c.queueFile
      match c.stage with
      | .removing .staging _ | .gone =>
          some ((s.setDescriptor file.1 none).put k { c with queueFile := none })
      | _ => none

end World

/-- What the publisher process does: queues are created and take their steps, and descriptors are
used and reused for other files. -/
inductive PublisherProcessAction where
  | create (streamName : StreamName)
  | creation (k : ℕ) (step : CreationStep)
  | openFile (fd : ℕ) (descriptor : Descriptor)
  | closeFile (fd : ℕ)
  deriving DecidableEq

def World.step (s : World) : PublisherProcessAction → Option World
  | .create streamName =>
      some { s with creations := s.creations ++ [⟨streamName, .begun, none, none, none⟩] }
  | .creation k step => s.creations[k]?.bind fun c => s.act k c step
  | .openFile fd descriptor =>
      if s.descriptors fd = none then some (s.setDescriptor fd (some descriptor)) else none
  | .closeFile fd =>
      -- the descriptors of queue files belong to their creations
      if ∀ c ∈ s.creations, c.queueFile.all fun file => file.1 ≠ fd then
        some (s.setDescriptor fd none)
      else none

/-- What a step of a creation can do to the world. -/
inductive World.Acts (s : World) (k : ℕ) (c : Creation) : World → Prop where
  | ended (hstage : c.stage = .begun ∨ ∃ place handle, c.stage = .removing place handle) :
      s.Acts k c (s.put k { c with stage := .gone })
  | cleanedUp {progress : Progress} (hstage : c.stage = .building progress) :
      s.Acts k c (s.put k c.cleanup)
  | staged (hstage : c.stage = .begun) (hpath : s.path .staging c.streamName = none) :
      s.Acts k c (((s.allocDirectory k).setPath .staging c.streamName
        (some s.directories.length)).put k
        { c with stage := .building .staged, directory := some s.directories.length })
  | schemaAdded (hstage : c.stage = .building .staged) :
      s.Acts k c (s.addStagedEntry k c (.schema k) .schemaWritten)
  | identified {identifier : UInt64} (hstage : c.stage = .building .schemaWritten)
      (hfresh : ∀ c' ∈ s.creations, c'.queueIdentifier ≠ some identifier) :
      s.Acts k c (s.put k
        { c with stage := .building .identified, queueIdentifier := some identifier })
  | fileCreated {fd : ℕ} (hstage : c.stage = .building .identified)
      (hfd : s.descriptors fd = none) :
      s.Acts k c (((s.allocFile k).setDescriptor fd (some (.queue s.files.length))).put k
        { c with stage := .building .fileCreated, queueFile := some (fd, s.files.length) })
  | fileInitialized {file : ℕ × ℕ} (hstage : c.stage = .building .fileCreated)
      (hfile : c.queueFile = some file) :
      s.Acts k c ((s.modifyFile file.2 fun file =>
        { file with identifier := c.queueIdentifier }).put k
        { c with stage := .building .initialized })
  | fileSealed {file : ℕ × ℕ} (hstage : c.stage = .building .initialized)
      (hfile : c.queueFile = some file) :
      s.Acts k c ((s.modifyFile file.2 fun file => { file with isSealed := true }).put k
        { c with stage := .building .fileSealed })
  | queueLinked {file : ℕ × ℕ} {identifier : UInt64} (hstage : c.stage = .building .fileSealed)
      (hfile : c.queueFile = some file) (hidentifier : c.queueIdentifier = some identifier) :
      s.Acts k c (s.addStagedEntry k c (.queue identifier file.1) .linked)
  | published (hstage : c.stage = .building .linked) : s.Acts k c (s.publish k c)
  | disposed (hstage : c.stage = .live) :
      s.Acts k c (s.put k { c with stage := .removing .published none })
  | directoryOpened {place : Place} {d : ℕ} (hstage : c.stage = .removing place none)
      (hpath : s.path place c.streamName = some d) :
      s.Acts k c (s.put k { c with stage := .removing place (some d) })
  | entryUnlinked {place : Place} {d : ℕ} (entry : Entry)
      (hstage : c.stage = .removing place (some d)) :
      s.Acts k c (s.modifyEntries d (·.erase entry))
  | directoryRemoved {place : Place} {d : ℕ} (hstage : c.stage = .removing place (some d))
      (hempty : (s.path place c.streamName).any s.isEmptyDirectory = true) :
      s.Acts k c ((s.setPath place c.streamName none).put k { c with stage := .gone })
  | fileClosed {file : ℕ × ℕ} (hfile : c.queueFile = some file)
      (hstage : (∃ handle, c.stage = .removing .staging handle) ∨ c.stage = .gone) :
      s.Acts k c ((s.setDescriptor file.1 none).put k { c with queueFile := none })

theorem World.act_cases {s s' : World} {k : ℕ} {c : Creation} {step : CreationStep}
    (hact : s.act k c step = some s') : s.Acts k c s' := by
  cases step with
  | createStagingDirectory =>
    obtain ⟨hstage, hs'⟩ := Option.ite_none_right_eq_some.mp hact
    split at hs'
    · cases hs'
      exact .ended (.inl hstage)
    · next hpath =>
      cases hs'
      exact .staged hstage hpath
  | writeSchema =>
    obtain ⟨hstage, hs'⟩ := Option.ite_none_right_eq_some.mp hact
    cases hs'
    exact .schemaAdded hstage
  | drawIdentifier identifier =>
    obtain ⟨⟨hstage, hfresh⟩, hs'⟩ := Option.ite_none_right_eq_some.mp hact
    cases hs'
    exact .identified hstage hfresh
  | createMemfd fd =>
    obtain ⟨⟨hstage, hfd⟩, hs'⟩ := Option.ite_none_right_eq_some.mp hact
    cases hs'
    exact .fileCreated hstage hfd
  | initializeQueue =>
    obtain ⟨file, hfile, hact⟩ := Option.bind_eq_some_iff.mp hact
    obtain ⟨hstage, hs'⟩ := Option.ite_none_right_eq_some.mp hact
    cases hs'
    exact .fileInitialized hstage hfile
  | sealQueue =>
    obtain ⟨file, hfile, hact⟩ := Option.bind_eq_some_iff.mp hact
    obtain ⟨hstage, hs'⟩ := Option.ite_none_right_eq_some.mp hact
    cases hs'
    exact .fileSealed hstage hfile
  | linkQueue =>
    obtain ⟨file, hfile, hact⟩ := Option.bind_eq_some_iff.mp hact
    obtain ⟨identifier, hidentifier, hact⟩ := Option.bind_eq_some_iff.mp hact
    obtain ⟨hstage, hs'⟩ := Option.ite_none_right_eq_some.mp hact
    cases hs'
    exact .queueLinked hstage hfile hidentifier
  | publish =>
    obtain ⟨hstage, hs'⟩ := Option.ite_none_right_eq_some.mp hact
    cases hs'
    exact .published hstage
  | fail =>
    simp only [act] at hact
    split at hact
    · next hstage =>
      cases hact
      exact .ended (.inl hstage)
    · next hstage =>
      cases hact
      exact .cleanedUp hstage
    · cases hact
  | dispose =>
    obtain ⟨hstage, hs'⟩ := Option.ite_none_right_eq_some.mp hact
    cases hs'
    exact .disposed hstage
  | openDirectory =>
    simp only [act] at hact
    split at hact
    · next hstage =>
      split at hact
      · cases hact
        exact .ended (.inr ⟨_, _, hstage⟩)
      · next hpath =>
        cases hact
        exact .directoryOpened hstage hpath
    · cases hact
  | unlinkEntry entry =>
    simp only [act] at hact
    split at hact
    · next hstage =>
      cases hact
      exact .entryUnlinked entry hstage
    · cases hact
  | removeDirectory =>
    simp only [act] at hact
    split at hact
    · next hstage =>
      split at hact
      · next hempty =>
        cases hact
        exact .directoryRemoved hstage hempty
      · cases hact
        exact .ended (.inr ⟨_, _, hstage⟩)
    · cases hact
  | abandon =>
    simp only [act] at hact
    split at hact
    · next hstage =>
      cases hact
      exact .ended (.inr ⟨_, _, hstage⟩)
    · cases hact
  | closeQueueFile =>
    obtain ⟨file, hfile, hact⟩ := Option.bind_eq_some_iff.mp hact
    split at hact
    · next hstage =>
      cases hact
      exact .fileClosed hfile (.inl ⟨_, hstage⟩)
    · next hstage =>
      cases hact
      exact .fileClosed hfile (.inr hstage)
    · cases hact

end AgaveSdk.EventSystem
