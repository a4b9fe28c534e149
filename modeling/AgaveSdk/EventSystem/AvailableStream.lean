import AgaveSdk.EventSystem.PublishedDirectories

/-! Subscribers that look up a published stream while publishers go on. Between any two lookups of
a subscriber the name, the path and the descriptor number may have come to mean something else. -/
namespace AgaveSdk.EventSystem
open Runs Memory

inductive CreateAvailableStreamError where
  | ioError
  | queueIdentifierMismatch (expected actual : UInt64)
  | schemaDeserializationFailed
  | streamNameIsNotValid (error : StreamNameValidationError)
  | queueIsNotSealed
  | queueFileIsNotPublished
  | joiningBroadcastFailed
  deriving DecidableEq, Repr

/-- A schema and a queue, known by the creation that wrote the schema file and by the file object
that was joined. -/
structure AvailableStream where
  streamName : StreamName
  schema : ℕ
  broadcastHandle : ℕ
  deriving DecidableEq

/-- Where a call of `AvailableStream::try_new` is. -/
inductive TryNew where
  | begun (fileName : Str)
  | named (streamName : StreamName)
  | opened (streamName : StreamName) (handle : ℕ)
  | schemaRead (streamName : StreamName) (handle schema : ℕ)
  | queueListed (streamName : StreamName) (handle schema : ℕ) (expected : UInt64) (fd : ℕ)
  | queueOpened (streamName : StreamName) (schema : ℕ) (expected : UInt64) (file : Descriptor)
  | sealsChecked (streamName : StreamName) (schema : ℕ) (expected : UInt64) (file : ℕ)
  | joined (stream : AvailableStream) (expected actual : UInt64)
  | finished (result : Except CreateAvailableStreamError AvailableStream)

def Directory.schema? (dir : Directory) : Option ℕ :=
  dir.entries.findSome? fun
    | .schema writer => some writer
    | .queue _ _ => none

def Directory.queue? (dir : Directory) : Option (UInt64 × ℕ) :=
  dir.entries.findSome? fun
    | .schema _ => none
    | .queue identifier fd => some (identifier, fd)

/-- The next lookup, by what it finds in the world. Entries are looked up through the handle, and
the link of the queue leads to the file that now occupies the descriptor number. -/
def TryNew.next (world : World) : TryNew → TryNew
  | .begun fileName =>
      match StreamName.tryNew fileName with
      | .ok streamName => .named streamName
      | .error e => .finished (.error (.streamNameIsNotValid e))
  | .named streamName =>
      match world.path .published streamName with
      | some handle => .opened streamName handle
      | none => .finished (.error .ioError)
  | .opened streamName handle =>
      match world.directories[handle]?.bind Directory.schema? with
      | some schema => .schemaRead streamName handle schema
      | none => .finished (.error .ioError)
  | .schemaRead streamName handle schema =>
      match world.directories[handle]?.bind Directory.queue? with
      | some (expected, fd) => .queueListed streamName handle schema expected fd
      | none => .finished (.error .queueFileIsNotPublished)
  | .queueListed streamName handle schema expected fd =>
      if world.directories[handle]?.any fun dir => dir.entries.contains (.queue expected fd) then
        match world.descriptors fd with
        | some file => .queueOpened streamName schema expected file
        | none => .finished (.error .ioError)
      else .finished (.error .ioError)
  | .queueOpened streamName schema expected file =>
      match file with
      | .other => .finished (.error .queueIsNotSealed)
      | .queue f =>
          if world.files[f]?.any QueueFile.isSealed then .sealsChecked streamName schema expected f
          else .finished (.error .queueIsNotSealed)
  | .sealsChecked streamName schema expected f =>
      match world.files[f]?.bind QueueFile.identifier with
      | some actual => .joined ⟨streamName, schema, f⟩ expected actual
      | none => .finished (.error .joiningBroadcastFailed)
  | .joined stream expected actual =>
      if expected ≠ actual then .finished (.error (.queueIdentifierMismatch expected actual))
      else .finished (.ok stream)
  | .finished result => .finished result

structure Machine where
  world : World
  subscribers : List TryNew

/-- The publisher process and the subscribers take turns in any order. A lookup may also fail for a
reason outside this state. -/
inductive MachineAction where
  | publisher (action : PublisherProcessAction)
  | tryNew (fileName : Str)
  | next (i : ℕ)
  | fail (i : ℕ) (error : CreateAvailableStreamError)

namespace Machine

def new : Machine := ⟨World.new, []⟩

def step (m : Machine) : MachineAction → Option Machine
  | .publisher action => do return { m with world := ← m.world.step action }
  | .tryNew fileName => some { m with subscribers := m.subscribers ++ [.begun fileName] }
  | .next i => do
      let subscriber ← m.subscribers[i]?
      return { m with subscribers := m.subscribers.set i (subscriber.next m.world) }
  | .fail i error =>
      some { m with subscribers := m.subscribers.set i (.finished (.error error)) }

end Machine

/-- What a subscriber knows about the creation whose schema it has read. -/
def TryNew.Knows (world : World) : TryNew → Prop
  | .begun _ | .named _ | .opened _ _ => True
  | .schemaRead _ handle schema =>
      ∃ dir, world.directories[handle]? = some dir ∧ dir.creation = schema
  | .queueListed _ _ schema expected _ => world.Drew schema expected
  | .queueOpened _ schema expected _ => world.Drew schema expected
  | .sealsChecked _ schema expected _ => world.Drew schema expected
  | .joined stream expected actual => world.Drew stream.schema expected ∧
      ∃ file, world.files[stream.broadcastHandle]? = some file ∧ world.Drew file.creation actual
  | .finished (.ok stream) =>
      ∃ file c, world.files[stream.broadcastHandle]? = some file ∧
        file.creation = stream.schema ∧ world.creations[stream.schema]? = some c
  | .finished (.error _) => True

section Subscribers

variable {world world' : World} {t : TryNew}

theorem Directory.schema?_eq_some {dir : Directory} {writer : ℕ} (h : dir.schema? = some writer) :
    .schema writer ∈ dir.entries := by
  obtain ⟨entry, hmem, hentry⟩ := List.exists_of_findSome?_eq_some h
  cases entry with
  | schema writer' =>
    cases hentry
    exact hmem
  | queue identifier fd => cases hentry

theorem Directory.queue?_eq_some {dir : Directory} {identifier : UInt64} {fd : ℕ}
    (h : dir.queue? = some (identifier, fd)) : .queue identifier fd ∈ dir.entries := by
  obtain ⟨entry, hmem, hentry⟩ := List.exists_of_findSome?_eq_some h
  cases entry with
  | schema writer => cases hentry
  | queue identifier' fd' =>
    cases hentry
    exact hmem

theorem World.Extends.drew (h : world.Extends world') {k : ℕ} {identifier : UInt64}
    (hdrew : world.Drew k identifier) : world'.Drew k identifier := by
  obtain ⟨c, hc, hid⟩ := hdrew
  obtain ⟨c', hc', -, hid', -⟩ := h.creations hc
  exact ⟨c', hc', hid' _ hid⟩

/-- Publishers cannot make a subscriber's knowledge false. -/
theorem TryNew.Knows.mono (h : t.Knows world) (hext : world.Extends world') : t.Knows world' := by
  cases t with
  | begun _ | named _ | opened _ _ => trivial
  | schemaRead streamName handle schema =>
    obtain ⟨dir, hdir, hcreation⟩ := h
    obtain ⟨dir', hdir', hcreation'⟩ := hext.directories hdir
    exact ⟨dir', hdir', hcreation'.trans hcreation⟩
  | queueListed streamName handle schema expected fd => exact hext.drew h
  | queueOpened streamName schema expected file => exact hext.drew h
  | sealsChecked streamName schema expected f => exact hext.drew h
  | joined stream expected actual =>
    obtain ⟨hschema, file, hfile, hdrew⟩ := h
    obtain ⟨file', hfile', hcreation, -⟩ := hext.files hfile
    exact ⟨hext.drew hschema, file', hfile', hcreation ▸ hext.drew hdrew⟩
  | finished result =>
    cases result with
    | error e => trivial
    | ok stream =>
      obtain ⟨file, c, hfile, hcreation, hc⟩ := h
      obtain ⟨file', hfile', hcreation', -⟩ := hext.files hfile
      obtain ⟨c', hc', -⟩ := hext.creations hc
      exact ⟨file', c', hfile', hcreation'.trans hcreation, hc'⟩

/-- Each lookup adds what the world's invariant says about what it found. -/
theorem TryNew.next_knows (hinv : world.Inv) (h : t.Knows world) : (t.next world).Knows world := by
  cases t with
  | begun fileName =>
    simp only [TryNew.next]
    split <;> trivial
  | named streamName =>
    simp only [TryNew.next]
    split <;> trivial
  | opened streamName handle =>
    simp only [TryNew.next]
    split
    · next schema hschema =>
      obtain ⟨dir, hdir, hread⟩ := Option.bind_eq_some_iff.mp hschema
      have hwritten := hinv.entries hdir _ (Directory.schema?_eq_some hread)
      exact ⟨dir, hdir, hwritten.symm⟩
    · trivial
  | schemaRead streamName handle schema =>
    simp only [TryNew.next]
    split
    · next expected fd hlisted =>
      obtain ⟨dir, hdir, hcreation⟩ := h
      rw [hdir, Option.bind_some] at hlisted
      have hwritten := hinv.entries hdir _ (Directory.queue?_eq_some hlisted)
      rw [hcreation] at hwritten
      exact hwritten
    · trivial
  | queueListed streamName handle schema expected fd =>
    simp only [TryNew.next]
    split
    · split
      · exact h
      · trivial
    · trivial
  | queueOpened streamName schema expected file =>
    cases file with
    | other => trivial
    | queue f =>
      simp only [TryNew.next]
      split
      · exact h
      · trivial
  | sealsChecked streamName schema expected f =>
    simp only [TryNew.next]
    split
    · next actual hjoined =>
      obtain ⟨file, hfile, hid⟩ := Option.bind_eq_some_iff.mp hjoined
      exact ⟨h, file, hfile, hinv.files hfile hid⟩
    · trivial
  | joined stream expected actual =>
    obtain ⟨hschema, file, hfile, hdrew⟩ := h
    simp only [TryNew.next]
    split
    · trivial
    · next heq =>
      -- Equal identifiers were drawn by one creation.
      obtain rfl : expected = actual := not_not.mp heq
      obtain ⟨c, hc, hid⟩ := hschema
      exact ⟨file, c, hfile, hinv.distinct hdrew ⟨c, hc, hid⟩, hc⟩
  | finished result => exact h

end Subscribers

namespace Machine

structure Inv (m : Machine) : Prop where
  world : m.world.Inv
  subscribers : ∀ t ∈ m.subscribers, t.Knows m.world

variable {m m' : Machine}

theorem new_inv : new.Inv := ⟨World.new_inv, fun _ ht => absurd ht List.not_mem_nil⟩

theorem set_inv (h : m.Inv) (i : ℕ) {t : TryNew} (ht : t.Knows m.world) :
    ({ m with subscribers := m.subscribers.set i t } : Machine).Inv := by
  refine ⟨h.world, ?_⟩
  intro t' ht'
  rcases List.mem_or_eq_of_mem_set ht' with hold | rfl
  · exact h.subscribers t' hold
  · exact ht

theorem step_inv {action : MachineAction} (hstep : m.step action = some m') (h : m.Inv) :
    m'.Inv := by
  cases action with
  | publisher action =>
    obtain ⟨world, hworld, hm'⟩ := Option.bind_eq_some_iff.mp hstep
    cases hm'
    have hext := World.step_extends h.world hworld
    exact ⟨World.step_inv hworld h.world, fun t ht => (h.subscribers t ht).mono hext⟩
  | tryNew fileName =>
    cases hstep
    refine ⟨h.world, ?_⟩
    intro t ht
    rcases List.mem_append.mp ht with hold | hnew
    · exact h.subscribers t hold
    · rw [List.mem_singleton.mp hnew]
      trivial
  | next i =>
    obtain ⟨t, ht, hm'⟩ := Option.bind_eq_some_iff.mp hstep
    cases hm'
    exact set_inv h i (TryNew.next_knows h.world (h.subscribers t (List.mem_of_getElem? ht)))
  | fail i error =>
    cases hstep
    exact set_inv h i trivial

end Machine

/-- Whatever publishers do between the lookups, a subscriber that succeeds has the schema and the
queue of one creation. -/
theorem subscriber_pairs_one_creation (actions : List MachineAction) (m : Machine)
    (h : run Machine.step Machine.new actions = some m) (i : ℕ) (stream : AvailableStream)
    (hok : m.subscribers[i]? = some (.finished (.ok stream))) :
    ∃ file c, m.world.files[stream.broadcastHandle]? = some file ∧
      m.world.creations[stream.schema]? = some c ∧ file.creation = stream.schema := by
  have hinv : m.Inv := run_invariant Machine.Inv Machine.step_inv h Machine.new_inv
  obtain ⟨file, c, hfile, hcreation, hc⟩ := hinv.subscribers _ (List.mem_of_getElem? hok)
  exact ⟨file, c, hfile, hc, hcreation⟩

/-- A subscriber has read the schema when its stream is removed and another of the name appears,
and a second one connects to that. -/
def reusedActions : List MachineAction :=
  (overlappingActions.take 9).map .publisher ++
    [.tryNew networkGossip.name, .next 0, .next 0, .next 0] ++
    (overlappingActions.drop 9).map .publisher ++
    [.publisher (.creation 1 .publish), .tryNew networkGossip.name] ++
    List.replicate 8 (.next 1) ++ [.next 0]

theorem reused_name_pairs : ∃ m,
    run Machine.step Machine.new reusedActions = some m ∧
      m.subscribers[0]? = some (.finished (.error .queueFileIsNotPublished)) ∧
      ∃ stream, m.subscribers[1]? = some (.finished (.ok stream)) ∧
        ∃ file, m.world.files[stream.broadcastHandle]? = some file ∧
          file.creation = stream.schema := by
  obtain ⟨m, h⟩ : ∃ m, run Machine.step Machine.new reusedActions = some m := ⟨_, rfl⟩
  obtain ⟨stream, hstream⟩ : ∃ stream, m.subscribers[1]? = some (.finished (.ok stream)) := by
    cases h
    exact ⟨_, rfl⟩
  obtain ⟨file, -, hfile, -, hcreation⟩ :=
    subscriber_pairs_one_creation reusedActions m h 1 stream hstream
  have hfirst : m.subscribers[0]? = some (.finished (.error .queueFileIsNotPublished)) := by
    cases h
    rfl
  exact ⟨m, h, hfirst, stream, hstream, file, hfile, hcreation⟩

end AgaveSdk.EventSystem
