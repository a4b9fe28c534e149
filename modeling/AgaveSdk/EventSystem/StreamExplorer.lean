import AgaveSdk.EventSystem.StreamDiscovery

/-! The iterator over the streams that can be subscribed to, which goes on while streams are created
and removed, and what a connection to one of them is worth. -/
namespace AgaveSdk.EventSystem
open Runs Memory

/-- `available_streams` between two steps: the names that the directory has still to return, the
call of `AvailableStream::try_new` that is going on, and what the iterator has yielded. -/
structure StreamExplorer where
  world : World
  remaining : List Str
  current : Option TryNew
  available : List AvailableStream

inductive ExplorerAction where
  | publisher (action : PublisherProcessAction)
  | next
  | fail (error : CreateAvailableStreamError)

/-- The steps that are not the iterator's own. -/
def ExplorerAction.cost : ExplorerAction → ℕ
  | .next => 0
  | .publisher _ | .fail _ => 1

namespace StreamExplorer

/-- An entry whose `try_new` fails is left out. -/
def next (x : StreamExplorer) : Option StreamExplorer :=
  match x.current with
  | none =>
      match x.remaining with
      | [] => none
      | fileName :: remaining =>
          some { x with remaining := remaining, current := some (.begun fileName) }
  | some (.finished (.ok stream)) =>
      some { x with current := none, available := x.available ++ [stream] }
  | some (.finished (.error _)) => some { x with current := none }
  | some t => some { x with current := some (t.next x.world) }

def step (x : StreamExplorer) : ExplorerAction → Option StreamExplorer
  | .publisher action => do return { x with world := ← x.world.step action }
  | .next => x.next
  | .fail error => do
      let _ ← x.current
      return { x with current := some (.finished (.error error)) }

/-- The iterator begins with the names in the directory. -/
def availableStreams (world : World) (fileNames : List Str) : StreamExplorer :=
  ⟨world, fileNames, none, []⟩

end StreamExplorer

inductive TryConnectError where
  | subscriberSlotsExhausted
  deriving DecidableEq, Repr

inductive TryConnectTypedError (S : Type) where
  | schemaMismatch (expected actual : S)
  | connection (error : TryConnectError)

/-- A subscriber, with its consumer of a queue. -/
structure StreamSubscriber (S C : Type) where
  sliceConsumer : C
  streamName : StreamName
  schema : S

section Connecting

variable {S C : Type} (schemaOf : ℕ → S) (sliceConsumer : ℕ → Option C)

/-- `schemaOf` gives the schema that a creation writes. -/
def AvailableStream.tryConnect (stream : AvailableStream) :
    Except TryConnectError (StreamSubscriber S C) :=
  match sliceConsumer stream.broadcastHandle with
  | some consumer => .ok ⟨consumer, stream.streamName, schemaOf stream.schema⟩
  | none => .error .subscriberSlotsExhausted

def AvailableStream.tryConnectTyped [DecidableEq S] (expectedSchema : S)
    (stream : AvailableStream) : Except (TryConnectTypedError S) (StreamSubscriber S C) :=
  if expectedSchema ≠ schemaOf stream.schema then
    .error (.schemaMismatch expectedSchema (schemaOf stream.schema))
  else
    match stream.tryConnect schemaOf sliceConsumer with
    | .ok subscriber => .ok subscriber
    | .error e => .error (.connection e)

end Connecting

/-- The directory belongs to a creation of this name. -/
def World.Labels (s : World) (d : ℕ) (streamName : StreamName) : Prop :=
  ∃ dir c, s.directories[d]? = some dir ∧ s.creations[dir.creation]? = some c ∧
    c.streamName = streamName

/-- A creation of this name. -/
def World.Titled (s : World) (k : ℕ) (streamName : StreamName) : Prop :=
  ∃ c, s.creations[k]? = some c ∧ c.streamName = streamName

structure World.Labelled (s : World) : Prop where
  paths : ∀ {place streamName d}, s.path place streamName = some d → s.Labels d streamName

/-- What a subscriber knows about the name under which it looks. -/
def TryNew.KnowsName (world : World) : TryNew → Prop
  | .begun _ | .named _ | .finished (.error _) => True
  | .opened streamName handle => world.Labels handle streamName
  | .schemaRead streamName _ schema | .queueListed streamName _ schema _ _
  | .queueOpened streamName schema _ _ | .sealsChecked streamName schema _ _ =>
      world.Titled schema streamName
  | .joined stream _ _ | .finished (.ok stream) => world.Titled stream.schema stream.streamName

section Labels

variable {world world' : World} {c : Creation} {k d : ℕ} {streamName : StreamName} {t : TryNew}

theorem World.Labels.mono (h : world.Labels d streamName) (hext : world.Extends world') :
    world'.Labels d streamName := by
  obtain ⟨dir, c, hdir, hc, hname⟩ := h
  obtain ⟨dir', hdir', hcreation⟩ := hext.directories hdir
  obtain ⟨c', hc', hname', -⟩ := hext.creations hc
  exact ⟨dir', c', hdir', hcreation ▸ hc', hname'.trans hname⟩

theorem World.Titled.mono (h : world.Titled k streamName) (hext : world.Extends world') :
    world'.Titled k streamName := by
  obtain ⟨c, hc, hname⟩ := h
  obtain ⟨c', hc', hname', -⟩ := hext.creations hc
  exact ⟨c', hc', hname'.trans hname⟩

/-- Every path after the step was there before, maybe at the other place, or is a new one. -/
theorem World.Labelled.of_extends (h : world.Labelled) (hext : world.Extends world')
    (hpaths : ∀ {place streamName d}, world'.path place streamName = some d →
      (∃ place', world.path place' streamName = some d) ∨ world'.Labels d streamName) :
    world'.Labelled := by
  constructor
  intro place streamName d hpath
  rcases hpaths hpath with ⟨place', hold⟩ | hnew
  · exact (h.paths hold).mono hext
  · exact hnew

theorem World.setPath_cases {place place' : Place} {streamName' : StreamName} {d' : Option ℕ}
    (h : (world.setPath place streamName d').path place' streamName' = some d) :
    (streamName' = streamName ∧ d' = some d) ∨ world.path place' streamName' = some d := by
  by_cases hsame : place' = place ∧ streamName' = streamName
  · obtain ⟨rfl, rfl⟩ := hsame
    rw [World.setPath_self] at h
    exact .inl ⟨rfl, h⟩
  · rw [World.setPath_other (not_and_or.mp hsame)] at h
    exact .inr h

theorem World.act_labelled (h : world.Labelled) (hinv : world.Inv)
    (hc : world.creations[k]? = some c) (hacts : world.Acts k c world') : world'.Labelled := by
  refine h.of_extends (World.act_extends hinv hc hacts) ?_
  intro place streamName d hpath
  cases hacts with
  | staged hstage hnone =>
    rcases World.setPath_cases hpath with ⟨rfl, hd⟩ | hold
    · cases hd
      exact .inr ⟨_, _, List.getElem?_concat_length, set_get hc, rfl⟩
    · exact .inl ⟨_, hold⟩
  | published hstage =>
    unfold World.publish at hpath
    split at hpath
    · exact .inl ⟨_, hpath⟩
    · next d' hstaged =>
      split at hpath
      · rcases World.setPath_cases hpath with ⟨rfl, hd⟩ | hold
        · cases hd
          exact .inl ⟨_, hstaged⟩
        · rcases World.setPath_cases hold with ⟨-, hd⟩ | hold
          · cases hd
          · exact .inl ⟨_, hold⟩
      · exact .inl ⟨_, hpath⟩
  | schemaAdded hstage | queueLinked hstage =>
    unfold World.addStagedEntry at hpath
    split at hpath
    · exact .inl ⟨_, hpath⟩
    · split at hpath
      · exact .inl ⟨_, hpath⟩
      · exact .inl ⟨_, hpath⟩
  | directoryRemoved hstage hempty =>
    rcases World.setPath_cases hpath with ⟨-, hd⟩ | hold
    · cases hd
    · exact .inl ⟨_, hold⟩
  | ended | cleanedUp | identified | fileCreated | fileInitialized | fileSealed | disposed
  | directoryOpened | entryUnlinked | fileClosed => exact .inl ⟨_, hpath⟩

theorem World.step_labelled {action : PublisherProcessAction} (h : world.Labelled)
    (hinv : world.Inv) (hstep : world.step action = some world') : world'.Labelled := by
  have hext := World.step_extends hinv hstep
  cases action with
  | create streamName =>
    cases hstep
    exact h.of_extends hext fun hpath => .inl ⟨_, hpath⟩
  | creation k step =>
    obtain ⟨c, hc, hact⟩ := Option.bind_eq_some_iff.mp hstep
    exact World.act_labelled h hinv hc (World.act_cases hact)
  | openFile fd descriptor =>
    obtain ⟨-, hs'⟩ := Option.ite_none_right_eq_some.mp hstep
    cases hs'
    exact h.of_extends hext fun hpath => .inl ⟨_, hpath⟩
  | closeFile fd =>
    obtain ⟨-, hs'⟩ := Option.ite_none_right_eq_some.mp hstep
    cases hs'
    exact h.of_extends hext fun hpath => .inl ⟨_, hpath⟩

theorem TryNew.KnowsName.mono (h : t.KnowsName world) (hext : world.Extends world') :
    t.KnowsName world' := by
  cases t with
  | begun _ | named _ => trivial
  | opened streamName handle => exact World.Labels.mono h hext
  | schemaRead _ _ _ | queueListed _ _ _ _ _ | queueOpened _ _ _ _ | sealsChecked _ _ _ _
  | joined _ _ _ => exact World.Titled.mono h hext
  | finished result =>
    cases result with
    | error e => trivial
    | ok stream => exact World.Titled.mono h hext

theorem TryNew.next_knowsName (hinv : world.Inv) (hlabelled : world.Labelled)
    (h : t.KnowsName world) : (t.next world).KnowsName world := by
  cases t with
  | begun fileName =>
    simp only [TryNew.next]
    split <;> trivial
  | named streamName =>
    simp only [TryNew.next]
    split
    · next handle hpath => exact hlabelled.paths hpath
    · trivial
  | opened streamName handle =>
    simp only [TryNew.next]
    split
    · next schema hschema =>
      obtain ⟨dir, hdir, hread⟩ := Option.bind_eq_some_iff.mp hschema
      obtain ⟨dir', c, hdir', hc, hname⟩ := h
      obtain rfl := Option.some.inj (hdir.symm.trans hdir')
      have hwritten : schema = dir.creation :=
        hinv.entries hdir _ (Directory.schema?_eq_some hread)
      exact ⟨c, hwritten ▸ hc, hname⟩
    · trivial
  | schemaRead streamName handle schema =>
    simp only [TryNew.next]
    split
    · exact h
    · trivial
  | queueListed streamName handle schema expected fd =>
    simp only [TryNew.next]
    split
    · split
      · exact h
      · trivial
    · trivial
  | queueOpened streamName schema expected file =>
    cases file with
    | other => trivial
    | queue f =>
      simp only [TryNew.next]
      split
      · exact h
      · trivial
  | sealsChecked streamName schema expected f =>
    simp only [TryNew.next]
    split
    · exact h
    · trivial
  | joined stream expected actual =>
    simp only [TryNew.next]
    split
    · trivial
    · exact h
  | finished result => exact h

end Labels

end AgaveSdk.EventSystem
