import AgaveSdk.EventSystem.StreamExplorer

/-! What the iterator over the available streams yields, over whole runs. -/
namespace AgaveSdk.EventSystem
open Runs Memory

/-- The name of the entry that is looked up, unless that has failed. -/
def TryNew.fileName? : TryNew → Option Str
  | .begun fileName => some fileName
  | .named streamName | .opened streamName _ | .schemaRead streamName _ _
  | .queueListed streamName _ _ _ _ | .queueOpened streamName _ _ _
  | .sealsChecked streamName _ _ _ => some streamName.name
  | .joined stream _ _ | .finished (.ok stream) => some stream.streamName.name
  | .finished (.error _) => none

section Steps

variable {t : TryNew} {p : Publication}

theorem StreamName.tryNew_ok {fileName : Str} {streamName : StreamName}
    (h : StreamName.tryNew fileName = .ok streamName) : streamName.name = fileName := by
  unfold StreamName.tryNew at h
  split at h
  · cases h
    rfl
  · cases h

theorem TryNew.next_fileName (world : World) (t : TryNew) :
    (t.next world).fileName? = t.fileName? ∨ (t.next world).fileName? = none := by
  cases t with
  | begun fileName =>
    simp only [TryNew.next]
    split
    · next streamName hname => exact .inl (congrArg some (StreamName.tryNew_ok hname))
    · exact .inr rfl
  | named streamName | opened streamName handle | schemaRead streamName handle schema
  | sealsChecked streamName schema expected f =>
    simp only [TryNew.next]
    split
    · exact .inl rfl
    · exact .inr rfl
  | queueListed streamName handle schema expected fd =>
    simp only [TryNew.next]
    split
    · split
      · exact .inl rfl
      · exact .inr rfl
    · exact .inr rfl
  | queueOpened streamName schema expected file =>
    cases file with
    | other => exact .inr rfl
    | queue f =>
      simp only [TryNew.next]
      split
      · exact .inl rfl
      · exact .inr rfl
  | joined stream expected actual =>
    simp only [TryNew.next]
    split
    · exact .inr rfl
    · exact .inl rfl
  | finished result => exact .inl rfl

theorem TryNew.next_lookupsLeft (world : World) (h : t.lookupsLeft ≠ 0) :
    (t.next world).lookupsLeft < t.lookupsLeft := by
  cases t with
  | begun _ | named _ | opened _ _ | schemaRead _ _ _ | sealsChecked _ _ _ _ | joined _ _ _ =>
    simp only [TryNew.next]
    split <;> simp [TryNew.lookupsLeft]
  | queueListed _ _ _ _ _ =>
    simp only [TryNew.next]
    split
    · split <;> simp [TryNew.lookupsLeft]
    · simp [TryNew.lookupsLeft]
  | queueOpened streamName schema expected file =>
    cases file with
    | other => simp [TryNew.next, TryNew.lookupsLeft]
    | queue f =>
      simp only [TryNew.next]
      split <;> simp [TryNew.lookupsLeft]
  | finished result => exact absurd rfl h

namespace StreamExplorer

variable {x x' : StreamExplorer} {action : ExplorerAction} {names : List Str}

/-- What the iterator does next. -/
inductive Advances (x : StreamExplorer) : StreamExplorer → Prop where
  | begins {fileName : Str} {remaining : List Str} (hcurrent : x.current = none)
      (hremaining : x.remaining = fileName :: remaining) :
      x.Advances { x with remaining := remaining, current := some (.begun fileName) }
  | yields {stream : AvailableStream} (hcurrent : x.current = some (.finished (.ok stream))) :
      x.Advances { x with current := none, available := x.available ++ [stream] }
  | skips {error : CreateAvailableStreamError}
      (hcurrent : x.current = some (.finished (.error error))) :
      x.Advances { x with current := none }
  | looks {t : TryNew} (hcurrent : x.current = some t) (hleft : t.lookupsLeft ≠ 0) :
      x.Advances { x with current := some (t.next x.world) }

theorem next_cases (h : x.next = some x') : x.Advances x' := by
  unfold StreamExplorer.next at h
  split at h
  · next hcurrent =>
    split at h
    · cases h
    · next fileName remaining hremaining =>
      cases h
      exact .begins hcurrent hremaining
  · next stream hcurrent =>
    cases h
    exact .yields hcurrent
  · next error hcurrent =>
    cases h
    exact .skips hcurrent
  · next t hok herror hcurrent =>
    cases h
    apply Advances.looks hcurrent
    intro hleft
    cases t with
    | finished result =>
      cases result with
      | ok stream => exact hok stream rfl
      | error e => exact herror e rfl
    | begun _ | named _ | opened _ _ | schemaRead _ _ _ | queueListed _ _ _ _ _
    | queueOpened _ _ _ _ | sealsChecked _ _ _ _ | joined _ _ _ => cases hleft

/-- A step of the publisher process, of the iterator, or a failure of the current lookup. -/
inductive Steps (x : StreamExplorer) : ExplorerAction → StreamExplorer → Prop where
  | published {a : PublisherProcessAction} {world : World} (hworld : x.world.step a = some world) :
      x.Steps (.publisher a) { x with world := world }
  | advanced {x' : StreamExplorer} (h : x.Advances x') : x.Steps .next x'
  | failed (t : TryNew) (hcurrent : x.current = some t) (error : CreateAvailableStreamError) :
      x.Steps (.fail error) { x with current := some (.finished (.error error)) }

theorem step_cases (h : x.step action = some x') : x.Steps action x' := by
  cases action with
  | publisher a =>
    obtain ⟨world, hworld, hx'⟩ := Option.bind_eq_some_iff.mp h
    cases hx'
    exact .published hworld
  | next => exact .advanced (next_cases h)
  | fail error =>
    obtain ⟨t, hcurrent, hx'⟩ := Option.bind_eq_some_iff.mp h
    cases hx'
    exact .failed t hcurrent error

theorem step_goes (h : x.step action = some x') : x.world.Goes x'.world := by
  cases step_cases h with
  | published hworld => exact .single hworld
  | advanced h => cases h <;> exact .refl _
  | failed => exact .refl _

theorem run_goes {actions : List ExplorerAction} (h : run step x actions = some x') :
    x.world.Goes x'.world :=
  run_invariant (fun y => x.world.Goes y.world) (fun hstep hy => hy.trans (step_goes hstep)) h
    (.refl _)

/-- What the iterator has yielded and what it knows, with the names in the directory's order. -/
structure Inv (names : List Str) (x : StreamExplorer) : Prop where
  sound : x.world.Sound
  labelled : x.world.Labelled
  current : ∀ {t : TryNew}, x.current = some t → t.Knows x.world ∧ t.KnowsName x.world
  available : ∀ stream ∈ x.available, (TryNew.finished (.ok stream)).Knows x.world ∧
    (TryNew.finished (.ok stream)).KnowsName x.world
  order : (x.available.map (fun stream => stream.streamName.name) ++
    ((x.current.bind TryNew.fileName?).toList ++ x.remaining)).Sublist names

theorem advances_inv (h : x.Inv names) (hadvances : x.Advances x') : x'.Inv names := by
  cases hadvances with
  | begins hcurrent hremaining =>
    refine ⟨h.sound, h.labelled, ?_, h.available, ?_⟩
    · intro t ht
      cases ht
      exact ⟨trivial, trivial⟩
    · have horder := h.order
      rwa [hcurrent, hremaining] at horder
  | @yields stream hcurrent =>
    refine ⟨h.sound, h.labelled, nofun, ?_, ?_⟩
    · intro stream' hstream'
      rcases List.mem_append.mp hstream' with hold | hnew
      · exact h.available stream' hold
      · rw [List.mem_singleton.mp hnew]
        exact h.current hcurrent
    · have horder := h.order
      rw [hcurrent] at horder
      rw [List.map_append, List.append_assoc]
      exact horder
  | skips hcurrent =>
    refine ⟨h.sound, h.labelled, nofun, h.available, ?_⟩
    have horder := h.order
    rwa [hcurrent] at horder
  | @looks t hcurrent =>
    obtain ⟨hknows, hname⟩ := h.current hcurrent
    refine ⟨h.sound, h.labelled, ?_, h.available, ?_⟩
    · intro t' ht'
      cases ht'
      exact ⟨TryNew.next_knows h.sound.inv hknows,
        TryNew.next_knowsName h.sound.inv h.labelled hname⟩
    · have horder := h.order
      rw [hcurrent, Option.bind_some] at horder
      rw [Option.bind_some]
      rcases TryNew.next_fileName x.world t with hsame | hnone
      · rwa [hsame]
      · rw [hnone]
        exact ((List.sublist_append_right _ _).append_left _).trans horder

theorem step_inv (hstep : x.step action = some x') (h : x.Inv names) : x'.Inv names := by
  cases step_cases hstep with
  | published hworld =>
    have hext := World.step_extends h.sound.inv hworld
    refine ⟨(World.Goes.single hworld).sound h.sound,
      World.step_labelled h.labelled h.sound.inv hworld, ?_, ?_, h.order⟩
    · intro t ht
      obtain ⟨hknows, hname⟩ := h.current ht
      exact ⟨hknows.mono hext, hname.mono hext⟩
    · intro stream hstream
      obtain ⟨hknows, hname⟩ := h.available stream hstream
      exact ⟨hknows.mono hext, hname.mono hext⟩
  | advanced hadvances => exact advances_inv h hadvances
  | failed t hcurrent error =>
    refine ⟨h.sound, h.labelled, ?_, h.available, ?_⟩
    · intro t' ht'
      cases ht'
      exact ⟨trivial, trivial⟩
    · exact ((List.sublist_append_right _ _).append_left _).trans h.order

/-- Where the publication is, seen from the iterator. -/
def Finds (p : Publication) (x : StreamExplorer) : Prop :=
  p.streamName.name ∈ x.remaining ∨ (∃ t, x.current = some t ∧ t.Follows p) ∨
    ⟨p.streamName, p.creation, p.queueFile.2⟩ ∈ x.available

theorem advances_finds (hsound : x.world.Sound) (hp : x.world.Publishes p) (h : x.Finds p)
    (hadvances : x.Advances x') : x'.Finds p := by
  cases hadvances with
  | @begins fileName remaining hcurrent hremaining =>
    rcases h with hahead | ⟨t, ht, -⟩ | hdone
    · rw [hremaining] at hahead
      rcases List.mem_cons.mp hahead with hname | hlater
      · exact .inr (.inl ⟨_, rfl, hname.symm⟩)
      · exact .inl hlater
    · rw [hcurrent] at ht
      cases ht
    · exact .inr (.inr hdone)
  | yields hcurrent =>
    rcases h with hahead | ⟨t, ht, hfollows⟩ | hdone
    · exact .inl hahead
    · rw [hcurrent] at ht
      cases ht
      cases hfollows
      exact .inr (.inr (List.mem_append_right _ (List.mem_singleton_self _)))
    · exact .inr (.inr (List.mem_append_left _ hdone))
  | skips hcurrent =>
    rcases h with hahead | ⟨t, ht, hfollows⟩ | hdone
    · exact .inl hahead
    · rw [hcurrent] at ht
      cases ht
      cases hfollows
    · exact .inr (.inr hdone)
  | @looks t hcurrent =>
    rcases h with hahead | ⟨t', ht', hfollows⟩ | hdone
    · exact .inl hahead
    · obtain rfl := Option.some.inj (hcurrent.symm.trans ht')
      obtain ⟨dir, f, hshows⟩ := hp.shows hsound
      exact .inr (.inl ⟨_, rfl, (TryNew.next_follows hshows hfollows).1⟩)
    · exact .inr (.inr hdone)

/-- Without failures, a publication that lasts is not lost on the way. -/
theorem run_finds {actions : List ExplorerAction} (h : run step x actions = some x')
    (hsound : x.world.Sound) (hp : x.world.Publishes p) (hlast : x'.world.Publishes p)
    (hspares : ∀ e, .fail e ∉ actions) (hfinds : x.Finds p) : x'.Finds p := by
  induction actions generalizing x with
  | nil =>
    cases h
    exact hfinds
  | cons a actions ih =>
    obtain ⟨x₁, h₁, h₂⟩ := Option.bind_eq_some_iff.mp h
    have hgoes := step_goes h₁
    have hp₁ := hgoes.publishes (run_goes h₂) hp hlast
    refine ih h₂ (hgoes.sound hsound) hp₁ (fun e he => hspares e (List.mem_cons_of_mem a he)) ?_
    cases step_cases h₁ with
    | published hworld => exact hfinds
    | advanced hadvances => exact advances_finds hsound hp hfinds hadvances
    | failed t hcurrent error => exact absurd List.mem_cons_self (hspares error)

/-- The steps that the iterator still makes at most. -/
def stepsLeft (x : StreamExplorer) : ℕ :=
  10 * x.remaining.length + x.current.elim 0 fun t => t.lookupsLeft + 1

theorem step_cost (h : x.step action = some x') :
    x'.stepsLeft + 1 ≤ x.stepsLeft + action.cost := by
  unfold stepsLeft
  cases step_cases h with
  | published hworld => exact le_rfl
  | advanced hadvances =>
    cases hadvances with
    | begins hcurrent hremaining =>
      simp only [hcurrent, hremaining, List.length_cons, Option.elim, TryNew.lookupsLeft,
        ExplorerAction.cost]
      omega
    | yields hcurrent | skips hcurrent =>
      simp only [hcurrent, Option.elim, ExplorerAction.cost]
      omega
    | looks hcurrent hleft =>
      have hless := TryNew.next_lookupsLeft x.world hleft
      simp only [hcurrent, Option.elim, ExplorerAction.cost]
      omega
  | failed t hcurrent error =>
    simp only [hcurrent, Option.elim, ExplorerAction.cost, TryNew.lookupsLeft]
    omega

end StreamExplorer

end Steps

/-- What a run of the iterator over these names has come to. -/
structure StreamExplorer.Lists (s : World) (names : List Str) (actions : List ExplorerAction)
    (x : StreamExplorer) : Prop where
  listed : (x.available.map fun stream => stream.streamName.name).Sublist names
  streams : ∀ stream ∈ x.available, ∃ file c,
    x.world.files[stream.broadcastHandle]? = some file ∧ file.creation = stream.schema ∧
    x.world.creations[stream.schema]? = some c ∧ c.streamName = stream.streamName
  typed : ∀ stream ∈ x.available, ∀ (S C : Type) [DecidableEq S] (schemaOf : ℕ → S)
    (sliceConsumer : ℕ → Option C) (expectedSchema : S) (subscriber : StreamSubscriber S C),
    stream.tryConnectTyped schemaOf sliceConsumer expectedSchema = .ok subscriber →
    sliceConsumer stream.broadcastHandle = some subscriber.sliceConsumer ∧
      ∃ file, x.world.files[stream.broadcastHandle]? = some file ∧
        schemaOf file.creation = expectedSchema
  ends : actions.length ≤ 10 * names.length + (actions.map ExplorerAction.cost).sum
  lasting : (∀ e, .fail e ∉ actions) → x.remaining = [] → x.current = none →
    ∀ p : Publication, s.Publishes p → x.world.Publishes p → p.streamName.name ∈ names →
      ⟨p.streamName, p.creation, p.queueFile.2⟩ ∈ x.available

theorem AvailableStream.tryConnectTyped_ok {S C : Type} [DecidableEq S] {schemaOf : ℕ → S}
    {sliceConsumer : ℕ → Option C} {expectedSchema : S} {subscriber : StreamSubscriber S C}
    {stream : AvailableStream}
    (h : stream.tryConnectTyped schemaOf sliceConsumer expectedSchema = .ok subscriber) :
    expectedSchema = schemaOf stream.schema ∧
      sliceConsumer stream.broadcastHandle = some subscriber.sliceConsumer := by
  unfold AvailableStream.tryConnectTyped at h
  split at h
  · cases h
  · next hschema =>
    refine ⟨not_not.mp hschema, ?_⟩
    unfold AvailableStream.tryConnect at h
    cases hconsumer : sliceConsumer stream.broadcastHandle with
    | none =>
      rw [hconsumer] at h
      cases h
    | some consumer =>
      rw [hconsumer] at h
      cases h
      rfl

/-- While streams are created and removed, the iterator yields streams in the order of the names,
each with the name, the schema and the queue of one creation, after boundedly many steps; a stream
that stays published is among them, and a typed connection is to a queue of the expected type. -/
theorem available_streams_listed (before : List PublisherProcessAction) (s : World)
    (hbefore : run World.step World.new before = some s) (names : List Str)
    (actions : List ExplorerAction) (x : StreamExplorer)
    (h : run StreamExplorer.step (StreamExplorer.availableStreams s names) actions = some x) :
    x.Lists s names actions := by
  have hreached : s.Sound ∧ s.Labelled := by
    apply run_invariant (fun s => s.Sound ∧ s.Labelled) _ hbefore
    · exact ⟨World.new_sound, ⟨nofun⟩⟩
    · intro s action s' hstep hs
      exact ⟨(World.Goes.single hstep).sound hs.1,
        World.step_labelled hs.2 hs.1.inv hstep⟩
  obtain ⟨hsound, hlabelled⟩ := hreached
  have hinv : x.Inv names :=
    run_invariant (StreamExplorer.Inv names) StreamExplorer.step_inv h
      ⟨hsound, hlabelled, nofun, nofun, .refl names⟩
  have hstreams : ∀ stream ∈ x.available, ∃ file c,
      x.world.files[stream.broadcastHandle]? = some file ∧ file.creation = stream.schema ∧
      x.world.creations[stream.schema]? = some c ∧ c.streamName = stream.streamName := by
    intro stream hstream
    obtain ⟨⟨file, -, hfile, hcreation, -⟩, c, hc, hname⟩ := hinv.available stream hstream
    exact ⟨file, c, hfile, hcreation, hc, hname⟩
  constructor
  case listed => exact (List.sublist_append_left _ _).trans hinv.order
  case streams => exact hstreams
  case typed =>
    intro stream hstream S C _ schemaOf sliceConsumer expectedSchema subscriber hconnect
    obtain ⟨hschema, hconsumer⟩ := AvailableStream.tryConnectTyped_ok hconnect
    obtain ⟨file, -, hfile, hcreation, -⟩ := hstreams stream hstream
    exact ⟨hconsumer, file, hfile, by rw [hcreation, hschema]⟩
  case ends =>
    have hle := run_length_le (fun _ => True) StreamExplorer.stepsLeft ExplorerAction.cost
      (fun _ _ => trivial) (fun hstep _ => StreamExplorer.step_cost hstep) h trivial
    exact (Nat.le_add_right _ _).trans hle
  case lasting =>
    intro hspares hremaining hcurrent p hp hlast hname
    have hfinds := StreamExplorer.run_finds h hsound hp hlast hspares (.inl hname)
    rcases hfinds with hahead | ⟨t, ht, -⟩ | hdone
    · rw [hremaining] at hahead
      cases hahead
    · rw [hcurrent] at ht
      cases ht
    · exact hdone

/-- The entry before the stream is not a stream. -/
def exploringActions : List ExplorerAction :=
  List.replicate 6 .next ++ [.publisher (.creation 0 .removeDirectory), .next, .next,
    .publisher (.creation 0 .closeQueueFile), .publisher (.openFile 3 .other)] ++
    List.replicate 5 .next

theorem republished_stream_listed : ∃ s x,
    run World.step World.new (overlappingActions ++ [.creation 1 .publish]) = some s ∧
      run StreamExplorer.step (StreamExplorer.availableStreams s [['a', '/'], networkGossip.name])
        exploringActions = some x ∧ x.available = [⟨networkGossip, 1, 1⟩] := by
  obtain ⟨s, h⟩ : ∃ s, run World.step World.new
      (overlappingActions ++ [.creation 1 .publish]) = some s := ⟨_, rfl⟩
  obtain ⟨x, hx⟩ : ∃ x, run StreamExplorer.step
      (StreamExplorer.availableStreams s [['a', '/'], networkGossip.name]) exploringActions =
        some x := by
    cases h
    exact ⟨_, rfl⟩
  have hlists := available_streams_listed _ s h _ exploringActions x hx
  have hp : s.Publishes ⟨1, networkGossip, 1, 8, 4, 1⟩ := by
    cases h
    exact ⟨rfl⟩
  have hend : x.remaining = [] ∧ x.current = none ∧ x.available.length = 1 ∧
      x.world.Publishes ⟨1, networkGossip, 1, 8, 4, 1⟩ := by
    cases h
    cases hx
    exact ⟨rfl, rfl, rfl, ⟨rfl⟩⟩
  obtain ⟨hremaining, hcurrent, hlength, hlast⟩ := hend
  have hmem := hlists.lasting (by simp [exploringActions]) hremaining hcurrent _ hp hlast
    (by simp)
  obtain ⟨stream, hstream⟩ := List.length_eq_one_iff.mp hlength
  rw [hstream] at hmem
  exact ⟨s, x, h, hx, by rw [hstream, ← List.mem_singleton.mp hmem]⟩

end AgaveSdk.EventSystem
