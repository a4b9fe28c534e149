import AgaveSdk.EventSystem.AvailableStream
import AgaveSdk.EventSystem.QueueLinks

/-! A subscriber finds a stream that stays published while it looks, with the queue of that very
publication, whatever happens to the other streams and to the other files of the publisher. -/
namespace AgaveSdk.EventSystem
open Runs Memory

/-- A live creation, with what it keeps until it is disposed of. -/
structure Publication where
  creation : ℕ
  streamName : StreamName
  directory : ℕ
  queueIdentifier : UInt64
  queueFile : ℕ × ℕ

/-- The creation lives, with these fields. -/
structure World.Publishes (s : World) (p : Publication) : Prop where
  creation : s.creations[p.creation]? =
    some ⟨p.streamName, .live, some p.queueIdentifier, some p.queueFile, some p.directory⟩

def Stage.hasEnded : Stage → Bool
  | .removing _ _ | .gone => true
  | _ => false

/-- The removal of the creation has begun. -/
def World.HasEnded (s : World) (k : ℕ) : Prop :=
  ∃ c, s.creations[k]? = some c ∧ c.stage.hasEnded = true

/-- What a subscriber holds that has only seen this publication. -/
def TryNew.Follows (p : Publication) : TryNew → Prop
  | .begun fileName => fileName = p.streamName.name
  | .named streamName => streamName = p.streamName
  | .opened streamName handle => streamName = p.streamName ∧ handle = p.directory
  | .schemaRead streamName handle schema =>
      streamName = p.streamName ∧ handle = p.directory ∧ schema = p.creation
  | .queueListed streamName handle schema expected fd => streamName = p.streamName ∧
      handle = p.directory ∧ schema = p.creation ∧ expected = p.queueIdentifier ∧
      fd = p.queueFile.1
  | .queueOpened streamName schema expected file => streamName = p.streamName ∧
      schema = p.creation ∧ expected = p.queueIdentifier ∧ file = .queue p.queueFile.2
  | .sealsChecked streamName schema expected file => streamName = p.streamName ∧
      schema = p.creation ∧ expected = p.queueIdentifier ∧ file = p.queueFile.2
  | .joined stream expected actual =>
      stream = ⟨p.streamName, p.creation, p.queueFile.2⟩ ∧ expected = actual
  | .finished result => result = .ok ⟨p.streamName, p.creation, p.queueFile.2⟩

/-- The lookups that a call still makes if none of them fails. -/
def TryNew.lookupsLeft : TryNew → ℕ
  | .begun _ => 8
  | .named _ => 7
  | .opened _ _ => 6
  | .schemaRead _ _ _ => 5
  | .queueListed _ _ _ _ _ => 4
  | .queueOpened _ _ _ _ => 3
  | .sealsChecked _ _ _ _ => 2
  | .joined _ _ _ => 1
  | .finished _ => 0

def MachineAction.isNext (i : ℕ) : MachineAction → Bool
  | .next j => j = i
  | _ => false

/-- No lookup of the subscriber fails for a reason outside the state. -/
def MachineAction.Spares (i : ℕ) : MachineAction → Prop
  | .fail j _ => j ≠ i
  | _ => True

theorem StreamName.tryNew_name (streamName : StreamName) :
    StreamName.tryNew streamName.name = .ok streamName := by
  unfold StreamName.tryNew
  split
  · rfl
  · next e h =>
    rw [streamName.valid] at h
    cases h

section Discovery

variable {world world' : World} {p : Publication} {t : TryNew} {k : ℕ}

theorem Directory.schema?_of_mem {dir : Directory} (hall : ∀ writer, .schema writer ∈ dir.entries →
    writer = k) (h : .schema k ∈ dir.entries) : dir.schema? = some k := by
  cases hfound : dir.schema? with
  | none =>
    have hnone := List.findSome?_eq_none_iff.mp hfound _ h
    cases hnone
  | some writer => rw [hall writer (Directory.schema?_eq_some hfound)]

theorem Directory.queue?_of_mem {dir : Directory} {identifier : UInt64} {fd : ℕ}
    (hall : ∀ identifier' fd', .queue identifier' fd' ∈ dir.entries →
      identifier' = identifier ∧ fd' = fd)
    (h : .queue identifier fd ∈ dir.entries) : dir.queue? = some (identifier, fd) := by
  cases hfound : dir.queue? with
  | none =>
    have hnone := List.findSome?_eq_none_iff.mp hfound _ h
    cases hnone
  | some found =>
    obtain ⟨hid, hfd⟩ := hall found.1 found.2 (Directory.queue?_eq_some hfound)
    rw [← hid, ← hfd]

/-- What holds of every world that the publisher process can reach. -/
structure World.Sound (s : World) : Prop where
  inv : s.Inv
  serving : s.Serving

/-- A live creation is found at its path, its directory has one schema and one link, and the link
leads to its sealed and initialized file. -/
structure World.Shows (s : World) (p : Publication) (dir : Directory) (f : QueueFile) : Prop where
  path : s.path .published p.streamName = some p.directory
  directory : s.directories[p.directory]? = some dir
  schema : dir.schema? = some p.creation
  link : dir.queue? = some (p.queueIdentifier, p.queueFile.1)
  descriptor : s.descriptors p.queueFile.1 = some (.queue p.queueFile.2)
  file : s.files[p.queueFile.2]? = some f
  isSealed : f.isSealed = true
  identifier : f.identifier = some p.queueIdentifier

theorem World.Publishes.shows (h : world.Publishes p) (hsound : world.Sound) :
    ∃ dir f, world.Shows p dir f := by
  have hown := hsound.inv.owns h.creation
  have hserves := hsound.serving.serves h.creation
  obtain ⟨d, hd, hpath⟩ := hown.published rfl
  cases hd
  obtain ⟨dir, hdir, hcreation⟩ := hown.directory rfl
  obtain ⟨file, f, hfile, hf, hid⟩ := hserves.initialized rfl
  cases hfile
  obtain ⟨file, f', hfile, hf', hsealed⟩ := hserves.isSealed rfl
  cases hfile
  obtain rfl := Option.some.inj (hf.symm.trans hf')
  refine ⟨dir, f, hpath, hdir, ?_, ?_, hserves.descriptor rfl, hf, hsealed, hid⟩
  · apply Directory.schema?_of_mem
    · intro writer hwriter
      have hwritten := hsound.inv.entries hdir _ hwriter
      rwa [hcreation] at hwritten
    · exact hown.schema rfl hdir rfl
  · apply Directory.queue?_of_mem
    · intro identifier fd hlink
      obtain ⟨c, hc, hdrew⟩ := hsound.inv.entries hdir _ hlink
      rw [hcreation, h.creation] at hc
      cases hc
      cases hdrew
      exact ⟨rfl, ((hserves.links rfl rfl hdir hlink).2 _ rfl).symm⟩
    · obtain ⟨identifier, file, hid, hfile, hlink⟩ := hown.link rfl hdir rfl
      cases hid
      cases hfile
      exact hlink

/-- A lookup finds what the publication shows. -/
theorem TryNew.next_follows {dir : Directory} {f : QueueFile} (hshows : world.Shows p dir f)
    (h : t.Follows p) : (t.next world).Follows p ∧
      (t.next world).lookupsLeft = t.lookupsLeft - 1 := by
  cases t with
  | begun fileName =>
    cases h
    simp only [TryNew.next, StreamName.tryNew_name]
    exact ⟨rfl, rfl⟩
  | named streamName =>
    cases h
    simp only [TryNew.next, hshows.path]
    exact ⟨⟨rfl, rfl⟩, rfl⟩
  | opened streamName handle =>
    obtain ⟨rfl, rfl⟩ := h
    simp only [TryNew.next, hshows.directory, Option.bind_some, hshows.schema]
    exact ⟨⟨rfl, rfl, rfl⟩, rfl⟩
  | schemaRead streamName handle schema =>
    obtain ⟨rfl, rfl, rfl⟩ := h
    simp only [TryNew.next, hshows.directory, Option.bind_some, hshows.link]
    exact ⟨⟨rfl, rfl, rfl, rfl, rfl⟩, rfl⟩
  | queueListed streamName handle schema expected fd =>
    obtain ⟨rfl, rfl, rfl, rfl, rfl⟩ := h
    have hlink := Directory.queue?_eq_some hshows.link
    simp only [TryNew.next, hshows.directory, Option.any_some, List.contains_iff_mem, hlink,
      if_true, hshows.descriptor]
    exact ⟨⟨rfl, rfl, rfl, rfl⟩, rfl⟩
  | queueOpened streamName schema expected file =>
    obtain ⟨rfl, rfl, rfl, rfl⟩ := h
    simp only [TryNew.next, hshows.file, Option.any_some, hshows.isSealed, if_true]
    exact ⟨⟨rfl, rfl, rfl, rfl⟩, rfl⟩
  | sealsChecked streamName schema expected file =>
    obtain ⟨rfl, rfl, rfl, rfl⟩ := h
    simp only [TryNew.next, hshows.file, Option.bind_some, hshows.identifier]
    exact ⟨⟨rfl, rfl⟩, rfl⟩
  | joined stream expected actual =>
    obtain ⟨rfl, rfl⟩ := h
    simp only [TryNew.next, ne_eq, not_true_eq_false, if_false]
    exact ⟨rfl, rfl⟩
  | finished result => exact ⟨h, rfl⟩

/-- A step of a creation that lives or is being removed ends its life or leaves it ended. -/
theorem World.acts_creations {c : Creation} (hc : world.creations[k]? = some c)
    (hacts : world.Acts k c world') : ∃ c', world'.creations = world.creations.set k c' ∧
      (c.stage = .live ∨ c.stage.hasEnded = true → c'.stage.hasEnded = true) := by
  have hbuilding {progress : Progress} {c' : Creation} (hstage : c.stage = .building progress)
      (hold : c.stage = .live ∨ c.stage.hasEnded = true) : c'.stage.hasEnded = true := by
    rw [hstage] at hold
    simp [Stage.hasEnded] at hold
  cases hacts with
  | ended hstage => exact ⟨_, rfl, fun _ => rfl⟩
  | cleanedUp hstage => exact ⟨_, rfl, fun _ => rfl⟩
  | staged hstage hpath =>
    refine ⟨_, rfl, fun hold => ?_⟩
    rw [hstage] at hold
    simp [Stage.hasEnded] at hold
  | schemaAdded hstage | queueLinked hstage =>
    unfold World.addStagedEntry
    split
    · exact ⟨_, rfl, fun _ => rfl⟩
    · split
      · exact ⟨_, rfl, fun _ => rfl⟩
      · exact ⟨_, rfl, hbuilding hstage⟩
  | identified hstage hfresh => exact ⟨_, rfl, hbuilding hstage⟩
  | fileCreated hstage hfd => exact ⟨_, rfl, hbuilding hstage⟩
  | fileInitialized hstage hfile => exact ⟨_, rfl, hbuilding hstage⟩
  | fileSealed hstage hfile => exact ⟨_, rfl, hbuilding hstage⟩
  | published hstage =>
    unfold World.publish
    split
    · exact ⟨_, rfl, fun _ => rfl⟩
    · split
      · exact ⟨_, rfl, hbuilding hstage⟩
      · exact ⟨_, rfl, fun _ => rfl⟩
  | disposed hstage => exact ⟨_, rfl, fun _ => rfl⟩
  | directoryOpened hstage hpath => exact ⟨_, rfl, fun _ => rfl⟩
  | entryUnlinked entry hstage =>
    refine ⟨c, (set_same hc).symm, fun _ => ?_⟩
    rw [hstage]
    rfl
  | directoryRemoved hstage hempty => exact ⟨_, rfl, fun _ => rfl⟩
  | fileClosed hfile hstage =>
    refine ⟨_, rfl, fun _ => ?_⟩
    rcases hstage with ⟨handle, hstage⟩ | hstage
    · exact (congrArg Stage.hasEnded hstage).trans rfl
    · exact (congrArg Stage.hasEnded hstage).trans rfl

/-- A creation that lives or has ended stays as it is or has ended after any step. -/
theorem World.step_life {action : PublisherProcessAction} {c : Creation}
    (hstep : world.step action = some world') (hc : world.creations[k]? = some c)
    (hlife : c.stage = .live ∨ c.stage.hasEnded = true) :
    world'.creations[k]? = some c ∨ world'.HasEnded k := by
  cases action with
  | create streamName =>
    cases hstep
    exact .inl (alloc_get hc)
  | creation j step =>
    obtain ⟨x, hx, hact⟩ := Option.bind_eq_some_iff.mp hstep
    obtain ⟨x', hcreations, hends⟩ := World.acts_creations hx (World.act_cases hact)
    rcases eq_or_ne k j with rfl | hne
    · obtain rfl := Option.some.inj (hc.symm.trans hx)
      exact .inr ⟨x', by rw [hcreations, set_get hc], hends hlife⟩
    · exact .inl (by rw [hcreations, List.getElem?_set_ne hne.symm, hc])
  | openFile fd descriptor =>
    obtain ⟨-, hs'⟩ := Option.ite_none_right_eq_some.mp hstep
    cases hs'
    exact .inl hc
  | closeFile fd =>
    obtain ⟨-, hs'⟩ := Option.ite_none_right_eq_some.mp hstep
    cases hs'
    exact .inl hc

theorem World.HasEnded.step {action : PublisherProcessAction} (h : world.HasEnded k)
    (hstep : world.step action = some world') : world'.HasEnded k := by
  obtain ⟨c, hc, hended⟩ := h
  rcases World.step_life hstep hc (.inr hended) with hsame | hlater
  · exact ⟨c, hsame, hended⟩
  · exact hlater

theorem World.HasEnded.not_publishes (h : world.HasEnded p.creation) : ¬ world.Publishes p := by
  intro hp
  obtain ⟨c, hc, hended⟩ := h
  rw [hp.creation] at hc
  cases hc
  cases hended

/-- The publisher process leads from one world to the other. -/
def World.Goes (s s' : World) : Prop := ∃ actions, run World.step s actions = some s'

namespace World

theorem Goes.refl (s : World) : s.Goes s := ⟨[], rfl⟩

theorem Goes.single {action : PublisherProcessAction} (h : world.step action = some world') :
    world.Goes world' := ⟨[action], by rw [run, h]; rfl⟩

theorem Goes.trans {world'' : World} (h : world.Goes world') (h' : world'.Goes world'') :
    world.Goes world'' := by
  obtain ⟨actions, hactions⟩ := h
  obtain ⟨actions', hactions'⟩ := h'
  exact ⟨actions ++ actions', (run_append hactions).trans hactions'⟩

theorem new_sound : new.Sound := ⟨new_inv, new_serving⟩

theorem Goes.sound (h : world.Goes world') (hsound : world.Sound) : world'.Sound := by
  obtain ⟨actions, hactions⟩ := h
  apply run_invariant World.Sound _ hactions hsound
  intro s action s' hstep hs
  exact ⟨step_inv hstep hs.inv, step_serving hs.serving hs.inv hstep⟩

/-- A publication that is there before and after was there all the time. -/
theorem Goes.publishes {world'' : World} (h : world.Goes world') (h' : world'.Goes world'')
    (hp : world.Publishes p) (hlast : world''.Publishes p) : world'.Publishes p := by
  obtain ⟨actions, hactions⟩ := h
  obtain ⟨actions', hactions'⟩ := h'
  have hlife := run_invariant (fun s => s.Publishes p ∨ s.HasEnded p.creation)
    (fun hstep hs => by
      rcases hs with hs | hs
      · exact (step_life hstep hs.creation (.inl rfl)).imp_left .mk
      · exact .inr (hs.step hstep)) hactions (.inl hp)
  rcases hlife with hthere | hended
  · exact hthere
  · have hend := run_invariant (fun s => s.HasEnded p.creation) (fun hstep hs => hs.step hstep)
      hactions' hended
    exact absurd hlast hend.not_publishes

end World

end Discovery

namespace Machine

variable {m m' : Machine} {p : Publication} {i k : ℕ} {t : TryNew} {action : MachineAction}
  {actions : List MachineAction}

theorem step_goes (hstep : m.step action = some m') : m.world.Goes m'.world := by
  cases action with
  | publisher a =>
    obtain ⟨world, hworld, hm'⟩ := Option.bind_eq_some_iff.mp hstep
    cases hm'
    exact .single hworld
  | next j =>
    obtain ⟨x, -, hm'⟩ := Option.bind_eq_some_iff.mp hstep
    cases hm'
    exact .refl _
  | tryNew fileName | fail j error =>
    cases hstep
    exact .refl _

theorem run_goes (h : run Machine.step m actions = some m') : m.world.Goes m'.world :=
  run_invariant (fun x => m.world.Goes x.world) (fun hstep hx => hx.trans (step_goes hstep)) h
    (.refl _)

/-- What a step does to a subscriber that follows the publication. -/
theorem step_follows (hstep : m.step action = some m') (hsound : m.world.Sound)
    (hp : m.world.Publishes p) (ht : m.subscribers[i]? = some t) (hfollows : t.Follows p)
    (hspares : action.Spares i) : ∃ t', m'.subscribers[i]? = some t' ∧ t'.Follows p ∧
      t'.lookupsLeft = t.lookupsLeft - (if action.isNext i then 1 else 0) := by
  cases action with
  | publisher action =>
    obtain ⟨world, -, hm'⟩ := Option.bind_eq_some_iff.mp hstep
    cases hm'
    exact ⟨t, ht, hfollows, rfl⟩
  | tryNew fileName =>
    cases hstep
    exact ⟨t, alloc_get ht, hfollows, rfl⟩
  | next j =>
    obtain ⟨x, hx, hm'⟩ := Option.bind_eq_some_iff.mp hstep
    cases hm'
    rcases eq_or_ne i j with rfl | hne
    · obtain rfl := Option.some.inj (ht.symm.trans hx)
      obtain ⟨dir, f, hshows⟩ := hp.shows hsound
      obtain ⟨hnext, hleft⟩ := TryNew.next_follows hshows hfollows
      refine ⟨_, set_get ht, hnext, ?_⟩
      rw [hleft, MachineAction.isNext, decide_eq_true rfl, if_pos rfl]
    · refine ⟨t, (List.getElem?_set_ne hne.symm).trans ht, hfollows, ?_⟩
      rw [MachineAction.isNext, decide_eq_false hne.symm]
      rfl
  | fail j error =>
    cases hstep
    exact ⟨t, (List.getElem?_set_ne hspares).trans ht, hfollows, rfl⟩

/-- A subscriber that follows a publication goes on to do so while the publication lasts. -/
theorem run_follows (h : run Machine.step m actions = some m') (hsound : m.world.Sound)
    (hp : m.world.Publishes p) (hlast : m'.world.Publishes p)
    (ht : m.subscribers[i]? = some t) (hfollows : t.Follows p)
    (hspares : ∀ a ∈ actions, a.Spares i) : ∃ t', m'.subscribers[i]? = some t' ∧ t'.Follows p ∧
      t'.lookupsLeft = t.lookupsLeft - actions.countP (·.isNext i) := by
  induction actions generalizing m t with
  | nil =>
    cases h
    exact ⟨t, ht, hfollows, rfl⟩
  | cons a actions ih =>
    obtain ⟨m₁, h₁, h₂⟩ := Option.bind_eq_some_iff.mp h
    obtain ⟨ha, hspares⟩ := List.forall_mem_cons.mp hspares
    have hgoes := step_goes h₁
    obtain ⟨t₁, ht₁, hfollows₁, hleft₁⟩ := step_follows h₁ hsound hp ht hfollows ha
    obtain ⟨t', ht', hfollows', hleft'⟩ := ih h₂ (hgoes.sound hsound)
      (hgoes.publishes (run_goes h₂) hp hlast) ht₁ hfollows₁ hspares
    refine ⟨t', ht', hfollows', ?_⟩
    rw [hleft', hleft₁, List.countP_cons, Nat.sub_sub, Nat.add_comm]

end Machine

/-- A subscriber that begins to look up a stream does not fail while the stream stays published,
and after eight lookups it has the schema and the queue of this publication, whatever the publisher
process and other subscribers do meanwhile. -/
theorem published_stream_found (before during : List MachineAction) (m m' : Machine)
    (p : Publication) (hbefore : run Machine.step Machine.new before = some m)
    (hp : m.world.Publishes p)
    (hduring : run Machine.step m (.tryNew p.streamName.name :: during) = some m')
    (hspares : ∀ a ∈ during, a.Spares m.subscribers.length) (hlast : m'.world.Publishes p) :
    ∃ t, m'.subscribers[m.subscribers.length]? = some t ∧
      (∀ e, t ≠ .finished (.error e)) ∧
      (8 ≤ during.countP (·.isNext m.subscribers.length) →
        t = .finished (.ok ⟨p.streamName, p.creation, p.queueFile.2⟩)) ∧
      ∃ f, m'.world.files[p.queueFile.2]? = some f ∧ f.creation = p.creation ∧
        f.isSealed = true ∧ f.identifier = some p.queueIdentifier := by
  have hsound := (Machine.run_goes hbefore).sound World.new_sound
  have hsound' := (Machine.run_goes hduring).sound hsound
  obtain ⟨m₁, h₁, h₂⟩ := Option.bind_eq_some_iff.mp hduring
  cases h₁
  have ht : (m.subscribers ++ [TryNew.begun p.streamName.name])[m.subscribers.length]? =
      some (.begun p.streamName.name) := List.getElem?_concat_length
  obtain ⟨t, ht', hfollows, hleft⟩ := Machine.run_follows h₂ hsound hp hlast ht rfl hspares
  obtain ⟨dir, f, hshows⟩ := hlast.shows hsound'
  obtain ⟨f', hf', hcreation⟩ := (hsound'.inv.owns hlast.creation).file rfl
  obtain rfl := Option.some.inj (hshows.file.symm.trans hf')
  refine ⟨t, ht', ?_, ?_, f, hshows.file, hcreation, hshows.isSealed, hshows.identifier⟩
  · rintro e rfl
    cases hfollows
  · intro hcount
    have hdone : t.lookupsLeft = 0 := by
      rw [hleft, TryNew.lookupsLeft]
      omega
    cases t with
    | finished result => exact congrArg TryNew.finished hfollows
    | begun _ | named _ | opened _ _ | schemaRead _ _ _ | queueListed _ _ _ _ _
    | queueOpened _ _ _ _ | sealsChecked _ _ _ _ | joined _ _ _ => cases hdone

/-- A stream is published while the removal of an older one of its name is still going on. -/
def republishedActions : List MachineAction :=
  overlappingActions.map .publisher ++ [.publisher (.creation 1 .publish)]

/-- Between the lookups the removal ends, and its descriptor number goes to another file. -/
def interferingActions : List MachineAction :=
  [.next 0, .next 0, .publisher (.creation 0 .removeDirectory), .next 0,
    .publisher (.creation 0 .closeQueueFile), .next 0, .publisher (.openFile 3 .other)] ++
    List.replicate 4 (.next 0)

theorem republished_stream_found : ∃ m m',
    run Machine.step Machine.new republishedActions = some m ∧
      run Machine.step m (.tryNew networkGossip.name :: interferingActions) = some m' ∧
      m'.subscribers[0]? = some (.finished (.ok ⟨networkGossip, 1, 1⟩)) := by
  obtain ⟨m, h⟩ : ∃ m, run Machine.step Machine.new republishedActions = some m := ⟨_, rfl⟩
  obtain ⟨m', h'⟩ : ∃ m', run Machine.step m
      (.tryNew networkGossip.name :: interferingActions) = some m' := by
    cases h
    exact ⟨_, rfl⟩
  have hempty : m.subscribers.length = 0 := by
    cases h
    rfl
  have hp : m.world.Publishes ⟨1, networkGossip, 1, 8, 4, 1⟩ := by
    cases h
    exact ⟨rfl⟩
  have hlast : m'.world.Publishes ⟨1, networkGossip, 1, 8, 4, 1⟩ := by
    cases h
    cases h'
    exact ⟨rfl⟩
  have hspares : ∀ a ∈ interferingActions, a.Spares m.subscribers.length := by
    simp [interferingActions, MachineAction.Spares]
  obtain ⟨t, ht, -, hdone, -⟩ := published_stream_found republishedActions interferingActions m m'
    ⟨1, networkGossip, 1, 8, 4, 1⟩ h hp h' hspares hlast
  rw [hempty] at ht hdone
  exact ⟨m, m', h, h', ht.trans (congrArg some (hdone (by decide)))⟩

end AgaveSdk.EventSystem
