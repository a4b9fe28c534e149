import AgaveSdk.EventSystem.AtomicStreams

/-! Creations and removals whose system calls interleave act like single steps on the queues that
live. -/
namespace AgaveSdk.EventSystem
open FallibleState Runs Memory

/-- `schema` gives what each creation writes to its schema file. -/
def Entry.contents (schema : ℕ → List UInt8) : Entry → DirectoryEntry
  | .schema writer => .schema (schema writer)
  | .queue identifier fd => .queue identifier fd

def Creation.call (c : Creation) : CreationCall where
  streamName := c.streamName
  state :=
    match c.stage with
    | .begun | .building _ => .pending
    | .live =>
        match c.queueIdentifier, c.queueFile with
        | some identifier, some file => .holds ⟨identifier, file.1, c.streamName⟩
        | _, _ => .over
    | .removing _ _ | .gone => .over

namespace World

/-- The entries at a published path, as long as their queue lives. -/
def visible (schema : ℕ → List UInt8) (s : World) (streamName : StreamName) :
    Option (List DirectoryEntry) := do
  let d ← s.path .published streamName
  let dir ← s.directories[d]?
  let c ← s.creations[dir.creation]?
  if c.stage = .live then some (dir.entries.map (Entry.contents schema)) else none

def atomic (schema : ℕ → List UInt8) (s : World) : AtomicStreams where
  calls := s.creations.map Creation.call
  fileSystem := ⟨fun
    | .staging => fun _ => none
    | .published => s.visible schema⟩

end World

/-- What both machines show of a run. -/
inductive StreamEvent where
  | begins (streamName : StreamName)
  | drops (k : ℕ)
  deriving DecidableEq

def AtomicAction.event : AtomicAction → Option StreamEvent
  | .begins streamName => some (.begins streamName)
  | .create _ _ => none
  | .drop k => some (.drops k)

def PublisherProcessAction.event : PublisherProcessAction → Option StreamEvent
  | .create streamName => some (.begins streamName)
  | .creation k .dispose => some (.drops k)
  | _ => none

def Entry.precedes : Entry → Entry → Prop
  | .schema _, .queue _ _ => True
  | _, _ => False

/-- Each directory has at most one schema and then at most one link. -/
structure World.Ordered (s : World) : Prop where
  ordered : ∀ {d : ℕ} {dir : Directory}, s.directories[d]? = some dir →
    dir.entries.Pairwise Entry.precedes

section Order

variable {s s' : World} {c : Creation} {k d : ℕ}

theorem eq_schema_queue {entries : List Entry} {writer fd : ℕ} {identifier : UInt64}
    (h : entries.Pairwise Entry.precedes) (hschema : .schema writer ∈ entries)
    (hlink : .queue identifier fd ∈ entries) :
    entries = [.schema writer, .queue identifier fd] := by
  cases h with
  | nil => cases hschema
  | @cons e es hfirst hrest =>
    cases e with
    | queue identifier' fd' =>
      -- Nothing comes after a link.
      rcases List.mem_cons.mp hschema with hsame | hlater
      · cases hsame
      · exact absurd (hfirst _ hlater) id
    | schema writer' =>
      obtain rfl : writer = writer' := by
        rcases List.mem_cons.mp hschema with hsame | hlater
        · cases hsame
          rfl
        · exact absurd (hfirst _ hlater) id
      have hlater : .queue identifier fd ∈ es := by
        rcases List.mem_cons.mp hlink with hsame | hlater
        · cases hsame
        · exact hlater
      cases hrest with
      | nil => cases hlater
      | @cons e' es' hsecond _ =>
        obtain rfl : e' = .queue identifier fd := by
          rcases List.mem_cons.mp hlater with hsame | hlast
          · exact hsame.symm
          · cases e' with
            | schema _ => exact absurd (hfirst _ List.mem_cons_self) id
            | queue _ _ => exact absurd (hsecond _ hlast) id
        cases es' with
        | nil => rfl
        | cons e'' _ => exact absurd (hsecond e'' List.mem_cons_self) (by cases e'' <;> exact id)

namespace World

theorem Ordered.modifyEntries (h : s.Ordered) {f : List Entry → List Entry}
    (hf : ∀ {dir : Directory}, s.directories[d]? = some dir →
      (f dir.entries).Pairwise Entry.precedes) : (s.modifyEntries d f).Ordered := by
  constructor
  intro d' dir' hdir'
  obtain ⟨dir, hdir, ⟨rfl, rfl⟩ | ⟨-, rfl⟩⟩ := get_modify hdir'
  · exact hf hdir
  · exact h.ordered hdir

/-- The schema is the first entry and the link the second. -/
theorem Ordered.addStagedEntry (h : s.Ordered) (hsound : s.Sound)
    (hc : s.creations[k]? = some c) {progress next : Progress} {entry : Entry}
    (hstage : c.stage = .building progress) (hprogress : progress ≠ .linked)
    (hentry : ∀ writer, Entry.sameName (.schema writer) entry = true ∨
      Entry.precedes (.schema writer) entry) :
    (s.addStagedEntry k c entry next).Ordered := by
  obtain ⟨d, hd, hpath⟩ := (hsound.inv.owns hc).staging (by rw [hstage]; rfl)
  unfold World.addStagedEntry
  rw [hpath]
  change World.Ordered (if _ then _ else _)
  split
  · exact ⟨h.ordered⟩
  · next hnew =>
    refine ⟨(h.modifyEntries (d := d) (f := (· ++ [entry])) ?_).ordered⟩
    intro dir hdir
    rw [hdir, Option.any_some, Bool.not_eq_true, List.any_eq_false] at hnew
    refine List.pairwise_append.mpr ⟨h.ordered hdir, List.pairwise_singleton _ _, ?_⟩
    intro e he e' he'
    obtain rfl := List.mem_singleton.mp he'
    cases e with
    | queue identifier fd =>
      exact absurd he ((hsound.serving.serves hc).unlinked hstage hprogress hd hdir)
    | schema writer =>
      rcases hentry writer with hsame | hprecedes
      · cases e' with
        | schema _ => exact absurd rfl (hnew _ he)
        | queue _ _ => cases hsame
      · exact hprecedes

theorem act_ordered (h : s.Ordered) (hsound : s.Sound) (hc : s.creations[k]? = some c)
    (hacts : s.Acts k c s') : s'.Ordered := by
  cases hacts with
  | staged hstage hpath =>
    constructor
    intro d dir hdir
    rcases get_alloc hdir with hold | ⟨-, rfl⟩
    · exact h.ordered hold
    · exact .nil
  | schemaAdded hstage =>
    exact h.addStagedEntry hsound hc hstage (by decide) fun _ => .inl rfl
  | queueLinked hstage =>
    exact h.addStagedEntry hsound hc hstage (by decide) fun _ => .inr trivial
  | published hstage =>
    unfold World.publish
    split
    · exact ⟨h.ordered⟩
    · split
      · exact ⟨h.ordered⟩
      · exact ⟨h.ordered⟩
  | entryUnlinked entry hstage =>
    exact h.modifyEntries fun hdir => (h.ordered hdir).sublist List.erase_sublist
  | ended | cleanedUp | identified | fileCreated | fileInitialized | fileSealed | disposed
  | directoryOpened | directoryRemoved | fileClosed => exact ⟨h.ordered⟩

/-- What makes the directories of a world readable. -/
structure Tidy (s : World) : Prop where
  sound : s.Sound
  labelled : s.Labelled
  ordered : s.Ordered

theorem new_tidy : new.Tidy := ⟨new_sound, ⟨nofun⟩, ⟨fun hdir => by cases hdir⟩⟩

theorem step_tidy {action : PublisherProcessAction} (hstep : s.step action = some s')
    (h : s.Tidy) : s'.Tidy where
  sound := (Goes.single hstep).sound h.sound
  labelled := step_labelled h.labelled h.sound.inv hstep
  ordered := by
    cases action with
    | create streamName =>
      cases hstep
      exact ⟨h.ordered.ordered⟩
    | creation k step =>
      obtain ⟨c, hc, hact⟩ := Option.bind_eq_some_iff.mp hstep
      exact act_ordered h.ordered h.sound hc (act_cases hact)
    | openFile fd descriptor =>
      obtain ⟨-, hs'⟩ := Option.ite_none_right_eq_some.mp hstep
      cases hs'
      exact ⟨h.ordered.ordered⟩
    | closeFile fd =>
      obtain ⟨-, hs'⟩ := Option.ite_none_right_eq_some.mp hstep
      cases hs'
      exact ⟨h.ordered.ordered⟩

end World

end Order

section Visible

variable {schema : ℕ → List UInt8} {s s' : World} {c c' : Creation} {k d : ℕ}
  {streamName : StreamName} {queue : StreamQueue} {entries : List DirectoryEntry}

theorem Creation.call_holds (h : c.call = ⟨streamName, .holds queue⟩) :
    c.stage = .live ∧ c.streamName = streamName ∧ ∃ file,
      c.queueIdentifier = some queue.identifier ∧ c.queueFile = some file ∧
      queue = ⟨queue.identifier, file.1, streamName⟩ := by
  obtain ⟨name, stage, identifier, file, directory⟩ := c
  cases stage with
  | live =>
    cases identifier with
    | none => cases h
    | some identifier =>
      cases file with
      | none => cases h
      | some file =>
        cases h
        exact ⟨rfl, rfl, file, rfl, rfl, rfl⟩
  | begun | building _ | removing _ _ | gone => cases h

namespace World

theorem calls_get : (s.atomic schema).calls[k]? = s.creations[k]?.map Creation.call :=
  List.getElem?_map

theorem holds_atomic (h : (s.atomic schema).Holds k streamName queue) :
    ∃ c, s.creations[k]? = some c ∧ c.call = ⟨streamName, .holds queue⟩ :=
  Option.map_eq_some_iff.mp (calls_get.symm.trans h)

/-- The call of a creation after a step of it. -/
theorem calls_set (hcreations : s'.creations = s.creations.set k c') :
    (s'.atomic schema).calls = (s.atomic schema).calls.set k c'.call := by
  unfold atomic
  rw [hcreations, List.map_set]

/-- The directory of a live creation. -/
theorem Tidy.live (h : s.Tidy) (hc : s.creations[k]? = some c) (hstage : c.stage = .live) :
    ∃ d identifier file, c.queueIdentifier = some identifier ∧ c.queueFile = some file ∧
      s.path .published c.streamName = some d ∧
      s.directories[d]? = some ⟨[.schema k, .queue identifier file.1], k⟩ := by
  have hown := h.sound.inv.owns hc
  obtain ⟨d, hd, hpath⟩ := hown.published (by rw [hstage]; rfl)
  obtain ⟨dir, hdir, hcreation⟩ := hown.directory hd
  obtain ⟨identifier, file, hid, hfile, hlink⟩ := hown.link hd hdir (by rw [hstage]; rfl)
  have hentries := eq_schema_queue (h.ordered.ordered hdir)
    (hown.schema hd hdir (by rw [hstage]; rfl)) hlink
  refine ⟨d, identifier, file, hid, hfile, hpath, ?_⟩
  rw [hdir, ← hentries, ← hcreation]

theorem visible_of_live (h : s.Tidy) (hc : s.creations[k]? = some c)
    (hcall : c.call = ⟨streamName, .holds queue⟩) : s.visible schema streamName =
      some (filledEntries (schema k) queue.identifier queue.queueFile) := by
  obtain ⟨hstage, rfl, file, hid, hfile, hqueue⟩ := Creation.call_holds hcall
  obtain ⟨d, identifier, file', hid', hfile', hpath, hdir⟩ := h.live hc hstage
  obtain rfl := Option.some.inj (hid.symm.trans hid')
  obtain rfl := Option.some.inj (hfile.symm.trans hfile')
  rw [hqueue]
  simp only [visible, hpath, hdir, hc, hstage, Option.bind_eq_bind, Option.bind_some, if_true]
  rfl

/-- The parts through which entries are visible. -/
theorem visible_eq_some (hvisible : s.visible schema streamName = some entries) :
    ∃ d dir c, s.path .published streamName = some d ∧ s.directories[d]? = some dir ∧
      s.creations[dir.creation]? = some c ∧ c.stage = .live ∧
      entries = dir.entries.map (Entry.contents schema) := by
  simp only [visible, Option.bind_eq_bind, Option.bind_eq_some_iff] at hvisible
  obtain ⟨d, hpath, dir, hdir, c, hc, hentries⟩ := hvisible
  obtain ⟨hstage, hentries⟩ := Option.ite_none_right_eq_some.mp hentries
  exact ⟨d, dir, c, hpath, hdir, hc, hstage, (Option.some.inj hentries).symm⟩

/-- Where a rename finds nothing or an empty directory, nothing is visible. -/
theorem visible_of_empty (hempty : (s.path .published streamName).all s.isEmptyDirectory = true)
    (hvisible : s.visible schema streamName = some entries) : entries = [] := by
  obtain ⟨d, dir, c, hpath, hdir, hc, hstage, rfl⟩ := visible_eq_some hvisible
  rw [hpath, Option.all_some, isEmptyDirectory, hdir, Option.any_some, List.isEmpty_iff] at hempty
  rw [hempty, List.map_nil]

theorem atomic_inv (h : s.Tidy) : (s.atomic schema).Inv schema where
  staging _ := rfl
  published := by
    intro name entries
    constructor
    · intro hvisible
      obtain ⟨d, dir, c, hpath, hdir, hc, hstage, rfl⟩ := visible_eq_some hvisible
      obtain ⟨dir', c', hdir', hc', rfl⟩ := h.labelled.paths hpath
      obtain rfl := Option.some.inj (hdir.symm.trans hdir')
      obtain rfl := Option.some.inj (hc.symm.trans hc')
      obtain ⟨d', identifier, file, hid, hfile, hpath', hdir''⟩ := h.live hc hstage
      obtain rfl := Option.some.inj (hpath.symm.trans hpath')
      have hentries := congrArg Directory.entries (Option.some.inj (hdir.symm.trans hdir''))
      refine ⟨dir.creation, ⟨identifier, file.1, c.streamName⟩, calls_get.trans ?_, ?_⟩
      · rw [hc, Option.map_some, Creation.call, hstage, hid, hfile]
      · rw [hentries]
        rfl
    · rintro ⟨k, queue, hheld, rfl⟩
      obtain ⟨c, hc, hcall⟩ := holds_atomic hheld
      exact visible_of_live h hc hcall
  unique := by
    intro k k' name queue queue' hheld hheld'
    obtain ⟨c, hc, hcall⟩ := holds_atomic hheld
    obtain ⟨c', hc', hcall'⟩ := holds_atomic hheld'
    obtain ⟨hstage, rfl, -⟩ := Creation.call_holds hcall
    obtain ⟨hstage', hname, -⟩ := Creation.call_holds hcall'
    -- Both live at the path of the name, so in one directory.
    obtain ⟨d, identifier, file, -, -, hpath, hdir⟩ := h.live hc hstage
    obtain ⟨d', identifier', file', -, -, hpath', hdir'⟩ := h.live hc' hstage'
    rw [hname, hpath] at hpath'
    cases hpath'
    exact congrArg Directory.creation (Option.some.inj (hdir.symm.trans hdir'))
  named := by
    intro k name queue hheld
    obtain ⟨c, -, hcall⟩ := holds_atomic hheld
    obtain ⟨-, -, file, -, -, hqueue⟩ := Creation.call_holds hcall
    rw [hqueue]

end World

end Visible

section Steps

variable {schema : ℕ → List UInt8} {s s' : World} {c : Creation} {k : ℕ} {step : CreationStep}

theorem Creation.call_building {progress : Progress} (hstage : c.stage = .building progress) :
    c.call.state = .pending := by
  simp only [Creation.call, hstage]

/-- The state of a call after a step that does not dispose of its queue. -/
inductive World.CallMoves (s : World) (c : Creation) : CallState → Prop where
  | same {state : CallState} (hsame : state = c.call.state) : s.CallMoves c state
  | failed (hpending : c.call.state = .pending) : s.CallMoves c .over
  | created (identifier : UInt64) (fd : ℕ) (hpending : c.call.state = .pending)
      (hempty : (s.path .published c.streamName).all s.isEmptyDirectory = true) :
      s.CallMoves c (.holds ⟨identifier, fd, c.streamName⟩)

namespace World

/-- Only a disposal can be the next step of a creation that lives. -/
theorem act_live (hact : s.act k c step = some s') (hstage : c.stage = .live) :
    step = .dispose := by
  cases step with
  | dispose => rfl
  | createStagingDirectory | writeSchema | drawIdentifier _ | createMemfd _ | initializeQueue
  | sealQueue | linkQueue | publish | fail | openDirectory | unlinkEntry _ | removeDirectory
  | abandon | closeQueueFile => simp [act, hstage] at hact

theorem acts_call (h : s.Tidy) (hc : s.creations[k]? = some c) (hstage : c.stage ≠ .live)
    (hacts : s.Acts k c s') : ∃ c' state, s'.creations = s.creations.set k c' ∧
      c'.call = ⟨c.streamName, state⟩ ∧ s.CallMoves c state := by
  cases hacts with
  | ended hended =>
    refine ⟨_, _, rfl, rfl, ?_⟩
    rcases hended with hbegun | ⟨place, handle, hremoving⟩
    · exact .failed (by simp only [Creation.call, hbegun])
    · exact .same (by simp only [Creation.call, hremoving])
  | cleanedUp hbuilding => exact ⟨_, _, rfl, rfl, .failed (Creation.call_building hbuilding)⟩
  | staged hbegun hpath => exact ⟨_, _, rfl, rfl, .same (by simp only [Creation.call, hbegun])⟩
  | schemaAdded hbuilding | queueLinked hbuilding =>
    unfold addStagedEntry
    split
    · exact ⟨_, _, rfl, rfl, .failed (Creation.call_building hbuilding)⟩
    · split
      · exact ⟨_, _, rfl, rfl, .failed (Creation.call_building hbuilding)⟩
      · exact ⟨_, _, rfl, rfl, .same (Creation.call_building hbuilding).symm⟩
  | identified hbuilding hfresh =>
    exact ⟨_, _, rfl, rfl, .same (Creation.call_building hbuilding).symm⟩
  | fileCreated hbuilding hfd =>
    exact ⟨_, _, rfl, rfl, .same (Creation.call_building hbuilding).symm⟩
  | fileInitialized hbuilding hfile | fileSealed hbuilding hfile =>
    exact ⟨_, _, rfl, rfl, .same (Creation.call_building hbuilding).symm⟩
  | published hbuilding =>
    have hown := h.sound.inv.owns hc
    obtain ⟨d, hd, -⟩ := hown.staging (by rw [hbuilding]; rfl)
    obtain ⟨dir, hdir, -⟩ := hown.directory hd
    obtain ⟨identifier, file, hid, hfile, -⟩ := hown.link hd hdir (by rw [hbuilding]; rfl)
    unfold publish
    split
    · exact ⟨_, _, rfl, rfl, .failed (Creation.call_building hbuilding)⟩
    · split
      · next hempty =>
        refine ⟨{ c with stage := .live }, _, rfl, ?_,
          .created identifier file.1 (Creation.call_building hbuilding) hempty⟩
        simp only [Creation.call, hid, hfile]
      · exact ⟨_, _, rfl, rfl, .failed (Creation.call_building hbuilding)⟩
  | disposed hlive => exact absurd hlive hstage
  | directoryOpened hremoving hpath | directoryRemoved hremoving hempty =>
    exact ⟨_, _, rfl, rfl, .same (by simp only [Creation.call, hremoving])⟩
  | entryUnlinked entry hremoving => exact ⟨c, _, (set_same hc).symm, rfl, .same rfl⟩
  | fileClosed hfile hover =>
    refine ⟨_, _, rfl, rfl, .same ?_⟩
    rcases hover with ⟨handle, hremoving⟩ | hgone
    · simp only [Creation.call, hremoving]
    · simp only [Creation.call, hgone]

variable {action : PublisherProcessAction}

theorem event_creation (hne : step ≠ .dispose) :
    (PublisherProcessAction.creation k step).event = none := by
  cases step with
  | dispose => exact absurd rfl hne
  | createStagingDirectory | writeSchema | drawIdentifier _ | createMemfd _ | initializeQueue
  | sealQueue | linkQueue | publish | fail | openDirectory | unlinkEntry _ | removeDirectory
  | abandon | closeQueueFile => rfl

/-- The calls decide what the directories hold, so it is enough to follow them. -/
theorem atomic_eq (h : s.Tidy) (h' : s'.Tidy)
    (hcalls : (s'.atomic schema).calls = (s.atomic schema).calls) :
    run (AtomicStreams.step schema) (s.atomic schema) [] = some (s'.atomic schema) := by
  have hinv : (s.atomic schema).Inv schema := atomic_inv h
  exact congrArg some (hinv.ext (atomic_inv h') hcalls.symm)

theorem atomic_step {b : AtomicAction} {a : AtomicStreams} (h : s.Tidy) (h' : s'.Tidy)
    (hb : AtomicStreams.step schema (s.atomic schema) b = some a)
    (hcalls : (s'.atomic schema).calls = a.calls) :
    run (AtomicStreams.step schema) (s.atomic schema) [b] = some (s'.atomic schema) := by
  have ha : a.Inv schema := AtomicStreams.step_inv hb (atomic_inv h)
  rw [run, hb, ha.ext (atomic_inv h') hcalls.symm]
  rfl

/-- A creation acts when it fails or publishes its directory, and a removal when it begins. -/
theorem act_atomic (h : s.Tidy) (h' : s'.Tidy) (hc : s.creations[k]? = some c)
    (hact : s.act k c step = some s') :
    ∃ calls, run (AtomicStreams.step schema) (s.atomic schema) calls = some (s'.atomic schema) ∧
      calls.filterMap AtomicAction.event =
        (PublisherProcessAction.creation k step).event.toList := by
  have hcall : (s.atomic schema).calls[k]? = some c.call := by
    rw [calls_get, hc, Option.map_some]
  by_cases hlive : c.stage = .live
  · obtain rfl := act_live hact hlive
    obtain ⟨-, hs'⟩ := Option.ite_none_right_eq_some.mp hact
    obtain ⟨d, identifier, file, hid, hfile, -⟩ := h.live hc hlive
    have hheld : (s.atomic schema).Holds k c.streamName ⟨identifier, file.1, c.streamName⟩ := by
      refine hcall.trans ?_
      rw [Creation.call, hlive, hid, hfile]
    have hcreations : s'.creations =
        s.creations.set k { c with stage := .removing .published none } := by
      cases hs'
      rfl
    exact ⟨[.drop k], atomic_step h h' (AtomicStreams.step_drop hheld) (calls_set hcreations), rfl⟩
  · obtain ⟨c', state, hcreations, hcall', hmoves⟩ := acts_call h hc hlive (act_cases hact)
    have hcalls : (s'.atomic schema).calls =
        (s.atomic schema).calls.set k ⟨c.streamName, state⟩ := by
      rw [calls_set hcreations, hcall']
    have hpending (hstate : c.call.state = .pending) :
        (s.atomic schema).calls[k]? = some ⟨c.streamName, .pending⟩ := by
      rw [hcall, ← hstate]
      rfl
    have hevent : (PublisherProcessAction.creation k step).event = none := by
      apply event_creation
      rintro rfl
      exact hlive (Option.ite_none_right_eq_some.mp hact).1
    rw [hevent]
    cases hmoves with
    | same hsame =>
      subst hsame
      exact ⟨[], atomic_eq h h' (hcalls.trans (set_same hcall)), rfl⟩
    | failed hstate =>
      have hfault : (⟨some .publish, 0, 0, 0⟩ : Attempt).fault = some .publish := rfl
      exact ⟨[.create k ⟨some .publish, 0, 0, 0⟩],
        atomic_step h h' (AtomicStreams.create_fault (hpending hstate) hfault) hcalls, rfl⟩
    | created identifier fd hstate hempty =>
      exact ⟨[.create k ⟨none, 0, identifier, fd⟩],
        atomic_step h h' (AtomicStreams.create_ok (hpending hstate) rfl rfl fun _ =>
          visible_of_empty hempty) hcalls, rfl⟩

/-- A single step of the calls, or none, has the effect of any step. -/
theorem step_atomic (hstep : s.step action = some s') (h : s.Tidy) :
    ∃ calls, run (AtomicStreams.step schema) (s.atomic schema) calls = some (s'.atomic schema) ∧
      calls.filterMap AtomicAction.event = action.event.toList := by
  have h' : s'.Tidy := step_tidy hstep h
  cases action with
  | create streamName =>
    refine ⟨[.begins streamName], atomic_step h h' rfl ?_, rfl⟩
    cases hstep
    simp only [atomic, List.map_append, List.map_cons, List.map_nil, Creation.call]
  | openFile fd descriptor =>
    obtain ⟨-, hs'⟩ := Option.ite_none_right_eq_some.mp hstep
    cases hs'
    exact ⟨[], atomic_eq h h' rfl, rfl⟩
  | closeFile fd =>
    obtain ⟨-, hs'⟩ := Option.ite_none_right_eq_some.mp hstep
    cases hs'
    exact ⟨[], atomic_eq h h' rfl, rfl⟩
  | creation k step =>
    obtain ⟨c, hc, hact⟩ := Option.bind_eq_some_iff.mp hstep
    exact act_atomic h h' hc hact

end World

end Steps

/-- However the system calls of creations and removals interleave, between any two moments each
creation takes effect in one step, each removal does when it begins, and nothing else shows. Exactly
the queues that are held are then published, each alone under its name. -/
theorem creations_take_effect_at_once (schema : ℕ → List UInt8)
    (before during : List PublisherProcessAction) (s s' : World)
    (h : run World.step World.new before = some s) (h' : run World.step s during = some s') :
    (∃ calls, run (AtomicStreams.step schema) (s.atomic schema) calls = some (s'.atomic schema) ∧
      calls.filterMap AtomicAction.event = during.filterMap PublisherProcessAction.event) ∧
    (s'.atomic schema).Inv schema := by
  have htidy : s.Tidy := run_invariant World.Tidy World.step_tidy h World.new_tidy
  have htidy' : s'.Tidy := run_invariant World.Tidy World.step_tidy h' htidy
  refine ⟨?_, World.atomic_inv htidy'⟩
  exact run_simulates World.Tidy (World.atomic schema) PublisherProcessAction.event
    AtomicAction.event World.step_tidy World.step_atomic h' htidy

/-- A stream is published while the removal of an older one of its name is still going on, and that
removal then finds the newer directory. -/
theorem overlapping_creations_take_effect : ∃ s s',
    run World.step World.new overlappingActions = some s ∧
    run World.step s [.creation 1 .publish, .creation 0 .removeDirectory, .creation 1 .dispose] =
      some s' ∧
    ∃ calls, run (AtomicStreams.step fun _ => [1]) (s.atomic fun _ => [1]) calls =
        some (s'.atomic fun _ => [1]) ∧
      calls.filterMap AtomicAction.event = [.drops 1] := by
  obtain ⟨s, h⟩ : ∃ s, run World.step World.new overlappingActions = some s := ⟨_, rfl⟩
  obtain ⟨s', h'⟩ : ∃ s', run World.step s [.creation 1 .publish, .creation 0 .removeDirectory,
      .creation 1 .dispose] = some s' := by
    cases h
    exact ⟨_, rfl⟩
  obtain ⟨hcalls, -⟩ := creations_take_effect_at_once (fun _ => [1]) _ _ s s' h h'
  exact ⟨s, s', h, h', hcalls⟩

end AgaveSdk.EventSystem
