import AgaveSdk.EventSystem.PublishedDirectories
import AgaveSdk.Library.DecimalText

/-! The names under which a stream directory holds its entries, and how a subscriber reads the
identifier of the queue out of them. -/
namespace AgaveSdk.EventSystem
open Runs Memory DecimalText

def schemaFileName : Str := ['s', 'c', 'h', 'e', 'm', 'a']

def queueFileNamePrefix : Str := ['q', 'u', 'e', 'u', 'e', '-']

def queueFileName (queueIdentifier : UInt64) : Str :=
  queueFileNamePrefix ++ Nat.toDigits 10 queueIdentifier.toNat

def Entry.fileName : Entry → Str
  | .schema _ => schemaFileName
  | .queue identifier _ => queueFileName identifier

/-- The entries that every directory has. -/
def dotNames : List Str := [['.'], ['.', '.']]

inductive QueueFileNameError where
  | queueFileIsNotPublished
  | invalidQueueIdentifier
  deriving DecidableEq, Repr

/-- The identifier and the name of the queue file, by the names that `readdir` returns. -/
def findQueueFile (names : List Str) : Except QueueFileNameError (UInt64 × Str) :=
  match names.find? fun name => queueFileNamePrefix.isPrefixOf name with
  | none => .error .queueFileIsNotPublished
  | some name =>
    match parse (2 ^ 64) (name.drop queueFileNamePrefix.length) with
    | some identifier => .ok (UInt64.ofNat identifier, name)
    | none => .error .invalidQueueIdentifier

/-- The directories never have two entries of one name. -/
structure World.Named (s : World) : Prop where
  distinct : ∀ {d : ℕ} {dir : Directory}, s.directories[d]? = some dir →
    dir.entries.Pairwise fun e e' => e.sameName e' = false

section Names

variable {s s' : World} {c : Creation} {k d : ℕ} {dir : Directory} {identifier : UInt64}

/-- Entries are told apart by what the model keeps of their names. -/
theorem Entry.sameName_iff {e e' : Entry} : e.sameName e' = true ↔ e.fileName = e'.fileName := by
  cases e with
  | schema writer =>
    cases e' with
    | schema writer' => exact iff_of_true rfl rfl
    | queue identifier fd => simp [Entry.sameName, Entry.fileName, schemaFileName, queueFileName,
        queueFileNamePrefix]
  | queue identifier fd =>
    cases e' with
    | schema writer => simp [Entry.sameName, Entry.fileName, schemaFileName, queueFileName,
        queueFileNamePrefix]
    | queue identifier' fd' =>
      rw [Entry.sameName, beq_iff_eq, Entry.fileName, Entry.fileName, queueFileName,
        queueFileName, List.append_cancel_left_eq]
      constructor
      · rintro rfl
        rfl
      · exact fun h => UInt64.toNat_inj.mp (toDigits_inj h)

theorem World.Named.modifyEntries (h : s.Named) {f : List Entry → List Entry}
    (hf : ∀ {dir : Directory}, s.directories[d]? = some dir →
      (f dir.entries).Pairwise fun e e' => e.sameName e' = false) :
    (s.modifyEntries d f).Named := by
  constructor
  intro d' dir' hdir'
  obtain ⟨dir, hdir, ⟨rfl, rfl⟩ | ⟨-, rfl⟩⟩ := get_modify hdir'
  · exact hf hdir
  · exact h.distinct hdir

theorem World.Named.addStagedEntry (h : s.Named) {entry : Entry} {next : Progress} :
    (s.addStagedEntry k c entry next).Named := by
  unfold World.addStagedEntry
  split
  · exact ⟨h.distinct⟩
  · next d hpath =>
    split
    · exact ⟨h.distinct⟩
    · next hnew =>
      refine ⟨(h.modifyEntries (d := d) (f := (· ++ [entry])) ?_).distinct⟩
      intro dir hdir
      rw [hdir, Option.any_some, Bool.not_eq_true, List.any_eq_false] at hnew
      refine List.pairwise_append.mpr ⟨h.distinct hdir, List.pairwise_singleton _ _, ?_⟩
      intro e he e' he'
      rw [List.mem_singleton.mp he', Bool.eq_false_iff]
      -- Having the same name is symmetric, as the names are equal.
      intro hsame
      exact hnew e he (Entry.sameName_iff.mpr (Entry.sameName_iff.mp hsame).symm)

theorem World.act_named (h : s.Named) (hacts : s.Acts k c s') : s'.Named := by
  cases hacts with
  | staged hstage hpath =>
    constructor
    intro d dir hdir
    rcases get_alloc hdir with hold | ⟨-, rfl⟩
    · exact h.distinct hold
    · exact .nil
  | schemaAdded hstage | queueLinked hstage => exact h.addStagedEntry
  | published hstage =>
    unfold World.publish
    split
    · exact ⟨h.distinct⟩
    · split
      · exact ⟨h.distinct⟩
      · exact ⟨h.distinct⟩
  | entryUnlinked entry hstage =>
    exact h.modifyEntries fun hdir => (h.distinct hdir).sublist List.erase_sublist
  | ended | cleanedUp | identified | fileCreated | fileInitialized | fileSealed | disposed
  | directoryOpened | directoryRemoved | fileClosed => exact ⟨h.distinct⟩

theorem World.step_named {action : PublisherProcessAction} (h : s.Named)
    (hstep : s.step action = some s') : s'.Named := by
  cases action with
  | create streamName =>
    cases hstep
    exact ⟨h.distinct⟩
  | creation k step =>
    obtain ⟨c, -, hact⟩ := Option.bind_eq_some_iff.mp hstep
    exact World.act_named h (World.act_cases hact)
  | openFile fd descriptor =>
    obtain ⟨-, hs'⟩ := Option.ite_none_right_eq_some.mp hstep
    cases hs'
    exact ⟨h.distinct⟩
  | closeFile fd =>
    obtain ⟨-, hs'⟩ := Option.ite_none_right_eq_some.mp hstep
    cases hs'
    exact ⟨h.distinct⟩

theorem queueFileName_prefix : queueFileNamePrefix.isPrefixOf (queueFileName identifier) = true :=
  List.isPrefixOf_iff_prefix.mpr (List.prefix_append _ _)

theorem parse_queueFileName :
    parse (2 ^ 64) ((queueFileName identifier).drop queueFileNamePrefix.length) =
      some identifier.toNat := by
  rw [queueFileName, List.drop_left]
  exact parse_toDigits identifier.toNat_lt

/-- Among the names of a directory, only those of queues begin like one. -/
theorem eq_queueFileName {names : List Str} {name : Str}
    (hnames : names.Perm (dotNames ++ dir.entries.map Entry.fileName)) (hmem : name ∈ names)
    (hbegins : queueFileNamePrefix.isPrefixOf name = true) :
    ∃ identifier fd, .queue identifier fd ∈ dir.entries ∧ name = queueFileName identifier := by
  rcases List.mem_append.mp (hnames.subset hmem) with hdot | hentry
  · rw [dotNames, List.mem_cons, List.mem_singleton] at hdot
    rcases hdot with rfl | rfl
    · cases hbegins
    · cases hbegins
  · obtain ⟨e, he, rfl⟩ := List.mem_map.mp hentry
    cases e with
    | schema writer => cases hbegins
    | queue identifier fd => exact ⟨identifier, fd, he, rfl⟩

end Names

/-- In every run, and in whatever order the names are returned: the entries of a directory have
different names, a linked queue is found with exactly the identifier that its creation drew, and a
directory without a link is reported as such. No identifier is invalid. -/
theorem queue_file_names_identify (actions : List PublisherProcessAction) (s : World)
    (h : run World.step World.new actions = some s) (d : ℕ) (dir : Directory)
    (hdir : s.directories[d]? = some dir) (names : List Str)
    (hnames : names.Perm (dotNames ++ dir.entries.map Entry.fileName)) :
    names.Nodup ∧
      (∀ identifier fd, .queue identifier fd ∈ dir.entries →
        findQueueFile names = .ok (identifier, queueFileName identifier) ∧
          s.Drew dir.creation identifier) ∧
      ((∀ identifier fd, .queue identifier fd ∉ dir.entries) →
        findQueueFile names = .error .queueFileIsNotPublished) := by
  have hinv : s.Inv := run_invariant World.Inv World.step_inv h World.new_inv
  have hnamed : s.Named :=
    run_invariant World.Named (fun hstep hs => World.step_named hs hstep) h
      ⟨fun hdir => by cases hdir⟩
  have hdistinct : (dir.entries.map Entry.fileName).Nodup := by
    rw [List.Nodup, List.pairwise_map]
    refine (hnamed.distinct hdir).imp ?_
    intro e e' hdifferent hsame
    rw [Entry.sameName_iff.mpr hsame] at hdifferent
    cases hdifferent
  refine ⟨?_, ?_, ?_⟩
  · refine hnames.nodup_iff.mpr (List.nodup_append.mpr ⟨by decide, hdistinct, ?_⟩)
    intro name hdot name' hname' hsame
    obtain ⟨e, -, rfl⟩ := List.mem_map.mp hname'
    rw [dotNames, List.mem_cons, List.mem_singleton, hsame] at hdot
    cases e with
    | schema writer => simp [Entry.fileName, schemaFileName] at hdot
    | queue identifier fd => simp [Entry.fileName, queueFileName, queueFileNamePrefix] at hdot
  · intro identifier fd hlink
    have hdrew : s.Drew dir.creation identifier := hinv.entries hdir _ hlink
    refine ⟨?_, hdrew⟩
    have hmem : queueFileName identifier ∈ names :=
      hnames.symm.subset (List.mem_append_right _ (List.mem_map_of_mem hlink))
    unfold findQueueFile
    cases hfound : names.find? fun name => queueFileNamePrefix.isPrefixOf name with
    | none =>
      have hnone := List.find?_eq_none.mp hfound _ hmem
      exact absurd queueFileName_prefix hnone
    | some name =>
      -- Every link in the directory has the identifier that the creation drew.
      obtain ⟨identifier', fd', hlink', rfl⟩ := eq_queueFileName hnames
        (List.mem_of_find?_eq_some hfound) (List.find?_some hfound)
      obtain ⟨x, hx, hid⟩ := hdrew
      obtain ⟨x', hx', hid'⟩ : s.Drew dir.creation identifier' := hinv.entries hdir _ hlink'
      obtain rfl := Option.some.inj (hx.symm.trans hx')
      obtain rfl := Option.some.inj (hid.symm.trans hid')
      simp only [parse_queueFileName, UInt64.ofNat_toNat]
  · intro hnone
    unfold findQueueFile
    cases hfound : names.find? fun name => queueFileNamePrefix.isPrefixOf name with
    | none => rfl
    | some name =>
      obtain ⟨identifier, fd, hlink, -⟩ := eq_queueFileName hnames
        (List.mem_of_find?_eq_some hfound) (List.find?_some hfound)
      exact absurd hlink (hnone identifier fd)

/-- The names of the staged directory, in an order of the system's choice. -/
def shuffledNames : List Str := [queueFileName 8, ['.', '.'], schemaFileName, ['.']]

theorem shuffled_names_identify : ∃ s, run World.step World.new overlappingActions = some s ∧
    s.directories[1]?.map Directory.entries = some [.schema 1, .queue 8 4] ∧
      findQueueFile shuffledNames = .ok (8, queueFileName 8) := by
  obtain ⟨s, h⟩ : ∃ s, run World.step World.new overlappingActions = some s := ⟨_, rfl⟩
  have hdir : s.directories[1]? = some ⟨[.schema 1, .queue 8 4], 1⟩ := by
    cases h
    rfl
  have hnames : shuffledNames.Perm
      (dotNames ++ [Entry.schema 1, Entry.queue 8 4].map Entry.fileName) := by
    decide
  obtain ⟨-, hfound, -⟩ := queue_file_names_identify overlappingActions s h 1 _ hdir shuffledNames
    hnames
  exact ⟨s, h, by rw [hdir]; rfl, (hfound 8 4 (by decide)).1⟩

end AgaveSdk.EventSystem
