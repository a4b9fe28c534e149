import AgaveSdk.EventSystem.DirectoryOwnership

/-! A published directory stays at its path, whatever the other creations of its name do. -/
namespace AgaveSdk.EventSystem
open Runs Memory

section Extension
variable {s s' : World} {c c' : Creation} {k : ℕ}

namespace World

/-- What stays true of a world: objects keep their creations, and identifiers and directories are
given once. -/
structure Extends (s s' : World) : Prop where
  directories : ∀ {d : ℕ} {dir : Directory}, s.directories[d]? = some dir →
    ∃ dir', s'.directories[d]? = some dir' ∧ dir'.creation = dir.creation
  files : ∀ {f : ℕ} {file : QueueFile}, s.files[f]? = some file →
    ∃ file', s'.files[f]? = some file' ∧ file'.creation = file.creation ∧
      ∀ identifier, file.identifier = some identifier → file'.identifier = some identifier
  creations : ∀ {k : ℕ} {c : Creation}, s.creations[k]? = some c →
    ∃ c', s'.creations[k]? = some c' ∧ c'.streamName = c.streamName ∧
      (∀ identifier, c.queueIdentifier = some identifier →
        c'.queueIdentifier = some identifier) ∧
      (c.stage ≠ .begun → c'.directory = c.directory ∧ c'.stage ≠ .begun)

theorem Extends.trans {s'' : World} (h : s.Extends s') (h' : s'.Extends s'') : s.Extends s'' := by
  constructor
  case directories =>
    intro d dir hdir
    obtain ⟨dir', hdir', hcreation⟩ := h.directories hdir
    obtain ⟨dir'', hdir'', hcreation'⟩ := h'.directories hdir'
    exact ⟨dir'', hdir'', hcreation'.trans hcreation⟩
  case files =>
    intro f file hfile
    obtain ⟨file', hfile', hcreation, hid⟩ := h.files hfile
    obtain ⟨file'', hfile'', hcreation', hid'⟩ := h'.files hfile'
    exact ⟨file'', hfile'', hcreation'.trans hcreation, fun i hi => hid' i (hid i hi)⟩
  case creations =>
    intro k c hc
    obtain ⟨c', hc', hname, hid, hdir⟩ := h.creations hc
    obtain ⟨c'', hc'', hname', hid', hdir'⟩ := h'.creations hc'
    refine ⟨c'', hc'', hname'.trans hname, fun i hi => hid' i (hid i hi), ?_⟩
    intro hstage
    obtain ⟨hd, hne⟩ := hdir hstage
    obtain ⟨hd', hne'⟩ := hdir' hne
    exact ⟨hd'.trans hd, hne'⟩

theorem Extends.refl (s : World) : s.Extends s where
  directories hdir := ⟨_, hdir, rfl⟩
  files hfile := ⟨_, hfile, rfl, fun _ hid => hid⟩
  creations hc := ⟨_, hc, rfl, fun _ hid => hid, fun hne => ⟨rfl, hne⟩⟩

/-- A step of a creation, after what it does to the objects. -/
theorem Extends.put (h : s.Extends s') (hcreations : s'.creations = s.creations)
    (hc : s.creations[k]? = some c) (hname : c'.streamName = c.streamName)
    (hid : ∀ identifier, c.queueIdentifier = some identifier →
      c'.queueIdentifier = some identifier)
    (hdir : c.stage ≠ .begun → c'.directory = c.directory ∧ c'.stage ≠ .begun) :
    s.Extends (s'.put k c') where
  directories := h.directories
  files := h.files
  creations := by
    intro j x hx
    rcases eq_or_ne j k with rfl | hne
    · obtain rfl := Option.some.inj (hc.symm.trans hx)
      exact ⟨c', set_get (hcreations ▸ hc), hname, hid, hdir⟩
    · exact ⟨x, (List.getElem?_set_ne hne.symm).trans (hcreations ▸ hx), rfl, fun _ hid => hid,
        fun hne => ⟨rfl, hne⟩⟩

/-- A step of a creation that only changes its stage, to a later one. -/
theorem Extends.restage (h : s.Extends s') (hcreations : s'.creations = s.creations)
    (hc : s.creations[k]? = some c) {stage : Stage} (hne : stage ≠ .begun) :
    s.Extends (s'.put k { c with stage := stage }) :=
  h.put hcreations hc rfl (fun _ hid => hid) fun _ => ⟨rfl, hne⟩

theorem modifyEntries_extends (s : World) (d : ℕ) (f : List Entry → List Entry) :
    s.Extends (s.modifyEntries d f) where
  directories := by
    intro d' dir hdir
    rcases eq_or_ne d' d with rfl | hne
    · exact ⟨_, modify_get hdir, rfl⟩
    · exact ⟨dir, (modify_get_ne hne).trans hdir, rfl⟩
  files hfile := ⟨_, hfile, rfl, fun _ hid => hid⟩
  creations hc := ⟨_, hc, rfl, fun _ hid => hid, fun hne => ⟨rfl, hne⟩⟩

theorem modifyFile_extends {f : ℕ} {g : QueueFile → QueueFile}
    (hg : ∀ {file : QueueFile}, s.files[f]? = some file → (g file).creation = file.creation ∧
      ∀ identifier, file.identifier = some identifier →
        (g file).identifier = some identifier) : s.Extends (s.modifyFile f g) where
  directories hdir := ⟨_, hdir, rfl⟩
  files := by
    intro f' file hfile
    rcases eq_or_ne f' f with rfl | hne
    · exact ⟨_, modify_get hfile, hg hfile⟩
    · exact ⟨file, (modify_get_ne hne).trans hfile, rfl, fun _ hid => hid⟩
  creations hc := ⟨_, hc, rfl, fun _ hid => hid, fun hne => ⟨rfl, hne⟩⟩

/-- Where nothing is overwritten. -/
theorem extends_of_keeps (hdirs : ∀ {d : ℕ} {dir : Directory}, s.directories[d]? = some dir →
      s'.directories[d]? = some dir)
    (hfiles : ∀ {f : ℕ} {file : QueueFile}, s.files[f]? = some file → s'.files[f]? = some file)
    (hcreations : ∀ {k : ℕ} {c : Creation}, s.creations[k]? = some c →
      s'.creations[k]? = some c) : s.Extends s' where
  directories hdir := ⟨_, hdirs hdir, rfl⟩
  files hfile := ⟨_, hfiles hfile, rfl, fun _ hid => hid⟩
  creations hc := ⟨_, hcreations hc, rfl, fun _ hid => hid, fun hne => ⟨rfl, hne⟩⟩

theorem setPath_extends (s : World) (place : Place) (streamName : StreamName) (d : Option ℕ) :
    s.Extends (s.setPath place streamName d) :=
  extends_of_keeps (fun hdir => hdir) (fun hfile => hfile) fun hc => hc

theorem setDescriptor_extends (s : World) (fd : ℕ) (descriptor : Option Descriptor) :
    s.Extends (s.setDescriptor fd descriptor) :=
  extends_of_keeps (fun hdir => hdir) (fun hfile => hfile) fun hc => hc

theorem addStagedEntry_extends (hc : s.creations[k]? = some c) (entry : Entry)
    (progress : Progress) : s.Extends (s.addStagedEntry k c entry progress) := by
  unfold addStagedEntry
  split
  · exact (Extends.refl s).restage rfl hc (by simp)
  · next d _ =>
    split
    · exact (Extends.refl s).restage rfl hc (by simp)
    · exact (modifyEntries_extends s d (· ++ [entry])).restage rfl hc (by simp)

theorem publish_extends (hc : s.creations[k]? = some c) : s.Extends (s.publish k c) := by
  unfold publish
  split
  · exact (Extends.refl s).restage rfl hc (by simp)
  · split
    · exact ((setPath_extends s _ _ _).trans (setPath_extends _ _ _ _)).restage rfl hc (by simp)
    · exact (Extends.refl s).restage rfl hc (by simp)

theorem act_extends (h : s.Inv) (hc : s.creations[k]? = some c) (hacts : s.Acts k c s') :
    s.Extends s' := by
  cases hacts with
  | ended => exact (Extends.refl s).restage rfl hc (by simp)
  | cleanedUp => exact (Extends.refl s).restage rfl hc (by simp)
  | staged hstage =>
    have halloc : s.Extends (s.allocDirectory k) :=
      extends_of_keeps alloc_get (fun hfile => hfile) fun hc => hc
    exact (halloc.trans (setPath_extends _ _ _ _)).put rfl hc rfl (fun _ hid => hid)
      fun hne => absurd hstage hne
  | schemaAdded => exact addStagedEntry_extends hc _ _
  | identified hstage =>
    refine (Extends.refl s).put rfl hc rfl ?_ fun _ => ⟨rfl, by simp⟩
    intro i hid
    rw [(h.owns hc).undrawn (by rw [hstage]; rfl)] at hid
    cases hid
  | fileCreated =>
    have halloc : s.Extends (s.allocFile k) :=
      extends_of_keeps (fun hdir => hdir) alloc_get fun hc => hc
    exact (halloc.trans (setDescriptor_extends _ _ _)).put rfl hc rfl (fun _ hid => hid)
      fun _ => ⟨rfl, by simp⟩
  | fileInitialized hstage hfile =>
    refine (modifyFile_extends ?_).restage rfl hc (by simp)
    intro f hf
    refine ⟨rfl, ?_⟩
    -- An initialized file already has the identifier of its creation.
    intro identifier hid
    obtain ⟨f', hf', hcreation⟩ := (h.owns hc).file hfile
    obtain rfl := Option.some.inj (hf.symm.trans hf')
    obtain ⟨c', hc', hid'⟩ := h.files hf hid
    rw [hcreation, hc] at hc'
    cases hc'
    exact hid'
  | fileSealed =>
    refine (modifyFile_extends ?_).restage rfl hc (by simp)
    exact fun _ => ⟨rfl, fun _ hid => hid⟩
  | queueLinked => exact addStagedEntry_extends hc _ _
  | published => exact publish_extends hc
  | disposed => exact (Extends.refl s).restage rfl hc (by simp)
  | directoryOpened => exact (Extends.refl s).restage rfl hc (by simp)
  | entryUnlinked => exact modifyEntries_extends s _ _
  | directoryRemoved => exact (setPath_extends s _ _ _).restage rfl hc (by simp)
  | fileClosed =>
    exact (setDescriptor_extends s _ _).put rfl hc rfl (fun _ hid => hid) fun hne => ⟨rfl, hne⟩

theorem step_extends {action : PublisherProcessAction} (h : s.Inv)
    (hstep : s.step action = some s') : s.Extends s' := by
  cases action with
  | create streamName =>
    cases hstep
    exact extends_of_keeps (fun hdir => hdir) (fun hfile => hfile) alloc_get
  | creation k step =>
    obtain ⟨c, hc, hact⟩ := Option.bind_eq_some_iff.mp hstep
    exact act_extends h hc (act_cases hact)
  | openFile fd descriptor =>
    obtain ⟨-, hs'⟩ := Option.ite_none_right_eq_some.mp hstep
    cases hs'
    exact setDescriptor_extends s _ _
  | closeFile fd =>
    obtain ⟨-, hs'⟩ := Option.ite_none_right_eq_some.mp hstep
    cases hs'
    exact setDescriptor_extends s _ _

end World

end Extension

/-- From the moment a directory is published until its queue is disposed of, the path leads to that
directory, with its schema and its queue link, whatever other queues are removed or published. -/
theorem published_directory_stays (before after : List PublisherProcessAction) (s₀ s₁ s₂ : World)
    (k : ℕ) (c₁ c₂ : Creation) (h₀ : run World.step World.new before = some s₀)
    (h₁ : s₀.step (.creation k .publish) = some s₁) (hc₁ : s₁.creations[k]? = some c₁)
    (hpublished : c₁.stage = .live) (h₂ : run World.step s₁ after = some s₂)
    (hc₂ : s₂.creations[k]? = some c₂) (hlive : c₂.stage = .live) :
    ∃ d dir identifier file,
      s₀.path .staging c₁.streamName = some d ∧ s₂.path .published c₁.streamName = some d ∧
      s₂.directories[d]? = some dir ∧ dir.creation = k ∧ .schema k ∈ dir.entries ∧
      c₁.queueIdentifier = some identifier ∧ c₂.queueFile = some file ∧
      .queue identifier file.1 ∈ dir.entries := by
  have hinv₀ : s₀.Inv := run_invariant World.Inv World.step_inv h₀ World.new_inv
  have hinv₁ : s₁.Inv := World.step_inv h₁ hinv₀
  obtain ⟨hinv₂, hext⟩ : s₂.Inv ∧ s₁.Extends s₂ :=
    run_invariant (fun s => s.Inv ∧ s₁.Extends s)
      (fun hstep hs => ⟨World.step_inv hstep hs.1, hs.2.trans (World.step_extends hs.1 hstep)⟩) h₂
      ⟨hinv₁, .refl s₁⟩
  -- The directory that was renamed is the one the creation has staged.
  obtain ⟨c₀, hc₀, hact⟩ := Option.bind_eq_some_iff.mp h₁
  obtain ⟨hstage, hs₁⟩ := Option.ite_none_right_eq_some.mp hact
  obtain ⟨d, hd, hpath⟩ := (hinv₀.owns hc₀).staging (by rw [hstage]; rfl)
  obtain ⟨c₁', hc₁', hname₁, -, hdir₁⟩ := (World.step_extends hinv₀ h₁).creations hc₀
  obtain rfl := Option.some.inj (hc₁.symm.trans hc₁')
  obtain ⟨c₂', hc₂', hname₂, hid₂, hdir₂⟩ := hext.creations hc₁
  obtain rfl := Option.some.inj (hc₂.symm.trans hc₂')
  have hd₂ : c₂.directory = some d := by
    rw [(hdir₂ (by rw [hpublished]; simp)).1, (hdir₁ (by rw [hstage]; simp)).1, hd]
  have hown₁ := hinv₁.owns hc₁
  have hown₂ := hinv₂.owns hc₂
  obtain ⟨dir, hdir, hcreation⟩ := hown₂.directory hd₂
  obtain ⟨d', hd', hpath₂⟩ := hown₂.published (by rw [hlive]; rfl)
  obtain rfl := Option.some.inj (hd₂.symm.trans hd')
  obtain ⟨identifier, file, hid, hfile, hlink⟩ := hown₂.link hd₂ hdir (by rw [hlive]; rfl)
  obtain ⟨dir₁, hdir₁', -⟩ := hown₁.directory (by rw [(hdir₁ (by rw [hstage]; simp)).1, hd])
  obtain ⟨identifier₁, -, hid₁, -, -⟩ := hown₁.link
    (by rw [(hdir₁ (by rw [hstage]; simp)).1, hd]) hdir₁' (by rw [hpublished]; rfl)
  obtain rfl := Option.some.inj ((hid₂ _ hid₁).symm.trans hid)
  exact ⟨d, dir, identifier₁, file, by rw [hname₁, hpath], by rw [← hname₂, hpath₂], hdir,
    hcreation, hown₂.schema hd₂ hdir (by rw [hlive]; rfl), hid₁, hfile, hlink⟩

/-- The steps up to the link. -/
def stagingSteps (identifier : UInt64) (fd : ℕ) : List CreationStep :=
  [.createStagingDirectory, .writeSchema, .drawIdentifier identifier, .createMemfd fd,
    .initializeQueue, .sealQueue, .linkQueue]

/-- A queue is being removed, its directory is already empty, and another of its name is staged. -/
def overlappingActions : List PublisherProcessAction :=
  .create networkGossip :: (stagingSteps 7 3).map (.creation 0) ++
    [.creation 0 .publish, .creation 0 .dispose, .create networkGossip] ++
    (stagingSteps 8 4).map (.creation 1) ++
    [.creation 0 .openDirectory, .creation 0 (.unlinkEntry (.schema 0)),
      .creation 0 (.unlinkEntry (.queue 7 3))]

/-- The older removal finds the newer directory at its path and leaves it alone. -/
theorem overlapping_directory_stays : ∃ s₀ s₁ s₂,
    run World.step World.new overlappingActions = some s₀ ∧
      s₀.step (.creation 1 .publish) = some s₁ ∧
      run World.step s₁ [.creation 0 .removeDirectory] = some s₂ ∧
      s₂.path .published networkGossip = s₀.path .staging networkGossip ∧
      ∃ d, s₂.path .published networkGossip = some d := by
  obtain ⟨s₀, h₀⟩ : ∃ s, run World.step World.new overlappingActions = some s := ⟨_, rfl⟩
  obtain ⟨s₁, h₁⟩ : ∃ s, s₀.step (.creation 1 .publish) = some s := by
    cases h₀
    exact ⟨_, rfl⟩
  obtain ⟨s₂, h₂⟩ : ∃ s, run World.step s₁ [.creation 0 .removeDirectory] = some s := by
    cases h₀
    cases h₁
    exact ⟨_, rfl⟩
  obtain ⟨c₁, hc₁, hlive₁, hname⟩ : ∃ c, s₁.creations[1]? = some c ∧ c.stage = .live ∧
      c.streamName = networkGossip := by
    cases h₀
    cases h₁
    exact ⟨_, rfl, rfl, rfl⟩
  obtain ⟨c₂, hc₂, hlive₂⟩ : ∃ c, s₂.creations[1]? = some c ∧ c.stage = .live := by
    cases h₀
    cases h₁
    cases h₂
    exact ⟨_, rfl, rfl⟩
  obtain ⟨d, -, -, -, hstaged, hpath, -⟩ := published_directory_stays overlappingActions
    [.creation 0 .removeDirectory] s₀ s₁ s₂ 1 c₁ c₂ h₀ h₁ hc₁ hlive₁ h₂ hc₂ hlive₂
  rw [hname] at hstaged hpath
  exact ⟨s₀, s₁, s₂, h₀, h₁, h₂, hpath.trans hstaged.symm, d, hpath⟩

end AgaveSdk.EventSystem
