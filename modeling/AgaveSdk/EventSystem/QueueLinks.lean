import AgaveSdk.EventSystem.PublishedDirectories

/-! The link of a queue leads to the file of that queue while the queue lives, whatever files the
publisher process opens and closes. -/
namespace AgaveSdk.EventSystem
open Runs Memory

def Stage.hasQueue : Stage → Bool
  | .building progress => progress = .initialized ∨ progress = .fileSealed ∨ progress = .linked
  | .live => true
  | _ => false

def Stage.hasSeals : Stage → Bool
  | .building progress => progress = .fileSealed ∨ progress = .linked
  | .live => true
  | _ => false

/-- No removal of the directory has begun. -/
def Stage.isCurrent : Stage → Bool
  | .building _ | .live => true
  | _ => false

/-- What the descriptor, the file and the directory of a creation hold, by its stage. -/
structure Creation.Serves (s : World) (c : Creation) : Prop where
  descriptor : ∀ {file}, c.queueFile = some file → s.descriptors file.1 = some (.queue file.2)
  initialized : c.stage.hasQueue = true → ∃ file f, c.queueFile = some file ∧
    s.files[file.2]? = some f ∧ f.identifier = c.queueIdentifier
  isSealed : c.stage.hasSeals = true → ∃ file f, c.queueFile = some file ∧
    s.files[file.2]? = some f ∧ f.isSealed = true
  links : ∀ {d dir identifier fd}, c.stage.isCurrent = true → c.directory = some d →
    s.directories[d]? = some dir → .queue identifier fd ∈ dir.entries →
    c.stage.hasLink = true ∧ ∀ file, c.queueFile = some file → file.1 = fd

structure World.Serving (s : World) : Prop where
  serves : ∀ {k : ℕ} {c : Creation}, s.creations[k]? = some c → c.Serves s

section Serving

variable {s s' : World} {c c' x : Creation} {j k : ℕ}

namespace Creation.Serves

/-- What others hold is not touched. -/
theorem frame (h : x.Serves s) (hown : x.Owns s j)
    (hdescriptors : ∀ {file}, x.queueFile = some file →
      s.descriptors file.1 = some (.queue file.2) → s'.descriptors file.1 = some (.queue file.2))
    (hfiles : ∀ {f : ℕ} {file : QueueFile}, s.files[f]? = some file → file.creation = j →
      s'.files[f]? = some file)
    (hdirs : ∀ {d : ℕ} {dir : Directory}, s.directories[d]? = some dir → dir.creation = j →
      s'.directories[d]? = some dir) : x.Serves s' := by
  have hfile {file : ℕ × ℕ} {f : QueueFile} (hfile : x.queueFile = some file)
      (hf : s.files[file.2]? = some f) : s'.files[file.2]? = some f := by
    obtain ⟨f', hf', hcreation⟩ := hown.file hfile
    obtain rfl := Option.some.inj (hf.symm.trans hf')
    exact hfiles hf hcreation
  constructor
  case descriptor =>
    intro file hqueue
    exact hdescriptors hqueue (h.descriptor hqueue)
  case initialized =>
    intro hstage
    obtain ⟨file, f, hqueue, hf, hid⟩ := h.initialized hstage
    exact ⟨file, f, hqueue, hfile hqueue hf, hid⟩
  case isSealed =>
    intro hstage
    obtain ⟨file, f, hqueue, hf, hsealed⟩ := h.isSealed hstage
    exact ⟨file, f, hqueue, hfile hqueue hf, hsealed⟩
  case links =>
    intro d dir' identifier fd hstage hd hdir' hlink
    obtain ⟨dir, hdir, hcreation⟩ := hown.directory hd
    obtain rfl := Option.some.inj ((hdirs hdir hcreation).symm.trans hdir')
    exact h.links hstage hd hdir hlink

/-- Neither objects nor descriptors change. -/
theorem frame_same (h : x.Serves s) (hdescriptors : s'.descriptors = s.descriptors)
    (hfiles : s'.files = s.files) (hdirs : s'.directories = s.directories) : x.Serves s' where
  descriptor hqueue := by
    rw [hdescriptors]
    exact h.descriptor hqueue
  initialized hstage := by
    rw [hfiles]
    exact h.initialized hstage
  isSealed hstage := by
    rw [hfiles]
    exact h.isSealed hstage
  links hstage hd hdir := by
    rw [hdirs] at hdir
    exact h.links hstage hd hdir

/-- A creation that is being removed only has to hold its descriptor. -/
theorem retired (hstage : c.stage.isCurrent = false)
    (descriptor : ∀ {file}, c.queueFile = some file →
      s.descriptors file.1 = some (.queue file.2)) : c.Serves s := by
  cases hs : c.stage with
  | building progress =>
    rw [hs] at hstage
    cases hstage
  | live =>
    rw [hs] at hstage
    cases hstage
  | begun | removing place handle | gone =>
    constructor
    case descriptor => exact descriptor
    case initialized =>
      rw [hs]
      nofun
    case isSealed =>
      rw [hs]
      nofun
    case links =>
      rw [hs]
      nofun

/-- Before the queue is linked, its directory has no link. -/
theorem unlinked (h : c.Serves s) {progress : Progress} (hstage : c.stage = .building progress)
    (hprogress : progress ≠ .linked) {d : ℕ} {dir : Directory} {identifier : UInt64} {fd : ℕ}
    (hd : c.directory = some d) (hdir : s.directories[d]? = some dir) :
    .queue identifier fd ∉ dir.entries := by
  intro hlink
  have hlinked := (h.links (by rw [hstage]; rfl) hd hdir hlink).1
  rw [hstage] at hlinked
  exact hprogress (by simpa [Stage.hasLink] using hlinked)

end Creation.Serves

namespace World.Serving

/-- The objects after a step of one creation, which then serves, as the others still do. -/
theorem of_act (hcreations : s'.creations = s.creations.set k c') (hself : c'.Serves s')
    (hother : ∀ {j : ℕ} {x : Creation}, j ≠ k → s.creations[j]? = some x → x.Serves s') :
    s'.Serving := by
  constructor
  intro j x hx
  rw [hcreations] at hx
  rcases get_set hx with ⟨rfl, rfl⟩ | ⟨hne, hold⟩
  · exact hself
  · exact hother hne hold

/-- A step that only concerns the creation itself. -/
theorem put (h : s.Serving) (hself : c'.Serves s) : (s.put k c').Serving :=
  of_act rfl (hself.frame_same rfl rfl rfl) fun _ hx => (h.serves hx).frame_same rfl rfl rfl

theorem retire (h : s.Serving) (hc : s.creations[k]? = some c) {stage : Stage}
    (hstage : stage.isCurrent = false) : (s.put k { c with stage := stage }).Serving :=
  h.put (.retired hstage fun hqueue => (h.serves hc).descriptor hqueue)

theorem setPath (h : s.Serving) (place : Place) (streamName : StreamName) (d : Option ℕ) :
    (s.setPath place streamName d).Serving :=
  ⟨fun hx => (h.serves hx).frame_same rfl rfl rfl⟩

theorem staged (h : s.Serving) (hinv : s.Inv) (hc : s.creations[k]? = some c) :
    (((s.allocDirectory k).setPath .staging c.streamName (some s.directories.length)).put k
      { c with stage := .building .staged, directory := some s.directories.length }).Serving := by
  apply of_act rfl
  · constructor
    case descriptor => exact (h.serves hc).descriptor
    case initialized => nofun
    case isSealed => nofun
    case links =>
      intro d dir identifier fd _ hd hdir hlink
      cases hd
      obtain rfl := Option.some.inj (List.getElem?_concat_length.symm.trans hdir)
      cases hlink
  · intro j x _ hx
    exact (h.serves hx).frame (hinv.owns hx) (fun _ hfd => hfd) (fun hf _ => hf)
      fun hdir _ => alloc_get hdir

/-- Adding an entry to the own staging directory, the link of the queue as the last one. -/
theorem addStagedEntry (h : s.Serving) (hinv : s.Inv) (hc : s.creations[k]? = some c)
    {progress next : Progress} {entry : Entry} (hstage : c.stage = .building progress)
    (hprogress : progress ≠ .linked)
    (hqueue : (Stage.building next).hasQueue = true → c.stage.hasQueue = true)
    (hseals : (Stage.building next).hasSeals = true → c.stage.hasSeals = true)
    (hentry : ∀ identifier fd, entry = .queue identifier fd → next = .linked ∧
      ∀ file, c.queueFile = some file → file.1 = fd) :
    (s.addStagedEntry k c entry next).Serving := by
  obtain ⟨d, hd, hpath⟩ := (hinv.owns hc).staging (by rw [hstage]; rfl)
  obtain ⟨dir, hdir, hcreation⟩ := (hinv.owns hc).directory hd
  have hserves := h.serves hc
  unfold World.addStagedEntry
  rw [hpath]
  change World.Serving (if _ then _ else _)
  split
  · exact h.retire hc rfl
  · apply of_act rfl
    · constructor
      case descriptor => exact hserves.descriptor
      case initialized => exact fun hnew => hserves.initialized (hqueue hnew)
      case isSealed => exact fun hnew => hserves.isSealed (hseals hnew)
      case links =>
        intro d' dir' identifier fd _ hd' hdir' hlink
        obtain rfl : d = d' := Option.some.inj (hd.symm.trans hd')
        have hadded : (s.modifyEntries d (· ++ [entry])).directories[d]? =
            some { dir with entries := dir.entries ++ [entry] } := modify_get hdir
        obtain rfl := Option.some.inj (hadded.symm.trans hdir')
        rcases List.mem_append.mp hlink with hold | hnew
        · exact absurd hold (hserves.unlinked hstage hprogress hd hdir)
        · obtain ⟨rfl, hfile⟩ := hentry identifier fd (List.mem_singleton.mp hnew).symm
          exact ⟨rfl, hfile⟩
    · intro j x hne hx
      refine (h.serves hx).frame (hinv.owns hx) (fun _ hfd => hfd) (fun hf _ => hf) ?_
      intro d' dir' hdir' hj
      exact modifyEntries_other (f := (· ++ [entry])) hdir hcreation hdir' (hj.trans_ne hne)

/-- A later stage of the same building, before the link. -/
theorem rebuild (h : s.Serving) (hc : s.creations[k]? = some c) {progress next : Progress}
    (hstage : c.stage = .building progress) (hprogress : progress ≠ .linked)
    (hqueue : (Stage.building next).hasQueue = false)
    (hseals : (Stage.building next).hasSeals = false) (identifier : Option UInt64) :
    (s.put k { c with stage := .building next, queueIdentifier := identifier }).Serving := by
  apply h.put
  constructor
  case descriptor => exact (h.serves hc).descriptor
  case initialized => exact fun hnew => absurd (hqueue.symm.trans hnew) (by simp)
  case isSealed => exact fun hnew => absurd (hseals.symm.trans hnew) (by simp)
  case links =>
    intro d dir identifier fd _ hd hdir hlink
    exact absurd hlink ((h.serves hc).unlinked hstage hprogress hd hdir)

theorem fileCreated (h : s.Serving) (hinv : s.Inv) (hc : s.creations[k]? = some c) {fd : ℕ}
    (hstage : c.stage = .building .identified) (hfd : s.descriptors fd = none) :
    (((s.allocFile k).setDescriptor fd (some (.queue s.files.length))).put k
      { c with stage := .building .fileCreated,
               queueFile := some (fd, s.files.length) }).Serving := by
  apply of_act rfl
  · constructor
    case descriptor =>
      intro file hfile
      cases hfile
      exact if_pos rfl
    case initialized => nofun
    case isSealed => nofun
    case links =>
      intro d dir identifier fd' _ hd hdir hlink
      exact absurd hlink ((h.serves hc).unlinked hstage (by decide) hd hdir)
  · intro j x _ hx
    refine (h.serves hx).frame (hinv.owns hx) ?_ (fun hf _ => alloc_get hf) fun hdir _ => hdir
    intro file _ hold
    have hne : file.1 ≠ fd := by
      rintro rfl
      rw [hfd] at hold
      cases hold
    exact (if_neg hne).trans hold

/-- A change of the own queue file. -/
theorem modifyFile (h : s.Serving) (hinv : s.Inv) (hc : s.creations[k]? = some c)
    {file : ℕ × ℕ} {f : QueueFile} {g : QueueFile → QueueFile} {progress next : Progress}
    (hstage : c.stage = .building progress) (hprogress : progress ≠ .linked)
    (hfile : c.queueFile = some file) (hf : s.files[file.2]? = some f)
    (hqueue : (Stage.building next).hasQueue = true → (g f).identifier = c.queueIdentifier)
    (hseals : (Stage.building next).hasSeals = true → (g f).isSealed = true) :
    ((s.modifyFile file.2 g).put k { c with stage := .building next }).Serving := by
  have hnew : (s.modifyFile file.2 g).files[file.2]? = some (g f) := modify_get hf
  apply of_act rfl
  · constructor
    case descriptor => exact (h.serves hc).descriptor
    case initialized => exact fun hstage => ⟨file, g f, hfile, hnew, hqueue hstage⟩
    case isSealed => exact fun hstage => ⟨file, g f, hfile, hnew, hseals hstage⟩
    case links =>
      intro d dir identifier fd _ hd hdir hlink
      exact absurd hlink ((h.serves hc).unlinked hstage hprogress hd hdir)
  · intro j x hne hx
    refine (h.serves hx).frame (hinv.owns hx) (fun _ hfd => hfd) ?_ fun hdir _ => hdir
    intro i other hi hj
    have hother : i ≠ file.2 := by
      rintro rfl
      obtain ⟨f', hf', hk⟩ := (hinv.owns hc).file hfile
      obtain rfl := Option.some.inj (hi.symm.trans hf')
      exact hne (hj.symm.trans hk)
    exact (modify_get_ne hother).trans hi

theorem publish (h : s.Serving) (hc : s.creations[k]? = some c)
    (hstage : c.stage = .building .linked) : (s.publish k c).Serving := by
  unfold World.publish
  split
  · exact h.retire hc rfl
  · split
    · apply ((h.setPath _ _ _).setPath _ _ _).put
      have hserves := h.serves hc
      constructor
      case descriptor => exact hserves.descriptor
      case initialized => exact fun _ => hserves.initialized (by rw [hstage]; rfl)
      case isSealed => exact fun _ => hserves.isSealed (by rw [hstage]; rfl)
      case links =>
        intro d dir identifier fd _ hd hdir hlink
        exact ⟨rfl, (hserves.links (by rw [hstage]; rfl) hd hdir hlink).2⟩
    · exact h.retire hc rfl

/-- Removing an entry from a directory that is being removed. -/
theorem unlinkEntry (h : s.Serving) (hinv : s.Inv) (hc : s.creations[k]? = some c) {place : Place}
    {d : ℕ} (hstage : c.stage = .removing place (some d)) (entry : Entry) :
    (s.modifyEntries d (·.erase entry)).Serving := by
  obtain ⟨dir, hdir, hcreation⟩ := (hinv.owns hc).directory ((hinv.owns hc).handle hstage)
  have hcreations : (s.modifyEntries d (·.erase entry)).creations = s.creations.set k c :=
    (set_same hc).symm
  apply of_act hcreations
  · exact .retired (by rw [hstage]; rfl) (h.serves hc).descriptor
  · intro j x hne hx
    refine (h.serves hx).frame (hinv.owns hx) (fun _ hfd => hfd) (fun hf _ => hf) ?_
    intro d' dir' hdir' hj
    exact modifyEntries_other (f := (·.erase entry)) hdir hcreation hdir' (hj.trans_ne hne)

/-- A descriptor number is closed that no other creation has. -/
theorem fileClosed (h : s.Serving) (hinv : s.Inv) (hc : s.creations[k]? = some c) {file : ℕ × ℕ}
    (hfile : c.queueFile = some file) (hstage : c.stage.isCurrent = false) :
    ((s.setDescriptor file.1 none).put k { c with queueFile := none }).Serving := by
  apply of_act rfl
  · exact .retired hstage nofun
  · intro j x hne hx
    refine (h.serves hx).frame (hinv.owns hx) ?_ (fun hf _ => hf) fun hdir _ => hdir
    intro file' hfile' hold
    have hother : file'.1 ≠ file.1 := by
      intro hsame
      have hown := (h.serves hc).descriptor hfile
      rw [← hsame, hold, Option.some.injEq, Descriptor.queue.injEq] at hown
      obtain ⟨f, hf, hj⟩ := (hinv.owns hx).file hfile'
      obtain ⟨f', hf', hk⟩ := (hinv.owns hc).file hfile
      rw [← hown, hf, Option.some.injEq] at hf'
      exact hne (hj.symm.trans (hf' ▸ hk))
    exact (if_neg hother).trans hold

end World.Serving

namespace World

theorem acts_serving (h : s.Serving) (hinv : s.Inv) (hc : s.creations[k]? = some c)
    (hacts : s.Acts k c s') : s'.Serving := by
  cases hacts with
  | ended hstage => exact h.retire hc rfl
  | cleanedUp hstage => exact h.retire hc rfl
  | staged hstage hpath => exact h.staged hinv hc
  | schemaAdded hstage =>
    apply h.addStagedEntry hinv hc hstage (by decide)
    · nofun
    · nofun
    · nofun
  | identified hstage hfresh => exact h.rebuild hc hstage (by decide) rfl rfl _
  | fileCreated hstage hfd => exact h.fileCreated hinv hc hstage hfd
  | fileInitialized hstage hfile =>
    obtain ⟨f, hf, -⟩ := (hinv.owns hc).file hfile
    apply h.modifyFile hinv hc hstage (by decide) hfile hf
    · exact fun _ => rfl
    · nofun
  | fileSealed hstage hfile =>
    obtain ⟨file, f, hqueue, hf, hid⟩ := (h.serves hc).initialized (by rw [hstage]; rfl)
    obtain rfl := Option.some.inj (hqueue.symm.trans hfile)
    apply h.modifyFile hinv hc hstage (by decide) hfile hf
    · exact fun _ => hid
    · exact fun _ => rfl
  | queueLinked hstage hfile hidentifier =>
    apply h.addStagedEntry hinv hc hstage (by decide)
    · intro _
      rw [hstage]
      rfl
    · intro _
      rw [hstage]
      rfl
    · intro identifier fd hentry
      cases hentry
      refine ⟨rfl, fun file hqueue => ?_⟩
      rw [Option.some.inj (hqueue.symm.trans hfile)]
  | published hstage => exact h.publish hc hstage
  | disposed hstage => exact h.retire hc rfl
  | directoryOpened hstage hpath => exact h.retire hc rfl
  | entryUnlinked entry hstage => exact h.unlinkEntry hinv hc hstage entry
  | directoryRemoved hstage hempty => exact (h.setPath _ _ _).retire hc rfl
  | fileClosed hfile hstage =>
    apply h.fileClosed hinv hc hfile
    rcases hstage with ⟨handle, hstage⟩ | hstage
    · rw [hstage]
      rfl
    · rw [hstage]
      rfl

theorem new_serving : new.Serving := ⟨nofun⟩

theorem step_serving {action : PublisherProcessAction} (h : s.Serving) (hinv : s.Inv)
    (hstep : s.step action = some s') : s'.Serving := by
  cases action with
  | create streamName =>
    cases hstep
    constructor
    intro k x hx
    rcases get_alloc hx with hold | ⟨-, rfl⟩
    · exact (h.serves hold).frame_same rfl rfl rfl
    · exact .retired rfl nofun
  | creation k step =>
    obtain ⟨c, hc, hact⟩ := Option.bind_eq_some_iff.mp hstep
    exact acts_serving h hinv hc (act_cases hact)
  | openFile fd descriptor =>
    obtain ⟨hfd, hs'⟩ := Option.ite_none_right_eq_some.mp hstep
    cases hs'
    constructor
    intro k x hx
    refine (h.serves hx).frame (hinv.owns hx) ?_ (fun hf _ => hf) fun hdir _ => hdir
    intro file _ hold
    have hne : file.1 ≠ fd := by
      rintro rfl
      rw [hfd] at hold
      cases hold
    exact (if_neg hne).trans hold
  | closeFile fd =>
    obtain ⟨hspared, hs'⟩ := Option.ite_none_right_eq_some.mp hstep
    cases hs'
    constructor
    intro k x hx
    refine (h.serves hx).frame (hinv.owns hx) ?_ (fun hf _ => hf) fun hdir _ => hdir
    intro file hfile hold
    have hne := hspared x (List.mem_of_getElem? hx)
    rw [hfile, Option.all_some, decide_eq_true_eq] at hne
    exact (if_neg hne).trans hold

end World

end Serving

end AgaveSdk.EventSystem
