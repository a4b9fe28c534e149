import AgaveSdk.EventSystem.StreamDirectories

/-! Every directory belongs to one creation, and a creation only ever changes its own. -/
namespace AgaveSdk.EventSystem
open Runs Memory

def Stage.holdsStaging : Stage → Bool
  | .building _ => true
  | .removing .staging _ => true
  | _ => false

/-- Published, until the removal has opened the directory. -/
def Stage.holdsPublished : Stage → Bool
  | .live => true
  | .removing .published none => true
  | _ => false

def Stage.hasSchema : Stage → Bool
  | .building progress => progress ≠ .staged
  | stage => stage.holdsPublished

def Stage.hasLink : Stage → Bool
  | .building progress => progress = .linked
  | stage => stage.holdsPublished

/-- The identifier has not been drawn. -/
def Stage.undrawn : Stage → Bool
  | .begun => true
  | .building progress => progress = .staged ∨ progress = .schemaWritten
  | _ => false

/-- The new stage claims no more than the old one. -/
structure Stage.Within (new old : Stage) : Prop where
  undrawn : new.undrawn = true → old.undrawn = true
  staging : new.holdsStaging = true → old.holdsStaging = true
  published : new.holdsPublished = true → old.holdsPublished = true
  schema : new.hasSchema = true → old.hasSchema = true
  link : new.hasLink = true → old.hasLink = true

theorem Stage.gone_within (old : Stage) : Stage.gone.Within old :=
  ⟨nofun, nofun, nofun, nofun, nofun⟩

/-- The creation drew the identifier. -/
def World.Drew (s : World) (k : ℕ) (identifier : UInt64) : Prop :=
  ∃ c, s.creations[k]? = some c ∧ c.queueIdentifier = some identifier

def World.WrittenBy (s : World) (k : ℕ) : Entry → Prop
  | .schema writer => writer = k
  | .queue identifier _ => s.Drew k identifier

/-- What a creation owns, by its stage. -/
structure Creation.Owns (s : World) (k : ℕ) (c : Creation) : Prop where
  directory : ∀ {d}, c.directory = some d → ∃ dir, s.directories[d]? = some dir ∧ dir.creation = k
  file : ∀ {file}, c.queueFile = some file → ∃ f, s.files[file.2]? = some f ∧ f.creation = k
  undrawn : c.stage.undrawn = true → c.queueIdentifier = none
  staging : c.stage.holdsStaging = true →
    ∃ d, c.directory = some d ∧ s.path .staging c.streamName = some d
  published : c.stage.holdsPublished = true →
    ∃ d, c.directory = some d ∧ s.path .published c.streamName = some d
  handle : ∀ {place d}, c.stage = .removing place (some d) → c.directory = some d
  schema : ∀ {d dir}, c.directory = some d → s.directories[d]? = some dir →
    c.stage.hasSchema = true → .schema k ∈ dir.entries
  link : ∀ {d dir}, c.directory = some d → s.directories[d]? = some dir →
    c.stage.hasLink = true → ∃ identifier file, c.queueIdentifier = some identifier ∧
      c.queueFile = some file ∧ .queue identifier file.1 ∈ dir.entries

structure World.Inv (s : World) : Prop where
  owns : ∀ {k : ℕ} {c : Creation}, s.creations[k]? = some c → c.Owns s k
  entries : ∀ {d : ℕ} {dir : Directory}, s.directories[d]? = some dir → ∀ e ∈ dir.entries,
    s.WrittenBy dir.creation e
  files : ∀ {f : ℕ} {file : QueueFile} {identifier : UInt64}, s.files[f]? = some file →
    file.identifier = some identifier → s.Drew file.creation identifier
  distinct : ∀ {k k' : ℕ} {identifier : UInt64}, s.Drew k identifier → s.Drew k' identifier →
    k = k'

section Invariant

variable {s s' : World} {c c' : Creation} {j k d : ℕ}

namespace Creation.Owns

/-- What others own is not touched. -/
theorem frame (h : c.Owns s j)
    (hdirs : ∀ {d : ℕ} {dir : Directory}, s.directories[d]? = some dir → dir.creation = j →
      s'.directories[d]? = some dir)
    (hfiles : ∀ {f : ℕ} {file : QueueFile}, s.files[f]? = some file → file.creation = j →
      ∃ file', s'.files[f]? = some file' ∧ file'.creation = j)
    (hstaging : c.stage.holdsStaging = true →
      s'.path .staging c.streamName = s.path .staging c.streamName)
    (hpublished : c.stage.holdsPublished = true →
      s'.path .published c.streamName = s.path .published c.streamName) : c.Owns s' j := by
  have hsame {d : ℕ} {dir' : Directory} (hd : c.directory = some d)
      (hdir' : s'.directories[d]? = some dir') : s.directories[d]? = some dir' := by
    obtain ⟨dir, hdir, hcreation⟩ := h.directory hd
    rw [hdirs hdir hcreation] at hdir'
    rwa [hdir]
  constructor
  case directory =>
    intro d hd
    obtain ⟨dir, hdir, hcreation⟩ := h.directory hd
    exact ⟨dir, hdirs hdir hcreation, hcreation⟩
  case file =>
    intro file hfile
    obtain ⟨f, hf, hcreation⟩ := h.file hfile
    exact hfiles hf hcreation
  case undrawn => exact h.undrawn
  case staging =>
    intro hstage
    rw [hstaging hstage]
    exact h.staging hstage
  case published =>
    intro hstage
    rw [hpublished hstage]
    exact h.published hstage
  case handle => exact h.handle
  case schema =>
    intro d dir' hd hdir'
    exact h.schema hd (hsame hd hdir')
  case link =>
    intro d dir' hd hdir'
    exact h.link hd (hsame hd hdir')

/-- Only paths change, and none that the creation holds. -/
theorem frame_path (h : c.Owns s j) (hdirs : s'.directories = s.directories)
    (hfiles : s'.files = s.files)
    (hstaging : c.stage.holdsStaging = true →
      s'.path .staging c.streamName = s.path .staging c.streamName)
    (hpublished : c.stage.holdsPublished = true →
      s'.path .published c.streamName = s.path .published c.streamName) : c.Owns s' j :=
  h.frame (fun hdir _ => hdirs ▸ hdir) (fun hf hk => ⟨_, hfiles ▸ hf, hk⟩) hstaging hpublished

/-- Neither objects nor paths change. -/
theorem frame_same (h : c.Owns s j) (hdirs : s'.directories = s.directories)
    (hfiles : s'.files = s.files) (hpath : s'.path = s.path) : c.Owns s' j :=
  h.frame_path hdirs hfiles (fun _ => by rw [hpath]) fun _ => by rw [hpath]

theorem restage (h : c.Owns s k) {stage : Stage} (hwithin : stage.Within c.stage)
    (hhandle : ∀ {place d}, stage = .removing place (some d) → c.directory = some d) :
    { c with stage := stage }.Owns s k where
  directory := h.directory
  file := h.file
  undrawn hstage := h.undrawn (hwithin.undrawn hstage)
  staging hstage := h.staging (hwithin.staging hstage)
  published hstage := h.published (hwithin.published hstage)
  handle := hhandle
  schema hd hdir hstage := h.schema hd hdir (hwithin.schema hstage)
  link hd hdir hstage := h.link hd hdir (hwithin.link hstage)

theorem gone (h : c.Owns s k) : { c with stage := .gone }.Owns s k :=
  h.restage (Stage.gone_within c.stage) nofun

theorem cleanup (h : c.Owns s k) {progress : Progress} (hstage : c.stage = .building progress) :
    c.cleanup.Owns s k :=
  h.restage (hstage ▸ ⟨nofun, fun _ => rfl, nofun, nofun, nofun⟩) nofun

/-- What a creation owns while it builds. -/
theorem building {progress : Progress} (hstage : c.stage = .building progress)
    (directory : ∀ {d}, c.directory = some d →
      ∃ dir, s.directories[d]? = some dir ∧ dir.creation = k)
    (file : ∀ {file}, c.queueFile = some file → ∃ f, s.files[file.2]? = some f ∧ f.creation = k)
    (undrawn : (Stage.building progress).undrawn = true → c.queueIdentifier = none)
    (staging : ∃ d, c.directory = some d ∧ s.path .staging c.streamName = some d)
    (schema : ∀ {d dir}, c.directory = some d → s.directories[d]? = some dir →
      (Stage.building progress).hasSchema = true → .schema k ∈ dir.entries)
    (link : ∀ {d dir}, c.directory = some d → s.directories[d]? = some dir →
      (Stage.building progress).hasLink = true → ∃ identifier file,
        c.queueIdentifier = some identifier ∧ c.queueFile = some file ∧
        .queue identifier file.1 ∈ dir.entries) : c.Owns s k where
  directory := directory
  file := file
  undrawn hnew := undrawn (hstage ▸ hnew)
  staging _ := staging
  published hnew := by
    rw [hstage] at hnew
    cases hnew
  handle hnew := by
    rw [hstage] at hnew
    cases hnew
  schema hd hdir hnew := schema hd hdir (hstage ▸ hnew)
  link hd hdir hnew := link hd hdir (hstage ▸ hnew)

end Creation.Owns

namespace World

theorem drew_put (hc : s.creations[k]? = some c)
    (hidentifier : c'.queueIdentifier = c.queueIdentifier)
    (hcreations : s'.creations = s.creations.set k c') {identifier : UInt64} :
    s'.Drew j identifier ↔ s.Drew j identifier := by
  unfold Drew
  rw [hcreations]
  constructor
  · rintro ⟨x, hx, hdrew⟩
    rcases get_set hx with ⟨rfl, rfl⟩ | ⟨-, hold⟩
    · exact ⟨c, hc, hidentifier ▸ hdrew⟩
    · exact ⟨x, hold, hdrew⟩
  · rintro ⟨x, hx, hdrew⟩
    rcases eq_or_ne j k with rfl | hne
    · rw [hc] at hx
      cases hx
      exact ⟨c', set_get hc, hidentifier.trans hdrew⟩
    · exact ⟨x, by rwa [List.getElem?_set_ne hne.symm], hdrew⟩

/-- The invariant after a step of one creation: it owns what its new stage says, the others still
own what they did, and what is written belongs to who wrote it. -/
theorem Inv.of_act (h : s.Inv) (hc : s.creations[k]? = some c)
    (hcreations : s'.creations = s.creations.set k c')
    (hidentifier : c'.queueIdentifier = c.queueIdentifier) (hself : c'.Owns s' k)
    (hother : ∀ {j : ℕ} {x : Creation}, j ≠ k → x.Owns s j → x.Owns s' j)
    (hentries : ∀ {d : ℕ} {dir : Directory}, s'.directories[d]? = some dir → ∀ e ∈ dir.entries,
      s.WrittenBy dir.creation e)
    (hfiles : ∀ {f : ℕ} {file : QueueFile} {identifier : UInt64}, s'.files[f]? = some file →
      file.identifier = some identifier → s.Drew file.creation identifier) : s'.Inv := by
  have hdrew {j : ℕ} {identifier : UInt64} : s'.Drew j identifier ↔ s.Drew j identifier :=
    drew_put hc hidentifier hcreations
  constructor
  case owns =>
    intro j x hx
    rw [hcreations] at hx
    rcases get_set hx with ⟨rfl, rfl⟩ | ⟨hne, hold⟩
    · exact hself
    · exact hother hne (h.owns hold)
  case entries =>
    intro d dir hdir e he
    have hwritten := hentries hdir e he
    cases e with
    | schema writer => exact hwritten
    | queue identifier fd => exact hdrew.mpr hwritten
  case files =>
    intro f file identifier hf hid
    exact hdrew.mpr (hfiles hf hid)
  case distinct =>
    intro j j' identifier hj hj'
    exact h.distinct (hdrew.mp hj) (hdrew.mp hj')

theorem put_path (s : World) (k : ℕ) (c : Creation) : (s.put k c).path = s.path := rfl

theorem setPath_self (s : World) (place : Place) (streamName : StreamName) (d : Option ℕ) :
    (s.setPath place streamName d).path place streamName = d := if_pos ⟨rfl, rfl⟩

theorem setPath_other {place place' : Place} {streamName streamName' : StreamName} {d : Option ℕ}
    (hne : place' ≠ place ∨ streamName' ≠ streamName) :
    (s.setPath place streamName d).path place' streamName' = s.path place' streamName' := by
  refine if_neg ?_
  rintro ⟨rfl, rfl⟩
  simp at hne

/-- A step that only concerns the creation itself. -/
theorem put_inv (h : s.Inv) (hc : s.creations[k]? = some c)
    (hidentifier : c'.queueIdentifier = c.queueIdentifier) (hself : c'.Owns s k) :
    (s.put k c').Inv :=
  h.of_act hc rfl hidentifier (hself.frame_same rfl rfl rfl)
    (fun _ hx => hx.frame_same rfl rfl rfl) h.entries h.files

theorem setDescriptor_inv (h : s.Inv) (fd : ℕ) (descriptor : Option Descriptor) :
    (s.setDescriptor fd descriptor).Inv where
  owns hc := (h.owns hc).frame_same rfl rfl rfl
  entries := h.entries
  files := h.files
  distinct := h.distinct

/-- Only one creation at a time has a staging directory of a name. -/
theorem staging_unique {x : Creation} (hx : x.Owns s j) (hc : c.Owns s k)
    (hxs : x.stage.holdsStaging = true) (hcs : c.stage.holdsStaging = true)
    (hname : x.streamName = c.streamName) : j = k := by
  obtain ⟨d, hd, hpath⟩ := hx.staging hxs
  obtain ⟨d', hd', hpath'⟩ := hc.staging hcs
  rw [hname, hpath'] at hpath
  cases hpath
  obtain ⟨dir, hdir, rfl⟩ := hx.directory hd
  obtain ⟨dir', hdir', rfl⟩ := hc.directory hd'
  rw [hdir] at hdir'
  cases hdir'
  rfl

/-- At the path of a published directory, `rename` and `rmdir` do not find an empty directory. -/
theorem published_not_empty {x : Creation} (hx : x.Owns s j)
    (hstage : x.stage.holdsPublished = true) :
    ∃ d, s.path .published x.streamName = some d ∧ s.isEmptyDirectory d = false := by
  obtain ⟨d, hd, hpath⟩ := hx.published hstage
  obtain ⟨dir, hdir, -⟩ := hx.directory hd
  have hschema : x.stage.hasSchema = true := by
    cases hs : x.stage with
    | building progress =>
      rw [hs] at hstage
      cases hstage
    | begun | live | removing place handle | gone =>
      rw [hs] at hstage
      exact hstage
  have hmem := hx.schema hd hdir hschema
  refine ⟨d, hpath, ?_⟩
  rw [isEmptyDirectory, hdir, Option.any_some, List.isEmpty_eq_false_iff]
  exact List.ne_nil_of_mem hmem

/-- A directory of one creation stays as it is when that of another is modified. -/
theorem modifyEntries_other {dir : Directory} {f : List Entry → List Entry}
    (hdir : s.directories[d]? = some dir) (hcreation : dir.creation = k) {d' : ℕ}
    {dir' : Directory} (hdir' : s.directories[d']? = some dir') (hne : dir'.creation ≠ k) :
    (s.modifyEntries d f).directories[d']? = some dir' := by
  have hd : d' ≠ d := by
    rintro rfl
    rw [hdir] at hdir'
    cases hdir'
    exact hne hcreation
  rw [modifyEntries, modify_get_ne hd]
  exact hdir'

theorem createStagingDirectory_inv (h : s.Inv) (hc : s.creations[k]? = some c)
    (hstage : c.stage = .begun) (hpath : s.path .staging c.streamName = none) :
    (((s.allocDirectory k).setPath .staging c.streamName (some s.directories.length)).put k
      { c with stage := .building .staged, directory := some s.directories.length }).Inv := by
  have hown := h.owns hc
  refine h.of_act hc rfl rfl ?_ ?_ ?_ h.files
  · apply Creation.Owns.building rfl
    · intro d hd
      cases hd
      exact ⟨_, List.getElem?_concat_length, rfl⟩
    · exact hown.file
    · intro _
      exact hown.undrawn (by rw [hstage]; rfl)
    · exact ⟨_, rfl, setPath_self _ _ _ _⟩
    · nofun
    · nofun
  · intro j x hne hx
    refine hx.frame (fun hdir _ => alloc_get hdir) (fun hf hk => ⟨_, hf, hk⟩) ?_ ?_
    · intro hxs
      refine setPath_other (.inr ?_)
      intro hname
      obtain ⟨d, -, hd⟩ := hx.staging hxs
      rw [hname, hpath] at hd
      cases hd
    · intro _
      rw [put_path, setPath_other (.inl (by decide))]
      rfl
  · intro d dir hdir e he
    rcases get_alloc hdir with hold | ⟨-, rfl⟩
    · exact h.entries hold e he
    · cases he

/-- Adding an entry to the own staging directory. -/
theorem addStagedEntry_inv (h : s.Inv) (hc : s.creations[k]? = some c) {progress next : Progress}
    {entry : Entry} (hstage : c.stage = .building progress) (hwritten : s.WrittenBy k entry)
    (hundrawn : (Stage.building next).undrawn = true → (Stage.building progress).undrawn = true)
    (hschema : progress ≠ .staged ∨ entry = .schema k)
    (hlink : next = .linked → ∃ identifier file, c.queueIdentifier = some identifier ∧
      c.queueFile = some file ∧ entry = .queue identifier file.1) :
    (s.addStagedEntry k c entry next).Inv := by
  have hown := h.owns hc
  obtain ⟨d, hd, hpath⟩ := hown.staging (by rw [hstage]; rfl)
  obtain ⟨dir, hdir, hcreation⟩ := hown.directory hd
  unfold addStagedEntry
  rw [hpath]
  change World.Inv (if _ then _ else _)
  split
  · exact put_inv h hc rfl (hown.cleanup hstage)
  · have hdir' : (s.modifyEntries d (· ++ [entry])).directories[d]? =
        some { dir with entries := dir.entries ++ [entry] } := modify_get hdir
    refine h.of_act hc rfl rfl ?_ ?_ ?_ h.files
    · apply Creation.Owns.building rfl
      · intro d' hd'
        obtain rfl : d = d' := Option.some.inj (hd.symm.trans hd')
        exact ⟨_, hdir', hcreation⟩
      · exact hown.file
      · intro hnew
        exact hown.undrawn (by rw [hstage]; exact hundrawn hnew)
      · exact ⟨d, hd, hpath⟩
      · intro d' x hd' hx _
        obtain rfl : d = d' := Option.some.inj (hd.symm.trans hd')
        obtain rfl := Option.some.inj (hdir'.symm.trans hx)
        rw [List.mem_append, List.mem_singleton]
        rcases hschema with hold | hnew
        · exact .inl (hown.schema hd hdir (by rw [hstage]; simpa [Stage.hasSchema] using hold))
        · exact .inr hnew.symm
      · intro d' x hd' hx hnew
        obtain rfl : d = d' := Option.some.inj (hd.symm.trans hd')
        obtain rfl := Option.some.inj (hdir'.symm.trans hx)
        obtain ⟨identifier, file, hid, hfile, rfl⟩ := hlink (by simpa [Stage.hasLink] using hnew)
        exact ⟨identifier, file, hid, hfile, by simp⟩
    · intro j x hne hx
      exact hx.frame
        (fun hdir'' hj => modifyEntries_other (f := (· ++ [entry])) hdir hcreation hdir''
          (hj.trans_ne hne))
        (fun hf hk => ⟨_, hf, hk⟩) (fun _ => rfl) fun _ => rfl
    · intro d' x hx e he
      obtain ⟨y, hy, ⟨rfl, rfl⟩ | ⟨-, rfl⟩⟩ := get_modify hx
      · obtain rfl := Option.some.inj (hdir.symm.trans hy)
        rcases List.mem_append.mp he with he | he
        · exact h.entries hdir e he
        · rw [List.mem_singleton.mp he, hcreation]
          exact hwritten
      · exact h.entries hy e he

theorem drawIdentifier_inv (h : s.Inv) (hc : s.creations[k]? = some c) {identifier : UInt64}
    (hstage : c.stage = .building .schemaWritten)
    (hfresh : ∀ c' ∈ s.creations, c'.queueIdentifier ≠ some identifier) :
    (s.put k
      { c with stage := .building .identified, queueIdentifier := some identifier }).Inv := by
  have hown := h.owns hc
  have hnone : c.queueIdentifier = none := hown.undrawn (by rw [hstage]; rfl)
  let s' := s.put k { c with stage := .building .identified, queueIdentifier := some identifier }
  -- Identifiers drawn before stay, and the new one is the only one of its value.
  have hkeep {j : ℕ} {i : UInt64} (hdrew : s.Drew j i) : s'.Drew j i := by
    obtain ⟨x, hx, hid⟩ := hdrew
    have hne : j ≠ k := by
      rintro rfl
      rw [hc] at hx
      cases hx
      rw [hnone] at hid
      cases hid
    exact ⟨x, (List.getElem?_set_ne hne.symm).trans hx, hid⟩
  have hcases {j : ℕ} {i : UInt64} (hdrew : s'.Drew j i) :
      (j = k ∧ i = identifier) ∨ (s.Drew j i ∧ i ≠ identifier) := by
    obtain ⟨x, hx, hid⟩ := hdrew
    rcases get_set hx with ⟨rfl, rfl⟩ | ⟨-, hold⟩
    · cases hid
      exact .inl ⟨rfl, rfl⟩
    · refine .inr ⟨⟨x, hold, hid⟩, ?_⟩
      rintro rfl
      exact hfresh x (List.mem_of_getElem? hold) hid
  constructor
  case owns =>
    intro j x hx
    rcases get_set hx with ⟨rfl, rfl⟩ | ⟨-, hold⟩
    · exact .building rfl hown.directory hown.file nofun (hown.staging (by rw [hstage]; rfl))
        (fun hd hdir _ => hown.schema hd hdir (by rw [hstage]; rfl)) nofun
    · exact (h.owns hold).frame_same rfl rfl rfl
  case entries =>
    intro d dir hdir e he
    have hwritten := h.entries hdir e he
    cases e with
    | schema writer => exact hwritten
    | queue i fd => exact hkeep hwritten
  case files =>
    intro f file i hf hid
    exact hkeep (h.files hf hid)
  case distinct =>
    intro j j' i hj hj'
    rcases hcases hj with ⟨rfl, rfl⟩ | ⟨hj, hne⟩
    · rcases hcases hj' with ⟨rfl, -⟩ | ⟨-, hne⟩
      · rfl
      · exact absurd rfl hne
    · rcases hcases hj' with ⟨-, rfl⟩ | ⟨hj', -⟩
      · exact absurd rfl hne
      · exact h.distinct hj hj'

theorem createMemfd_inv (h : s.Inv) (hc : s.creations[k]? = some c) (fd : ℕ)
    (hstage : c.stage = .building .identified) :
    (((s.allocFile k).setDescriptor fd (some (.queue s.files.length))).put k
      { c with stage := .building .fileCreated, queueFile := some (fd, s.files.length) }).Inv := by
  have hown := h.owns hc
  refine h.of_act hc rfl rfl ?_ ?_ h.entries ?_
  · apply Creation.Owns.building rfl
    · exact hown.directory
    · intro file hfile
      cases hfile
      exact ⟨_, List.getElem?_concat_length, rfl⟩
    · nofun
    · exact hown.staging (by rw [hstage]; rfl)
    · intro d dir hd hdir _
      exact hown.schema hd hdir (by rw [hstage]; rfl)
    · nofun
  · intro j x hne hx
    exact hx.frame (fun hdir _ => hdir) (fun hf hk => ⟨_, alloc_get hf, hk⟩) (fun _ => rfl)
      fun _ => rfl
  · intro f file identifier hf hid
    rcases get_alloc hf with hold | ⟨-, rfl⟩
    · exact h.files hold hid
    · cases hid

/-- Work on the own queue file, which stays the file of this creation. -/
theorem modifyFile_inv (h : s.Inv) (hc : s.creations[k]? = some c) {progress next : Progress}
    {file : ℕ × ℕ} {g : QueueFile → QueueFile} (hstage : c.stage = .building progress)
    (hfile : c.queueFile = some file) (hcreation : ∀ f, (g f).creation = f.creation)
    (hidentifier : ∀ f, (g f).identifier = f.identifier ∨ (g f).identifier = c.queueIdentifier)
    (hwithin : (Stage.building next).Within (.building progress)) :
    ((s.modifyFile file.2 g).put k { c with stage := .building next }).Inv := by
  have hown := h.owns hc
  obtain ⟨own, hown_file, hown_creation⟩ := hown.file hfile
  have hkeep {i f : ℕ} {x : QueueFile} (hx : s.files[f]? = some x) (hi : x.creation = i) :
      ∃ x', (s.modifyFile file.2 g).files[f]? = some x' ∧ x'.creation = i := by
    rcases eq_or_ne f file.2 with rfl | hne
    · exact ⟨g x, modify_get hx, (hcreation x).trans hi⟩
    · refine ⟨x, ?_, hi⟩
      rw [modifyFile, modify_get_ne hne]
      exact hx
  refine h.of_act hc rfl rfl ?_ ?_ h.entries ?_
  · have hrestaged : { c with stage := .building next }.Owns s k :=
      hown.restage (hstage ▸ hwithin) nofun
    exact hrestaged.frame (fun hdir _ => hdir) hkeep (fun _ => rfl) fun _ => rfl
  · intro j x _ hx
    exact hx.frame (fun hdir _ => hdir) hkeep (fun _ => rfl) fun _ => rfl
  · intro f x identifier hx hid
    obtain ⟨y, hy, ⟨rfl, rfl⟩ | ⟨-, rfl⟩⟩ := get_modify hx
    · obtain rfl := Option.some.inj (hown_file.symm.trans hy)
      rw [hcreation, hown_creation]
      rcases hidentifier own with hsame | hnew
      · rw [hsame] at hid
        rw [← hown_creation]
        exact h.files hown_file hid
      · exact ⟨c, hc, hnew ▸ hid⟩
    · exact h.files hy hid

/-- Publishing cannot replace a published directory, which has a schema. -/
theorem publish_inv (h : s.Inv) (hc : s.creations[k]? = some c)
    (hstage : c.stage = .building .linked) : (s.publish k c).Inv := by
  have hown := h.owns hc
  have hstaging : c.stage.holdsStaging = true := by
    rw [hstage]
    rfl
  obtain ⟨d, hd, hpath⟩ := hown.staging hstaging
  unfold publish
  rw [hpath]
  change World.Inv (if _ then _ else _)
  split
  · next hempty =>
    refine h.of_act hc rfl rfl ?_ ?_ h.entries h.files
    · constructor
      case directory => exact hown.directory
      case file => exact hown.file
      case undrawn =>
        intro hnew
        cases hnew
      case staging =>
        intro hnew
        cases hnew
      case published =>
        intro _
        exact ⟨d, hd, setPath_self _ _ _ _⟩
      case handle =>
        intro place d' hnew
        cases hnew
      case schema =>
        intro d' dir hd' hdir _
        exact hown.schema hd' hdir (by rw [hstage]; rfl)
      case link =>
        intro d' dir hd' hdir _
        exact hown.link hd' hdir (by rw [hstage]; rfl)
    · intro j x hne hx
      refine hx.frame_path rfl rfl ?_ ?_
      · intro hxs
        have hname : x.streamName ≠ c.streamName := fun hname =>
          hne (staging_unique hx hown hxs hstaging hname)
        rw [put_path, setPath_other (.inr hname), setPath_other (.inr hname)]
      · intro hxs
        have hname : x.streamName ≠ c.streamName := by
          intro hname
          obtain ⟨d', hd', hfull⟩ := published_not_empty hx hxs
          rw [hname] at hd'
          rw [hd', Option.all_some, hfull] at hempty
          cases hempty
        rw [put_path, setPath_other (.inr hname), setPath_other (.inr hname)]
  · exact put_inv h hc rfl (hown.cleanup hstage)

/-- Only the own directory loses entries, and only once it is not claimed to have them. -/
theorem unlinkEntry_inv (h : s.Inv) (hc : s.creations[k]? = some c) {place : Place}
    (hstage : c.stage = .removing place (some d)) (entry : Entry) :
    (s.modifyEntries d (·.erase entry)).Inv := by
  have hown := h.owns hc
  have hd := hown.handle hstage
  obtain ⟨dir, hdir, hcreation⟩ := hown.directory hd
  have hdir' : (s.modifyEntries d (·.erase entry)).directories[d]? =
      some { dir with entries := dir.entries.erase entry } := modify_get hdir
  have hcreations : s.creations = s.creations.set k c := by
    obtain ⟨hlt, rfl⟩ := List.getElem?_eq_some_iff.mp hc
    exact (List.set_getElem_self hlt).symm
  refine h.of_act hc hcreations rfl ?_ ?_ ?_ h.files
  · constructor
    case directory =>
      intro d' hd'
      obtain rfl : d = d' := Option.some.inj (hd.symm.trans hd')
      exact ⟨_, hdir', hcreation⟩
    case file => exact hown.file
    case undrawn => exact hown.undrawn
    case staging => exact hown.staging
    case published => exact hown.published
    case handle => exact hown.handle
    case schema =>
      intro d' x _ _ hnew
      rw [hstage] at hnew
      cases place <;> cases hnew
    case link =>
      intro d' x _ _ hnew
      rw [hstage] at hnew
      cases place <;> cases hnew
  · intro j x hne hx
    exact hx.frame
      (fun hdir'' hj => modifyEntries_other (f := (·.erase entry)) hdir hcreation hdir''
        (hj.trans_ne hne))
      (fun hf hk => ⟨_, hf, hk⟩) (fun _ => rfl) fun _ => rfl
  · intro d' x hx e he
    obtain ⟨y, hy, ⟨rfl, rfl⟩ | ⟨-, rfl⟩⟩ := get_modify hx
    · exact h.entries hy e (List.mem_of_mem_erase he)
    · exact h.entries hy e he

/-- A path is only removed at an empty directory, which is no published one. -/
theorem removePath_inv (h : s.Inv) (hc : s.creations[k]? = some c) {place : Place}
    {handle : Option ℕ} (hstage : c.stage = .removing place handle)
    (hempty : (s.path place c.streamName).any s.isEmptyDirectory = true) :
    ((s.setPath place c.streamName none).put k { c with stage := .gone }).Inv := by
  have hown := h.owns hc
  refine h.of_act hc rfl rfl ?_ ?_ h.entries h.files
  · exact hown.gone.frame_path rfl rfl nofun nofun
  · intro j x hne hx
    refine hx.frame_path rfl rfl ?_ ?_
    · intro hxs
      refine setPath_other ?_
      cases place with
      | published => exact .inl (by decide)
      | staging =>
        exact .inr fun hname =>
          hne (staging_unique hx hown hxs (by rw [hstage]; rfl) hname)
    · intro hxs
      refine setPath_other ?_
      cases place with
      | staging => exact .inl (by decide)
      | published =>
        refine .inr ?_
        intro hname
        obtain ⟨d', hd', hfull⟩ := published_not_empty hx hxs
        rw [hname] at hd'
        rw [hd', Option.any_some, hfull] at hempty
        cases hempty

theorem fileClosed_inv (h : s.Inv) (hc : s.creations[k]? = some c) {file : ℕ × ℕ}
    (hlink : c.stage.hasLink = false) :
    ((s.setDescriptor file.1 none).put k { c with queueFile := none }).Inv := by
  have hown : { c with queueFile := none }.Owns s k :=
    { h.owns hc with
      file := nofun
      link := fun _ _ hnew => by
        rw [hlink] at hnew
        cases hnew }
  have hput : (s.put k { c with queueFile := none }).Inv := put_inv h hc rfl hown
  exact setDescriptor_inv hput file.1 none

/-- Every step of a creation keeps the invariant. -/
theorem act_inv (h : s.Inv) (hc : s.creations[k]? = some c) (hacts : s.Acts k c s') : s'.Inv := by
  have hown := h.owns hc
  cases hacts with
  | ended => exact put_inv h hc rfl hown.gone
  | cleanedUp hstage => exact put_inv h hc rfl (hown.cleanup hstage)
  | staged hstage hpath => exact createStagingDirectory_inv h hc hstage hpath
  | schemaAdded hstage =>
    exact addStagedEntry_inv h hc hstage rfl (fun _ => rfl) (.inr rfl) nofun
  | identified hstage hfresh => exact drawIdentifier_inv h hc hstage hfresh
  | fileCreated hstage => exact createMemfd_inv h hc _ hstage
  | fileInitialized hstage hfile =>
    exact modifyFile_inv h hc hstage hfile (fun _ => rfl) (fun _ => .inr rfl)
      ⟨nofun, fun _ => rfl, nofun, fun _ => rfl, nofun⟩
  | fileSealed hstage hfile =>
    exact modifyFile_inv h hc hstage hfile (fun _ => rfl) (fun _ => .inl rfl)
      ⟨nofun, fun _ => rfl, nofun, fun _ => rfl, nofun⟩
  | queueLinked hstage hfile hidentifier =>
    exact addStagedEntry_inv h hc hstage ⟨c, hc, hidentifier⟩ nofun (.inl (by decide))
      fun _ => ⟨_, _, hidentifier, hfile, rfl⟩
  | published hstage => exact publish_inv h hc hstage
  | disposed hstage =>
    refine put_inv h hc rfl (hown.restage ?_ nofun)
    rw [hstage]
    exact ⟨nofun, nofun, fun _ => rfl, fun _ => rfl, fun _ => rfl⟩
  | @directoryOpened place d hstage hpath =>
    -- The path still leads to the own directory when the removal opens it.
    have hd : c.directory = some d := by
      cases place with
      | staging =>
        obtain ⟨d', hd', hpath'⟩ := hown.staging (by rw [hstage]; rfl)
        rw [hd', ← hpath', hpath]
      | published =>
        obtain ⟨d', hd', hpath'⟩ := hown.published (by rw [hstage]; rfl)
        rw [hd', ← hpath', hpath]
    refine put_inv h hc rfl (hown.restage ?_ ?_)
    · rw [hstage]
      cases place with
      | staging => exact ⟨nofun, fun _ => rfl, nofun, nofun, nofun⟩
      | published => exact ⟨nofun, nofun, nofun, nofun, nofun⟩
    · intro place' d' hnew
      cases hnew
      exact hd
  | entryUnlinked entry hstage => exact unlinkEntry_inv h hc hstage entry
  | directoryRemoved hstage hempty => exact removePath_inv h hc hstage hempty
  | fileClosed hfile hstage =>
    refine fileClosed_inv h hc ?_
    rcases hstage with ⟨handle, hstage⟩ | hstage
    · rw [hstage]
      rfl
    · rw [hstage]
      rfl

theorem new_inv : new.Inv where
  owns := by simp [new]
  entries := by simp [new]
  files := by simp [new]
  distinct := by simp [new, Drew]

theorem create_inv (h : s.Inv) (streamName : StreamName) :
    ({ s with creations := s.creations ++ [⟨streamName, .begun, none, none, none⟩] } :
      World).Inv := by
  let s' : World :=
    { s with creations := s.creations ++ [⟨streamName, .begun, none, none, none⟩] }
  have hdrew {j : ℕ} {identifier : UInt64} : s'.Drew j identifier ↔ s.Drew j identifier := by
    constructor
    · rintro ⟨x, hx, hid⟩
      rcases get_alloc hx with hold | ⟨-, rfl⟩
      · exact ⟨x, hold, hid⟩
      · cases hid
    · rintro ⟨x, hx, hid⟩
      exact ⟨x, alloc_get hx, hid⟩
  constructor
  case owns =>
    intro j x hx
    rcases get_alloc hx with hold | ⟨-, rfl⟩
    · exact (h.owns hold).frame_same rfl rfl rfl
    · exact ⟨nofun, nofun, fun _ => rfl, nofun, nofun, nofun, nofun, nofun⟩
  case entries =>
    intro d dir hdir e he
    have hwritten := h.entries hdir e he
    cases e with
    | schema writer => exact hwritten
    | queue identifier fd => exact hdrew.mpr hwritten
  case files =>
    intro f file identifier hf hid
    exact hdrew.mpr (h.files hf hid)
  case distinct =>
    intro j j' identifier hj hj'
    exact h.distinct (hdrew.mp hj) (hdrew.mp hj')

theorem step_inv {action : PublisherProcessAction} (hstep : s.step action = some s') (h : s.Inv) :
    s'.Inv := by
  cases action with
  | create streamName =>
    cases hstep
    exact create_inv h streamName
  | creation k step =>
    obtain ⟨c, hc, hact⟩ := Option.bind_eq_some_iff.mp hstep
    exact act_inv h hc (act_cases hact)
  | openFile fd descriptor =>
    obtain ⟨-, hs'⟩ := Option.ite_none_right_eq_some.mp hstep
    cases hs'
    exact setDescriptor_inv h fd _
  | closeFile fd =>
    obtain ⟨-, hs'⟩ := Option.ite_none_right_eq_some.mp hstep
    cases hs'
    exact setDescriptor_inv h fd _

end World

end Invariant

end AgaveSdk.EventSystem
