import AgaveSdk.EventSystem.PublishedSystem
import Mathlib.Logic.Relation

/-! The directory of an event system. Any number of systems are created on one path and dropped
again, in one process or in several, and their system calls interleave. The removal of a single
stream's directory, whose failure the code ignores, is taken to succeed; the removal of the two
directories of a system may fail. -/
namespace AgaveSdk.EventSystem
open Memory Relation Runs

/-- How far a system has come. A system that lives has handles and streams, and each of them keeps
its directories. -/
inductive Life where
  | begun
  | located
  | staged
  | cleaning
  | live (handles : ℕ) (memory : List PublishedStream) (manager : StreamPolicyManager)
  | removingStaging
  | removingStreams
  | ended

/-- What is found under the path. The system that created a directory is a ghost, and so is whether
some directory could not be removed. -/
structure Site where
  present : Bool
  owner : Place → Option ℕ
  contents : FileSystem
  leftover : Bool
  systems : List Life

/-- The stream directories of one of the two directories are gone, except for some. -/
def FileSystem.restrict (fs : FileSystem) (place : Place) (keep : StreamName → Bool) :
    FileSystem where
  directory p n := if p = place ∧ keep n = false then none else fs.directory p n

namespace Site

def new (present : Bool) : Site := ⟨present, fun _ => none, ⟨fun _ _ => none⟩, false, []⟩

def put (s : Site) (k : ℕ) (life : Life) : Site := { s with systems := s.systems.set k life }

/-- Creates an empty directory. -/
def create (s : Site) (place : Place) (k : ℕ) : Site :=
  { s with
    owner := fun p => if p = place then some k else s.owner p
    contents := s.contents.restrict place fun _ => false }

def remove (s : Site) (place : Place) : Site :=
  { s with
    owner := fun p => if p = place then none else s.owner p
    contents := s.contents.restrict place fun _ => false }

/-- A removal that fails on the way. -/
def removePart (s : Site) (place : Place) (keep : StreamName → Bool) : Site :=
  { s with contents := s.contents.restrict place keep, leftover := true }

end Site

/-- The calls that need a handle of the system, not only one of a stream. -/
def PublishedAction.NeedsSystem : PublishedAction → Prop
  | .handle _ _ => False
  | _ => True

/-- One system call of a system on its own behalf, or a call of one that lives. -/
inductive Site.Step (accepts : ℕ → ℕ → Bool) : ℕ → Site → Site → Prop
  | begin (s : Site) : Step accepts s.systems.length s { s with systems := s.systems ++ [.begun] }
  -- `EventSystemDirectory::create`
  | locate {s : Site} {k : ℕ} (hk : s.systems[k]? = some .begun) :
      Step accepts k s ({ s with present := true }.put k .located)
  | failEarly {s : Site} {k : ℕ} (hk : s.systems[k]? = some .begun) :
      Step accepts k s (s.put k .ended)
  | createStaging {s : Site} {k : ℕ} (hk : s.systems[k]? = some .located)
      (hpresent : s.present = true) (habsent : s.owner .staging = none) :
      Step accepts k s ((s.create .staging k).put k .staged)
  | refuseStaging {s : Site} {k : ℕ} (hk : s.systems[k]? = some .located) :
      Step accepts k s (s.put k .ended)
  | createStreams {s : Site} {k : ℕ} (hk : s.systems[k]? = some .staged)
      (hpresent : s.present = true) (habsent : s.owner .published = none) :
      Step accepts k s ((s.create .published k).put k (.live 1 [] SystemState.new.manager))
  | refuseStreams {s : Site} {k : ℕ} (hk : s.systems[k]? = some .staged) :
      Step accepts k s (s.put k .cleaning)
  -- `remove_dir` refuses a directory with entries
  | cleanUp {s : Site} {k : ℕ} (hk : s.systems[k]? = some .cleaning)
      (hempty : ∀ streamName, s.contents.directory .staging streamName = none) :
      Step accepts k s ((s.remove .staging).put k .ended)
  | failCleanUp {s : Site} {k : ℕ} (hk : s.systems[k]? = some .cleaning) :
      Step accepts k s ({ s with leftover := true }.put k .ended)
  -- the handles of the system
  | clone {s : Site} {k handles : ℕ} {memory : List PublishedStream}
      {manager : StreamPolicyManager} (hk : s.systems[k]? = some (.live handles memory manager))
      (hpos : 0 < handles) : Step accepts k s (s.put k (.live (handles + 1) memory manager))
  | dropHandle {s : Site} {k handles : ℕ} {memory : List PublishedStream}
      {manager : StreamPolicyManager} (hk : s.systems[k]? = some (.live handles memory manager))
      (hpos : 0 < handles) : Step accepts k s (s.put k (.live (handles - 1) memory manager))
  -- `remove_dir_all` succeeds where a call gives up a stream's own directory
  | call {s : Site} {k handles : ℕ} {memory : List PublishedStream}
      {manager : StreamPolicyManager} {action : PublishedAction} {t : PublishedSystem}
      (hk : s.systems[k]? = some (.live handles memory manager))
      (hhandle : action.NeedsSystem → 0 < handles)
      (hstep : PublishedSystem.step accepts ⟨memory, manager, s.contents⟩ action = some t) :
      Step accepts k s ({ s with contents := t.fileSystem }.put k
        (.live handles t.memory t.manager))
  -- the drop of the directories, with the last handle and the last stream
  | drop {s : Site} {k : ℕ} {memory : List PublishedStream} {manager : StreamPolicyManager}
      (hk : s.systems[k]? = some (.live 0 memory manager))
      (hdead : ∀ c ∈ memory, c.shared.strongCount = 0) :
      Step accepts k s (s.put k .removingStaging)
  | removeStaging {s : Site} {k : ℕ} (hk : s.systems[k]? = some .removingStaging) :
      Step accepts k s ((s.remove .staging).put k .removingStreams)
  | failStaging {s : Site} {k : ℕ} (hk : s.systems[k]? = some .removingStaging)
      (keep : StreamName → Bool) :
      Step accepts k s ((s.removePart .staging keep).put k .removingStreams)
  | removeStreams {s : Site} {k : ℕ} (hk : s.systems[k]? = some .removingStreams) :
      Step accepts k s ((s.remove .published).put k .ended)
  | failStreams {s : Site} {k : ℕ} (hk : s.systems[k]? = some .removingStreams)
      (keep : StreamName → Bool) :
      Step accepts k s ((s.removePart .published keep).put k .ended)

/-- Any interleaving of the calls. -/
def Site.Steps (accepts : ℕ → ℕ → Bool) : Site → Site → Prop :=
  ReflTransGen fun s s' => ∃ k, Site.Step accepts k s s'

/-- The stages in which a system relies on a directory. -/
def Life.Holds : Place → Life → Prop
  | .staging, .staged | .staging, .cleaning | .staging, .live _ _ _
  | .staging, .removingStaging => True
  | .published, .live _ _ _ | .published, .removingStaging | .published, .removingStreams => True
  | _, _ => False

def Life.IsLive : Life → Prop
  | .live _ _ _ => True
  | _ => False

/-- Whoever relies on a directory has created it, and it is empty unless a system lives that has
its queues there. -/
structure Site.Inv (s : Site) : Prop where
  owned : ∀ {k : ℕ} {life : Life} {place : Place}, s.systems[k]? = some life → life.Holds place →
    s.owner place = some k
  held : s.leftover = false → ∀ {k : ℕ} {place : Place}, s.owner place = some k →
    ∃ life, s.systems[k]? = some life ∧ life.Holds place
  empty : ∀ {k : ℕ} {life : Life} {place : Place}, s.systems[k]? = some life →
    life.Holds place → ¬ life.IsLive → ∀ streamName, s.contents.directory place streamName = none
  live : ∀ {k handles : ℕ} {memory : List PublishedStream} {manager : StreamPolicyManager},
    s.systems[k]? = some (Life.live handles memory manager) →
      (PublishedSystem.system ⟨memory, manager, s.contents⟩).Inv
  exact : ∀ {k handles : ℕ} {memory : List PublishedStream} {manager : StreamPolicyManager},
    s.systems[k]? = some (Life.live handles memory manager) → Exact memory s.contents

namespace Site

variable {accepts : ℕ → ℕ → Bool} {s s' : Site} {k : ℕ} {life life' : Life}

theorem new_inv (present : Bool) : (Site.new present).Inv where
  owned hk := by simp [Site.new] at hk
  held _ _ _ hk := by cases hk
  empty hk := by simp [Site.new] at hk
  live hk := by simp [Site.new] at hk
  exact hk := by simp [Site.new] at hk

/-- A new system holds nothing. -/
theorem Inv.begin (hi : s.Inv) : Inv { s with systems := s.systems ++ [.begun] } where
  owned {j life place} hj hholds := by
    obtain hj | ⟨-, rfl⟩ := get_alloc hj
    · exact hi.owned hj hholds
    · cases place <;> exact hholds.elim
  held hleft j place hj := by
    obtain ⟨life, hlife, hholds⟩ := hi.held hleft hj
    exact ⟨life, alloc_get hlife, hholds⟩
  empty {j life place} hj hholds hlive := by
    obtain hj | ⟨-, rfl⟩ := get_alloc hj
    · exact hi.empty hj hholds hlive
    · cases place <;> exact hholds.elim
  live hj := by
    obtain hj | ⟨-, hlife⟩ := get_alloc hj
    · exact hi.live hj
    · cases hlife
  exact hj := by
    obtain hj | ⟨-, hlife⟩ := get_alloc hj
    · exact hi.exact hj
    · cases hlife

/-- What a step of one system keeps, if it changes only directories of its own or none. -/
structure Acts (s : Site) (k : ℕ) (life' : Life) (s' : Site) : Prop where
  systems : s'.systems = s.systems.set k life'
  others : ∀ place, s.owner place ≠ none → s.owner place ≠ some k →
    s'.owner place = s.owner place ∧
      s'.contents.directory place = s.contents.directory place
  owned : ∀ place, life'.Holds place → s'.owner place = some k
  held : s'.leftover = false → s.leftover = false ∧ ∀ place j, s'.owner place = some j →
    (j = k ∧ life'.Holds place) ∨ (j ≠ k ∧ s.owner place = some j)
  empty : ∀ place, life'.Holds place → ¬ life'.IsLive →
    ∀ streamName, s'.contents.directory place streamName = none
  live : ∀ handles memory manager, life' = .live handles memory manager →
    (PublishedSystem.system ⟨memory, manager, s'.contents⟩).Inv ∧ Exact memory s'.contents

/-- A directory that another system relies on stays as it is. -/
theorem Acts.frame (h : Acts s k life' s') (hi : s.Inv) {j : ℕ} {life : Life} {place : Place}
    (hj : s.systems[j]? = some life) (hne : j ≠ k) (hholds : life.Holds place) :
    s'.owner place = some j ∧ s'.contents.directory place = s.contents.directory place := by
  have howner := hi.owned hj hholds
  obtain ⟨hsame, hcontents⟩ := h.others place (by simp [howner]) (by simp [howner, hne])
  exact ⟨hsame.trans howner, hcontents⟩

theorem Acts.contents (h : Acts s k life' s') (hi : s.Inv) {j handles : ℕ}
    {memory : List PublishedStream} {manager : StreamPolicyManager}
    (hj : s.systems[j]? = some (.live handles memory manager)) (hne : j ≠ k) :
    s'.contents = s.contents := by
  ext place streamName
  cases place with
  | staging =>
    have hholds : (Life.live handles memory manager).Holds .staging := trivial
    rw [(h.frame hi hj hne hholds).2]
  | published =>
    have hholds : (Life.live handles memory manager).Holds .published := trivial
    rw [(h.frame hi hj hne hholds).2]

theorem Acts.inv (h : Acts s k life' s') (hi : s.Inv) (hk : s.systems[k]? = some life) :
    s'.Inv where
  owned {j l place} hj hholds := by
    rw [h.systems] at hj
    obtain ⟨rfl, rfl⟩ | ⟨hne, hj⟩ := get_set hj
    · exact h.owned place hholds
    · exact (h.frame hi hj hne hholds).1
  held hleft j place hj := by
    obtain ⟨hleft, hheld⟩ := h.held hleft
    rw [h.systems]
    obtain ⟨rfl, hholds⟩ | ⟨hne, hold⟩ := hheld place j hj
    · exact ⟨life', set_get hk, hholds⟩
    · obtain ⟨l, hl, hholds⟩ := hi.held hleft hold
      exact ⟨l, by rw [List.getElem?_set_ne hne.symm, hl], hholds⟩
  empty {j l place} hj hholds hlive := by
    rw [h.systems] at hj
    obtain ⟨rfl, rfl⟩ | ⟨hne, hj⟩ := get_set hj
    · exact h.empty place hholds hlive
    · rw [(h.frame hi hj hne hholds).2]
      exact hi.empty hj hholds hlive
  live hj := by
    rw [h.systems] at hj
    obtain ⟨rfl, hlife⟩ | ⟨hne, hj⟩ := get_set hj
    · exact (h.live _ _ _ hlife.symm).1
    · exact hi.live hj
  exact hj := by
    rw [h.systems] at hj
    obtain ⟨rfl, hlife⟩ | ⟨hne, hj⟩ := get_set hj
    · exact (h.live _ _ _ hlife.symm).2
    · rw [h.contents hi hj hne]
      exact hi.exact hj

theorem restrict_other {fs : FileSystem} {place place' : Place} {keep : StreamName → Bool}
    (hne : place' ≠ place) : (fs.restrict place keep).directory place' = fs.directory place' := by
  funext streamName
  simp [FileSystem.restrict, hne]

theorem restrict_self {fs : FileSystem} {place : Place} (streamName : StreamName) :
    (fs.restrict place fun _ => false).directory place streamName = none := by
  simp [FileSystem.restrict]

/-- A step that leaves both directories as they are. -/
theorem acts_put {present leftover : Bool} (hi : s.Inv) (hk : s.systems[k]? = some life)
    (hholds : ∀ place, life'.Holds place → life.Holds place)
    (hback : leftover = false → s.leftover = false ∧ ∀ place, life.Holds place → life'.Holds place)
    (hempty : ∀ place, life'.Holds place → ¬ life'.IsLive →
      ∀ streamName, s.contents.directory place streamName = none)
    (hlive : ∀ handles memory manager, life' = .live handles memory manager →
      (PublishedSystem.system ⟨memory, manager, s.contents⟩).Inv ∧ Exact memory s.contents) :
    Acts s k life' ({ s with present := present, leftover := leftover }.put k life') where
  systems := rfl
  others _ _ _ := ⟨rfl, rfl⟩
  owned place h := hi.owned hk (hholds place h)
  held hleft := by
    obtain ⟨hclean, hback⟩ := hback hleft
    refine ⟨hclean, fun place j hj => ?_⟩
    by_cases hjk : j = k
    · subst hjk
      obtain ⟨l, hl, hlholds⟩ := hi.held hclean hj
      rw [hk] at hl
      cases hl
      exact .inl ⟨rfl, hback place hlholds⟩
    · exact .inr ⟨hjk, hj⟩
  empty := hempty
  live := hlive

/-- A step that creates or removes one of the directories. -/
theorem acts_directory {place : Place} {owner : Place → Option ℕ} {leftover : Bool}
    {keep : StreamName → Bool} (hi : s.Inv) (hk : s.systems[k]? = some life)
    (hold : s.owner place = none ∨ s.owner place = some k)
    (hother : ∀ p, p ≠ place → owner p = s.owner p)
    (hholds : ∀ p, p ≠ place → (life'.Holds p ↔ life.Holds p))
    (howner : life'.Holds place → owner place = some k)
    (hback : leftover = false → s.leftover = false ∧
      ∀ j, owner place = some j → j = k ∧ life'.Holds place)
    (hempty : ∀ p, life'.Holds p → ¬ life'.IsLive →
      ∀ streamName, (s.contents.restrict place keep).directory p streamName = none)
    (hlive : ∀ handles memory manager, life' = .live handles memory manager →
      (PublishedSystem.system ⟨memory, manager, s.contents.restrict place keep⟩).Inv ∧
        Exact memory (s.contents.restrict place keep)) :
    Acts s k life' (Site.put { s with
      owner := owner, contents := s.contents.restrict place keep, leftover := leftover } k life')
    where
  systems := rfl
  others p hne hnk := by
    by_cases hp : p = place
    · subst hp
      rcases hold with hold | hold
      · exact absurd hold hne
      · exact absurd hold hnk
    · exact ⟨hother p hp, restrict_other hp⟩
  owned p h := by
    by_cases hp : p = place
    · subst hp
      exact howner h
    · exact (hother p hp).trans (hi.owned hk ((hholds p hp).mp h))
  held hleft := by
    obtain ⟨hclean, hback⟩ := hback hleft
    refine ⟨hclean, fun p j hj => ?_⟩
    by_cases hp : p = place
    · subst hp
      exact .inl (hback j hj)
    · replace hj : s.owner p = some j := (hother p hp).symm.trans hj
      by_cases hjk : j = k
      · subst hjk
        obtain ⟨l, hl, hlholds⟩ := hi.held hclean hj
        rw [hk] at hl
        cases hl
        exact .inl ⟨rfl, (hholds p hp).mpr hlholds⟩
      · exact .inr ⟨hjk, hj⟩
  empty := hempty
  live := hlive

/-- Without a stream that is alive, both directories are empty. -/
theorem empty_of_dead {memory : List PublishedStream} {fs : FileSystem} (h : Exact memory fs)
    (hdead : ∀ c ∈ memory, c.shared.strongCount = 0) (place : Place) (streamName : StreamName) :
    fs.directory place streamName = none := by
  cases place with
  | staging => exact h.staging streamName
  | published =>
    by_contra hne
    obtain ⟨i, c, hc, hpos, -⟩ := h.only hne
    have := hdead c (List.mem_of_getElem? hc)
    omega

theorem exact_nil {fs : FileSystem} (hempty : ∀ place streamName,
    fs.directory place streamName = none) : Exact [] fs where
  names hc := by simp at hc
  dropped hc := by simp at hc
  agrees hc := by simp at hc
  staging := hempty .staging
  published hc := by simp at hc
  only hne := absurd (hempty .published _) hne

/-- A system that holds nothing. -/
theorem acts_put_idle {present : Bool} (hi : s.Inv) (hk : s.systems[k]? = some life)
    (hlife : ∀ place, ¬ life.Holds place) (hlife' : ∀ place, ¬ life'.Holds place)
    (hdead : ¬ life'.IsLive) : Acts s k life' ({ s with present := present }.put k life') := by
  apply acts_put hi hk
  · exact fun place h => absurd h (hlife' place)
  · exact fun hleft => ⟨hleft, fun place h => absurd h (hlife place)⟩
  · exact fun place h => absurd h (hlife' place)
  · rintro handles memory manager rfl
    exact absurd trivial hdead

/-- A system that lives, with other handles. -/
theorem acts_put_live {handles handles' : ℕ} {memory : List PublishedStream}
    {manager : StreamPolicyManager} (hi : s.Inv)
    (hk : s.systems[k]? = some (.live handles memory manager)) :
    Acts s k (.live handles' memory manager) (s.put k (.live handles' memory manager)) := by
  apply acts_put hi hk
  · intro place h
    cases place <;> exact h
  · refine fun hleft => ⟨hleft, fun place h => ?_⟩
    cases place <;> exact h
  · exact fun place h hdead => absurd trivial hdead
  · rintro _ _ _ ⟨⟩
    exact ⟨hi.live hk, hi.exact hk⟩

theorem acts_call {handles : ℕ} {memory : List PublishedStream} {manager : StreamPolicyManager}
    {action : PublishedAction} {t : PublishedSystem} (hi : s.Inv)
    (hk : s.systems[k]? = some (.live handles memory manager))
    (hstep : PublishedSystem.step accepts ⟨memory, manager, s.contents⟩ action = some t) :
    Acts s k (.live handles t.memory t.manager)
      ({ s with contents := t.fileSystem }.put k (.live handles t.memory t.manager)) := by
  have howner (place : Place) : s.owner place = some k := by
    apply hi.owned hk
    cases place <;> trivial
  obtain ⟨⟨action', hsystem⟩, hexact⟩ := PublishedSystem.step_spec (hi.live hk) (hi.exact hk) hstep
  refine ⟨rfl, fun place _ hnk => absurd (howner place) hnk, fun place _ => howner place,
    fun hleft => ⟨hleft, fun place j hj => .inl ⟨?_, ?_⟩⟩,
    fun place _ hdead => absurd trivial hdead, ?_⟩
  · exact Option.some.inj (Eq.trans (Eq.symm hj) (howner place))
  · cases place <;> trivial
  · rintro _ _ _ ⟨⟩
    exact ⟨SystemState.step_inv hsystem (hi.live hk), hexact⟩

theorem acts_createStaging (hi : s.Inv) (hk : s.systems[k]? = some .located)
    (habsent : s.owner .staging = none) :
    Acts s k .staged ((s.create .staging k).put k .staged) := by
  apply acts_directory hi hk (.inl habsent) (fun p hp => if_neg hp)
  · intro place hne
    cases place
    · exact absurd rfl hne
    · exact Iff.rfl
  · exact fun _ => rfl
  · exact fun hleft => ⟨hleft, fun j hj => ⟨(Option.some.inj hj).symm, trivial⟩⟩
  · intro place hholds _
    cases place
    · exact restrict_self
    · exact hholds.elim
  · rintro _ _ _ ⟨⟩

theorem acts_createStreams (hi : s.Inv) (hk : s.systems[k]? = some .staged)
    (habsent : s.owner .published = none) :
    Acts s k (.live 1 [] SystemState.new.manager)
      ((s.create .published k).put k (.live 1 [] SystemState.new.manager)) := by
  apply acts_directory hi hk (.inl habsent) (fun p hp => if_neg hp)
  · intro place hne
    cases place
    · exact Iff.rfl
    · exact absurd rfl hne
  · exact fun _ => rfl
  · exact fun hleft => ⟨hleft, fun j hj => ⟨(Option.some.inj hj).symm, trivial⟩⟩
  · exact fun place _ hdead => absurd trivial hdead
  · rintro _ _ _ ⟨⟩
    refine ⟨SystemState.new_inv, exact_nil fun place streamName => ?_⟩
    cases place
    · rw [restrict_other (by decide)]
      exact hi.empty hk (show Life.Holds .staging .staged from trivial) id streamName
    · exact restrict_self streamName

/-- Giving up `tmp`, removed or not. -/
theorem acts_leaveStaging {owner : Place → Option ℕ} {leftover : Bool} {keep : StreamName → Bool}
    (hi : s.Inv) (hk : s.systems[k]? = some life) (hlife : life.Holds .staging)
    (hlife' : ¬ life'.Holds .staging) (hdead : ¬ life'.IsLive) (hdead₀ : ¬ life.IsLive)
    (hsame : life'.Holds .published ↔ life.Holds .published)
    (hother : ∀ p, p ≠ .staging → owner p = s.owner p)
    (hback : leftover = false → s.leftover = false ∧ owner .staging = none) :
    Acts s k life' (Site.put { s with
      owner := owner, contents := s.contents.restrict .staging keep, leftover := leftover } k
      life') := by
  apply acts_directory hi hk (.inr (hi.owned hk hlife)) hother
  · intro place hne
    cases place
    · exact absurd rfl hne
    · exact hsame
  · exact fun h => absurd h hlife'
  · intro hleft
    obtain ⟨hclean, hnone⟩ := hback hleft
    exact ⟨hclean, by simp [hnone]⟩
  · intro place hholds _ streamName
    cases place
    · exact absurd hholds hlife'
    · rw [restrict_other (by decide)]
      exact hi.empty hk (hsame.mp hholds) hdead₀ streamName
  · rintro handles memory manager rfl
    exact absurd trivial hdead

/-- Giving up `event-streams`, removed or not. -/
theorem acts_leaveStreams {owner : Place → Option ℕ} {leftover : Bool} {keep : StreamName → Bool}
    (hi : s.Inv) (hk : s.systems[k]? = some .removingStreams)
    (hother : ∀ p, p ≠ .published → owner p = s.owner p)
    (hback : leftover = false → s.leftover = false ∧ owner .published = none) :
    Acts s k .ended (Site.put { s with
      owner := owner, contents := s.contents.restrict .published keep, leftover := leftover } k
      .ended) := by
  have hown : s.owner .published = some k := hi.owned hk trivial
  apply acts_directory hi hk (.inr hown) hother
  · intro place hne
    cases place
    · exact Iff.rfl
    · exact absurd rfl hne
  · exact fun h => h.elim
  · intro hleft
    obtain ⟨hclean, hnone⟩ := hback hleft
    exact ⟨hclean, by simp [hnone]⟩
  · intro place hholds
    cases place <;> exact hholds.elim
  · rintro _ _ _ ⟨⟩

theorem step_acts (hi : s.Inv) (h : Step accepts k s s') :
    s' = { s with systems := s.systems ++ [.begun] } ∨
      ∃ life life', s.systems[k]? = some life ∧ Acts s k life' s' := by
  have hidle {life : Life} (hlife : life = .begun ∨ life = .located ∨ life = .ended)
      (place : Place) : ¬ life.Holds place := by
    rcases hlife with rfl | rfl | rfl <;> cases place <;> exact id
  cases h with
  | begin => exact .inl rfl
  | locate hk =>
    exact .inr ⟨_, _, hk, acts_put_idle hi hk (hidle (by simp)) (hidle (by simp)) id⟩
  | failEarly hk =>
    exact .inr ⟨_, _, hk, acts_put_idle hi hk (hidle (by simp)) (hidle (by simp)) id⟩
  | createStaging hk hpresent habsent => exact .inr ⟨_, _, hk, acts_createStaging hi hk habsent⟩
  | refuseStaging hk =>
    exact .inr ⟨_, _, hk, acts_put_idle hi hk (hidle (by simp)) (hidle (by simp)) id⟩
  | createStreams hk hpresent habsent => exact .inr ⟨_, _, hk, acts_createStreams hi hk habsent⟩
  | refuseStreams hk =>
    refine .inr ⟨_, _, hk, acts_put hi hk ?_ (fun hleft => ⟨hleft, ?_⟩) ?_ ?_⟩
    · intro place h
      cases place <;> exact h
    · intro place h
      cases place <;> exact h
    · intro place hholds _
      cases place
      · exact hi.empty hk (show Life.Holds .staging .staged from trivial) id
      · exact hholds.elim
    · rintro _ _ _ ⟨⟩
  | cleanUp hk hempty =>
    exact .inr ⟨_, _, hk,
      acts_leaveStaging hi hk trivial id id id Iff.rfl (fun p hp => if_neg hp)
        fun hleft => ⟨hleft, rfl⟩⟩
  | failCleanUp hk =>
    refine .inr ⟨_, .ended, hk, acts_put hi hk ?_ (by simp) ?_ ?_⟩
    · exact fun place h => absurd h (hidle (by simp) place)
    · exact fun place h => absurd h (hidle (by simp) place)
    · rintro _ _ _ ⟨⟩
  | clone hk hpos => exact .inr ⟨_, _, hk, acts_put_live hi hk⟩
  | dropHandle hk hpos => exact .inr ⟨_, _, hk, acts_put_live hi hk⟩
  | call hk hhandle hstep => exact .inr ⟨_, _, hk, acts_call hi hk hstep⟩
  | drop hk hdead =>
    refine .inr ⟨_, _, hk, acts_put hi hk ?_ (fun hleft => ⟨hleft, ?_⟩) ?_ ?_⟩
    · intro place h
      cases place <;> exact h
    · intro place h
      cases place <;> exact h
    · exact fun place _ _ => empty_of_dead (hi.exact hk) hdead place
    · rintro _ _ _ ⟨⟩
  | removeStaging hk =>
    exact .inr ⟨_, _, hk,
      acts_leaveStaging hi hk trivial id id id Iff.rfl (fun p hp => if_neg hp)
        fun hleft => ⟨hleft, rfl⟩⟩
  | failStaging hk keep =>
    exact .inr ⟨_, _, hk,
      acts_leaveStaging hi hk trivial id id id Iff.rfl (fun _ _ => rfl) (by simp)⟩
  | removeStreams hk =>
    exact .inr ⟨_, _, hk,
      acts_leaveStreams hi hk (fun p hp => if_neg hp) fun hleft => ⟨hleft, rfl⟩⟩
  | failStreams hk keep =>
    exact .inr ⟨_, _, hk, acts_leaveStreams hi hk (fun _ _ => rfl) (by simp)⟩

theorem step_inv (hi : s.Inv) (h : Step accepts k s s') : s'.Inv := by
  obtain rfl | ⟨life, life', hk, hacts⟩ := step_acts hi h
  · exact hi.begin
  · exact hacts.inv hi hk

theorem steps_inv {present : Bool} (h : Steps accepts (Site.new present) s) : s.Inv := by
  induction h with
  | refl => exact new_inv present
  | tail _ hstep ih =>
    obtain ⟨k, hstep⟩ := hstep
    exact step_inv ih hstep

/-- A step of another system changes nothing for one that lives. -/
theorem step_frame (hi : s.Inv) (h : Step accepts k s s') {j handles : ℕ}
    {memory : List PublishedStream} {manager : StreamPolicyManager}
    (hj : s.systems[j]? = some (.live handles memory manager)) (hne : j ≠ k) :
    s'.owner = s.owner ∧ s'.contents = s.contents ∧ s'.systems[j]? = s.systems[j]? := by
  have hholds (place : Place) : (Life.live handles memory manager).Holds place := by
    cases place <;> trivial
  obtain rfl | ⟨life, life', hk, hacts⟩ := step_acts hi h
  · exact ⟨rfl, rfl, by rw [hj]; exact alloc_get hj⟩
  · refine ⟨?_, hacts.contents hi hj hne, by rw [hacts.systems, List.getElem?_set_ne hne.symm]⟩
    funext place
    rw [(hacts.frame hi hj hne (hholds place)).1, hi.owned hj (hholds place)]

/-- A directory disappears only in a step of the system that created it, and it is empty then. -/
theorem step_removes (hi : s.Inv) (h : Step accepts k s s') {place : Place} {j : ℕ}
    (hold : s.owner place = some j) (hnew : s'.owner place ≠ some j) :
    j = k ∧ s'.owner place = none ∧ ∀ streamName, s.contents.directory place streamName = none := by
  have hjk : j = k := by
    by_contra hne
    obtain rfl | ⟨life, life', hk, hacts⟩ := step_acts hi h
    · exact hnew hold
    · obtain ⟨hsame, -⟩ := hacts.others place (by simp [hold]) (by simp [hold, hne])
      exact hnew (hsame.trans hold)
  refine ⟨hjk, ?_⟩
  -- only three of the steps remove a directory, and each one that the system still holds
  have hremoved {gone : Place} {life : Life} (hk : s.systems[k]? = some life)
      (hholds : life.Holds gone) (hdead : ¬ life.IsLive)
      (howner : ∀ p, s'.owner p = if p = gone then none else s.owner p) :
      s'.owner place = none ∧ ∀ streamName, s.contents.directory place streamName = none := by
    rw [howner] at hnew ⊢
    by_cases hp : place = gone
    · subst hp
      exact ⟨if_pos rfl, hi.empty hk hholds hdead⟩
    · rw [if_neg hp] at hnew
      exact absurd hold hnew
  have hcreated {made : Place} (habsent : s.owner made = none)
      (howner : ∀ p, s'.owner p = if p = made then some k else s.owner p) : False := by
    rw [howner] at hnew
    by_cases hp : place = made
    · subst hp
      rw [habsent] at hold
      cases hold
    · rw [if_neg hp] at hnew
      exact hnew hold
  cases h with
  | createStaging hk hpresent habsent => exact (hcreated habsent fun _ => rfl).elim
  | createStreams hk hpresent habsent => exact (hcreated habsent fun _ => rfl).elim
  | cleanUp hk hempty => exact hremoved hk (show Life.Holds .staging _ from trivial) id fun _ => rfl
  | removeStaging hk => exact hremoved hk (show Life.Holds .staging _ from trivial) id fun _ => rfl
  | removeStreams hk =>
    exact hremoved hk (show Life.Holds .published _ from trivial) id fun _ => rfl
  | _ => exact absurd hold hnew

/-- A further system begins and finds or creates the directory of the path. -/
theorem exists_located (accepts : ℕ → ℕ → Bool) (s : Site) :
    ∃ s', Steps accepts s s' ∧ s'.present = true ∧ s'.owner = s.owner ∧ s'.contents = s.contents ∧
      s'.leftover = s.leftover ∧ s'.systems = s.systems ++ [.located] := by
  let k := s.systems.length
  let s₁ : Site := { s with systems := s.systems ++ [.begun] }
  have h₁ : s₁.systems[k]? = some .begun := List.getElem?_concat_length
  refine ⟨{ s₁ with present := true }.put k .located, ?_, rfl, rfl, rfl, rfl, ?_⟩
  · apply ReflTransGen.head ⟨k, .begin s⟩
    exact ReflTransGen.single ⟨k, .locate h₁⟩
  · show (s.systems ++ [Life.begun]).set k _ = _
    simp [k]

/-- Where neither directory exists, a system can be created. -/
theorem exists_created (accepts : ℕ → ℕ → Bool) (habsent : ∀ place, s.owner place = none) :
    ∃ s', Steps accepts s s' ∧ s'.leftover = s.leftover ∧
      s'.systems = s.systems ++ [.live 1 [] SystemState.new.manager] ∧
      ∀ place streamName, s'.contents.directory place streamName = none := by
  obtain ⟨s₁, hsteps, hpresent, howner, -, hleft, hsystems⟩ := exists_located accepts s
  let k := s.systems.length
  let s₂ : Site := (s₁.create .staging k).put k .staged
  let s₃ : Site := (s₂.create .published k).put k (.live 1 [] SystemState.new.manager)
  have h₁ : s₁.systems[k]? = some .located := by
    rw [hsystems]
    exact List.getElem?_concat_length
  have h₂ : s₂.systems[k]? = some .staged := set_get h₁
  have hstaging : s₁.owner .staging = none := by rw [howner, habsent]
  have hpublished : s₂.owner .published = none := by
    show s₁.owner .published = none
    rw [howner, habsent]
  refine ⟨s₃, ?_, hleft, ?_, fun place streamName => ?_⟩
  · apply hsteps.trans
    apply ReflTransGen.head ⟨k, .createStaging h₁ hpresent hstaging⟩
    exact ReflTransGen.single ⟨k, .createStreams h₂ hpresent hpublished⟩
  · show (s₁.systems.set k _).set k _ = _
    simp [hsystems, k]
  · cases place
    · exact (congrFun (restrict_other (by decide)) streamName).trans (restrict_self streamName)
    · exact restrict_self streamName

/-- Any run of calls of a system that has a handle. -/
theorem steps_of_run {handles : ℕ} {memory : List PublishedStream} {manager : StreamPolicyManager}
    {actions : List PublishedAction} {t : PublishedSystem} (hpos : 0 < handles)
    (hk : s.systems[k]? = some (.live handles memory manager))
    (hrun : run (PublishedSystem.step accepts) ⟨memory, manager, s.contents⟩ actions = some t) :
    ∃ s', Steps accepts s s' ∧ s'.leftover = s.leftover ∧ s'.contents = t.fileSystem ∧
      s'.systems = s.systems.set k (.live handles t.memory t.manager) := by
  induction actions generalizing s memory manager with
  | nil =>
    cases hrun
    exact ⟨s, .refl, rfl, rfl, (set_same hk).symm⟩
  | cons action actions ih =>
    obtain ⟨u, hstep, hrun⟩ := Option.bind_eq_some_iff.mp hrun
    let s₁ : Site := { s with contents := u.fileSystem }.put k (.live handles u.memory u.manager)
    have hcall : Step accepts k s s₁ := .call hk (fun _ => hpos) hstep
    obtain ⟨s', hsteps, hleft, hcontents, hsystems⟩ := @ih s₁ _ _ (set_get hk) hrun
    refine ⟨s', .head ⟨k, hcall⟩ hsteps, hleft, hcontents, hsystems.trans ?_⟩
    exact List.set_set ..

/-- Where neither directory exists, a system can be created and make any run of calls. -/
theorem exists_run {actions : List PublishedAction} {t : PublishedSystem}
    (habsent : ∀ place, s.owner place = none)
    (hrun : run (PublishedSystem.step accepts) PublishedSystem.new actions = some t) :
    ∃ s', Steps accepts s s' ∧ s'.leftover = s.leftover ∧ s'.contents = t.fileSystem ∧
      s'.systems = s.systems ++ [.live 1 t.memory t.manager] := by
  obtain ⟨s₁, hsteps₁, hleft₁, hsystems₁, hempty⟩ := exists_created accepts habsent
  have hk : s₁.systems[s.systems.length]? = some (.live 1 [] SystemState.new.manager) := by
    rw [hsystems₁, List.getElem?_concat_length]
  have hcontents₁ : s₁.contents = ⟨fun _ _ => none⟩ := by
    ext place streamName : 3
    exact hempty place streamName
  have hrun₁ : run (PublishedSystem.step accepts) ⟨[], SystemState.new.manager, s₁.contents⟩
      actions = some t := by
    rw [hcontents₁]
    exact hrun
  obtain ⟨s', hsteps, hleft, hcontents, hsystems⟩ := steps_of_run Nat.one_pos hk hrun₁
  refine ⟨s', hsteps₁.trans hsteps, hleft.trans hleft₁, hcontents, ?_⟩
  rw [hsystems, hsystems₁]
  simp

/-- A system whose calls leave no stream and whose only handle is dropped removes `tmp` first. -/
theorem exists_removing {memory : List PublishedStream} {manager : StreamPolicyManager}
    {actions : List PublishedAction} {t : PublishedSystem}
    (hk : s.systems[k]? = some (.live 1 memory manager))
    (hrun : run (PublishedSystem.step accepts) ⟨memory, manager, s.contents⟩ actions = some t)
    (hdead : ∀ c ∈ t.memory, c.shared.strongCount = 0) :
    ∃ s', Steps accepts s s' ∧ s'.leftover = s.leftover ∧
      s'.systems = s.systems.set k .removingStreams := by
  obtain ⟨s₁, hsteps, hleft, -, hsystems⟩ := steps_of_run Nat.one_pos hk hrun
  let s₂ : Site := s₁.put k (.live 0 t.memory t.manager)
  let s₃ : Site := s₂.put k .removingStaging
  have h₁ : s₁.systems[k]? = some (.live 1 t.memory t.manager) := by
    rw [hsystems]
    exact set_get hk
  have h₂ : s₂.systems[k]? = some (.live 0 t.memory t.manager) := set_get h₁
  have h₃ : s₃.systems[k]? = some .removingStaging := set_get h₂
  refine ⟨(s₃.remove .staging).put k .removingStreams, ?_, hleft, ?_⟩
  · apply hsteps.trans
    apply ReflTransGen.head ⟨k, .dropHandle h₁ Nat.one_pos⟩
    apply ReflTransGen.head ⟨k, .drop h₂ hdead⟩
    exact ReflTransGen.single ⟨k, .removeStaging h₃⟩
  · show ((s₁.systems.set k _).set k _).set k _ = _
    simp [hsystems]

end Site

/-- A system that publishes a stream, and the same one when the holder of the stream has dropped
it. -/
theorem interrupted_runs : ∃ t t',
    run (PublishedSystem.step fun slots alive => alive < slots) PublishedSystem.new
      interruptedActions = some t ∧
    t.fileSystem.directory .published networkGossip = some [.schema [7], .queue 5 6] ∧
    run (PublishedSystem.step fun slots alive => alive < slots) t [.handle 1 .dropFactory] =
      some t' ∧ ∀ c ∈ t'.memory, c.shared.strongCount = 0 :=
  ⟨_, _, rfl, rfl, rfl, by decide⟩

/-- However the creations and drops on one path interleave, one system at most lives there, and the
directories are its own and, where the removals of single streams succeed, exactly those of its
queues. -/
theorem event_systems_exclusive {accepts : ℕ → ℕ → Bool} {present : Bool} {s : Site}
    {k handles : ℕ} {memory : List PublishedStream} {manager : StreamPolicyManager}
    (h : Site.Steps accepts (Site.new present) s)
    (hk : s.systems[k]? = some (.live handles memory manager)) :
    (∀ place, s.owner place = some k) ∧
      PublishedSystem.Publishes ⟨memory, manager, s.contents⟩ ∧
      ∀ j life, s.systems[j]? = some life → (∃ place, life.Holds place) → j = k := by
  have hi := Site.steps_inv h
  have howner (place : Place) : s.owner place = some k := by
    apply hi.owned hk
    cases place <;> trivial
  refine ⟨howner, PublishedSystem.publishes_of_exact (hi.exact hk), ?_⟩
  rintro j life hj ⟨place, hholds⟩
  exact Option.some.inj ((hi.owned hj hholds).symm.trans (howner place))

/-- A first system on a path, with one stream. -/
theorem sample_event_system_exclusive : ∃ s memory manager,
    Site.Steps (fun slots alive => alive < slots) (Site.new false) s ∧
      s.systems = [.live 1 memory manager] ∧
      s.contents.directory .published networkGossip = some [.schema [7], .queue 5 6] ∧
      (∀ place, s.owner place = some 0) ∧
      PublishedSystem.Publishes ⟨memory, manager, s.contents⟩ := by
  obtain ⟨t, -, hrun, hstream, -⟩ := interrupted_runs
  obtain ⟨s, hsteps, -, hcontents, hsystems⟩ := @Site.exists_run _ (Site.new false) _ _
    (fun _ => rfl) hrun
  have hk : s.systems[0]? = some (.live 1 t.memory t.manager) := by
    rw [hsystems]
    rfl
  obtain ⟨howner, hpublishes, -⟩ := event_systems_exclusive hsteps hk
  exact ⟨s, _, _, hsteps, hsystems, by rw [hcontents, hstream], howner, hpublishes⟩

/-- No system touches what another one that lives has under the path. A directory is removed only by
the system that created it and, where the removals of single streams succeed, only when no queue is
left in it. -/
theorem event_systems_keep_apart {accepts : ℕ → ℕ → Bool} {present : Bool} {s s' : Site} {j : ℕ}
    (h : Site.Steps accepts (Site.new present) s) (hstep : Site.Step accepts j s s') :
    (∀ k handles memory manager, s.systems[k]? = some (.live handles memory manager) → k ≠ j →
      s'.owner = s.owner ∧ s'.contents = s.contents ∧ s'.systems[k]? = s.systems[k]?) ∧
    ∀ place k, s.owner place = some k → s'.owner place ≠ some k →
      k = j ∧ s'.owner place = none ∧
        ∀ streamName, s.contents.directory place streamName = none := by
  have hi := Site.steps_inv h
  refine ⟨fun k handles memory manager hk hne => Site.step_frame hi hstep hk hne, ?_⟩
  exact fun place k hold hnew => Site.step_removes hi hstep hold hnew

/-- A second system is refused next to one that publishes a stream. Later the first one is dropped
and removes `event-streams`. -/
theorem sample_event_systems_keep_apart : ∃ s s' r r',
    Site.Steps (fun slots alive => alive < slots) (Site.new true) s ∧
      s.contents.directory .published networkGossip = some [.schema [7], .queue 5 6] ∧
      Site.Step (fun slots alive => alive < slots) 1 s s' ∧ s'.systems[1]? = some .ended ∧
      s'.owner = s.owner ∧ s'.contents = s.contents ∧
      Site.Steps (fun slots alive => alive < slots) s' r ∧ r.owner .published = some 0 ∧
      Site.Step (fun slots alive => alive < slots) 0 r r' ∧ r'.owner .published = none ∧
      ∀ streamName, r.contents.directory .published streamName = none := by
  obtain ⟨t, t', hrun, hstream, hdrop, hdead⟩ := interrupted_runs
  obtain ⟨s₀, hsteps₀, -, hcontents₀, hsystems₀⟩ := @Site.exists_run _ (Site.new true) _ _
    (fun _ => rfl) hrun
  -- the second system finds `tmp`
  obtain ⟨s, hlocated, -, -, hcontents, -, hsystems⟩ :=
    Site.exists_located (fun slots alive => alive < slots) s₀
  rw [hsystems₀] at hsystems
  rw [hcontents₀] at hcontents
  have hsteps := hsteps₀.trans hlocated
  have h₀ : s.systems[0]? = some (.live 1 t.memory t.manager) := by
    rw [hsystems]
    rfl
  have h₁ : s.systems[1]? = some .located := by
    rw [hsystems]
    rfl
  have hrefuse : Site.Step (fun slots alive => decide (alive < slots)) 1 s (s.put 1 .ended) :=
    .refuseStaging h₁
  obtain ⟨howner, hframe, hsame⟩ :=
    (event_systems_keep_apart hsteps hrefuse).1 0 _ _ _ h₀ (by decide)
  -- the first system is dropped
  have h₂ := hsame.trans h₀
  rw [← show (⟨t.memory, t.manager, (s.put 1 .ended).contents⟩ : PublishedSystem) = t by
    rw [hframe, hcontents]] at hdrop
  obtain ⟨r, hdropped, -, hsystems'⟩ := Site.exists_removing h₂ hdrop hdead
  have h₃ : r.systems[0]? = some .removingStreams := by
    rw [hsystems']
    exact Memory.set_get h₂
  have hall := (hsteps.tail ⟨_, hrefuse⟩).trans hdropped
  have hown : r.owner .published = some 0 := (Site.steps_inv hall).owned h₃ trivial
  have hremove : Site.Step (fun slots alive => decide (alive < slots)) 0 r _ := .removeStreams h₃
  obtain ⟨-, hgone, hempty⟩ :=
    (event_systems_keep_apart hall hremove).2 .published 0 hown (by simp [Site.remove, Site.put])
  exact ⟨s, _, r, _, hsteps, by rw [hcontents, hstream], hrefuse, Memory.set_get h₁, howner, hframe,
    hdropped, hown, hremove, hgone, hempty⟩

/-- Unless a removal failed, the path can be used again once nobody uses it. -/
theorem event_directory_reusable {accepts : ℕ → ℕ → Bool} {present : Bool} {s : Site}
    (h : Site.Steps accepts (Site.new present) s) (hleft : s.leftover = false)
    (hidle : ∀ life ∈ s.systems, ∀ place, ¬ life.Holds place) :
    (∀ place, s.owner place = none) ∧ ∃ s', Site.Steps accepts s s' ∧
      s'.systems = s.systems ++ [.live 1 [] SystemState.new.manager] ∧
      ∀ place streamName, s'.contents.directory place streamName = none := by
  have hi := Site.steps_inv h
  have habsent (place : Place) : s.owner place = none := by
    by_contra hne
    obtain ⟨k, hk⟩ := Option.ne_none_iff_exists'.mp hne
    obtain ⟨life, hlife, hholds⟩ := hi.held hleft hk
    exact hidle life (List.mem_of_getElem? hlife) place hholds
  obtain ⟨s', hsteps, -, hsystems, hempty⟩ := Site.exists_created accepts habsent
  exact ⟨habsent, s', hsteps, hsystems, hempty⟩

/-- A path that is used again after its first system, which had published a stream, was dropped. -/
theorem sample_event_directory_reusable : ∃ s r,
    Site.Steps (fun slots alive => alive < slots) (Site.new false) s ∧
      s.contents.directory .published networkGossip = some [.schema [7], .queue 5 6] ∧
      Site.Steps (fun slots alive => alive < slots) s r ∧
      r.systems = [.ended, .live 1 [] SystemState.new.manager] ∧
      ∀ place streamName, r.contents.directory place streamName = none := by
  obtain ⟨t, t', hrun, hstream, hdrop, hdead⟩ := interrupted_runs
  obtain ⟨s, hsteps, hleft, hcontents, hsystems⟩ := @Site.exists_run _ (Site.new false) _ _
    (fun _ => rfl) hrun
  have hk : s.systems[0]? = some (.live 1 t.memory t.manager) := by
    rw [hsystems]
    rfl
  rw [← show (⟨t.memory, t.manager, s.contents⟩ : PublishedSystem) = t by rw [hcontents]] at hdrop
  obtain ⟨s₁, hsteps₁, hleft₁, hsystems₁⟩ := Site.exists_removing hk hdrop hdead
  have h₁ : s₁.systems[0]? = some .removingStreams := by
    rw [hsystems₁]
    exact Memory.set_get hk
  let s₂ : Site := (s₁.remove .published).put 0 .ended
  have hremove : Site.Step (fun slots alive => decide (alive < slots)) 0 s₁ s₂ := .removeStreams h₁
  have hdropped := hsteps₁.tail ⟨_, hremove⟩
  have hsystems₂ : s₂.systems = [.ended] := by
    show s₁.systems.set 0 _ = _
    rw [hsystems₁, hsystems]
    rfl
  have hidle : ∀ life ∈ s₂.systems, ∀ place, ¬ life.Holds place := by
    rw [hsystems₂]
    intro life hlife place
    rw [List.mem_singleton.mp hlife]
    cases place <;> exact id
  obtain ⟨-, r, hsteps₂, hsystems₃, hempty⟩ :=
    event_directory_reusable (hsteps.trans hdropped) (hleft₁.trans hleft) hidle
  rw [hsystems₂] at hsystems₃
  exact ⟨s, r, hsteps, by rw [hcontents, hstream], hdropped.trans hsteps₂, hsystems₃, hempty⟩

end AgaveSdk.EventSystem
