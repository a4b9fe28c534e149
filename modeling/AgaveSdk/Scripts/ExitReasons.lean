import AgaveSdk.Scripts.WorkspaceOrder

/-! Which of its three ends `get_packages` reaches, and what it says about the workspace there. -/
namespace AgaveSdk.PublishOrder
open Layers

/-- A line that the checks before the loop write. -/
def DirectError (metadata : Metadata) (line : String) : Prop :=
  (∃ a b, Edge (solanaGraph metadata) a b ∧ Edge (solanaGraph metadata) b a ∧
    line = circularMessage (circularName a b)) ∨
  ∃ package ∈ metadata.packages, ∃ dependency ∈ package.dependencies,
    WrongSelfDev package dependency ∧ line = wrongSelfDevMessage dependency

/-- An end of the script, with what it says. -/
inductive Explained (metadata : Metadata) : Except Exit (List (String × String)) → Prop
  | ordered (order : List String) (perm : order.Perm metadata.names)
      (after : ∀ a b, Edge (solanaGraph metadata) a b → order.idxOf b < order.idxOf a)
      (longest : order.Pairwise (PlacedEarlier metadata))
      (acyclic : ¬ Cyclic (solanaGraph metadata))
      (right : ∀ line, ¬ DirectError metadata line) :
      Explained metadata (.ok (order.map fun a => (a, manifestOf metadata a)))
  | direct (stderr : List String) (nonempty : stderr ≠ [])
      (lines : ∀ line, line ∈ stderr ↔ DirectError metadata line) :
      Explained metadata (.error (.sysExit stderr))
  | suspected (packages : List String) (nonempty : packages ≠ [])
      (listed : packages.Sublist metadata.names)
      (mem : ∀ a, a ∈ packages ↔ ReachesCycle (solanaGraph metadata) a)
      (right : ∀ line, ¬ DirectError metadata line) :
      Explained metadata (.error (.sysExit [suspectedMessage packages]))

variable {metadata : Metadata} {manifestPath : List (String × String)} {manifest : String → String}
  {graph : List (String × List String)} {sorted : List (String × String)} {t : ℕ}

theorem directlyCircular_iff (hdistinct : (nodes graph).Nodup) {a b : String} :
    directlyCircular graph a b = true ↔ ∃ l, (b, l) ∈ graph ∧ a ∈ l := by
  unfold directlyCircular
  cases hlookup : graph.lookup b with
  | none =>
    have hnew := List.lookup_eq_none_iff.mp hlookup
    simp only [Bool.false_eq_true, false_iff]
    rintro ⟨l, hl, -⟩
    exact absurd (hnew _ hl) (by simp)
  | some back =>
    obtain ⟨before, after, hgraph, -⟩ := List.lookup_eq_some_iff.mp hlookup
    have hback : (b, back) ∈ graph := by simp [hgraph]
    rw [decide_eq_true_eq]
    constructor
    · intro ha
      exact ⟨back, hback, ha⟩
    · rintro ⟨l, hl, ha⟩
      have hsame : (b, l) = (b, back) := List.inj_on_of_nodup_map hdistinct hl hback rfl
      cases hsame
      exact ha

/-- The lines about direct circular dependencies name the pairs of packages with edges both ways. -/
theorem mem_circularDependencies (hdistinct : (nodes graph).Nodup) {name : String} :
    name ∈ circularDependencies graph ↔
      ∃ a b, Edge graph a b ∧ Edge graph b a ∧ name = circularName a b := by
  unfold circularDependencies
  rw [List.mem_dedup, List.mem_flatMap]
  constructor
  · rintro ⟨⟨a, l⟩, hitem, hname⟩
    obtain ⟨b, hb, rfl⟩ := List.mem_map.mp hname
    obtain ⟨hb, hcircular⟩ := List.mem_filter.mp hb
    obtain ⟨back, hback, ha⟩ := (directlyCircular_iff hdistinct).mp hcircular
    have hout : Edge graph a b := ⟨mem_nodes.mpr ⟨back, hback⟩, l, hitem, hb⟩
    have hin : Edge graph b a := ⟨mem_nodes.mpr ⟨l, hitem⟩, back, hback, ha⟩
    exact ⟨a, b, hout, hin, rfl⟩
  · rintro ⟨a, b, ⟨-, l, hitem, hb⟩, ⟨-, back, hback, ha⟩, rfl⟩
    have hcircular := (directlyCircular_iff hdistinct).mpr ⟨back, hback, ha⟩
    exact ⟨(a, l), hitem, List.mem_map_of_mem (List.mem_filter.mpr ⟨hb, hcircular⟩)⟩

/-- The lines of the first exit. -/
def directLines (metadata : Metadata) : List String :=
  (circularDependencies (solanaGraph metadata)).map circularMessage ++
    (metadata.packages.flatMap wrongSelfDevs).map wrongSelfDevMessage

theorem mem_directLines {line : String} :
    line ∈ directLines metadata ↔ DirectError metadata line := by
  unfold directLines DirectError
  rw [List.mem_append]
  apply or_congr
  · rw [List.mem_map]
    constructor
    · rintro ⟨name, hname, rfl⟩
      obtain ⟨a, b, hout, hin, rfl⟩ := (mem_circularDependencies nodup_solanaGraph).mp hname
      exact ⟨a, b, hout, hin, rfl⟩
    · rintro ⟨a, b, hout, hin, rfl⟩
      exact ⟨_, (mem_circularDependencies nodup_solanaGraph).mpr ⟨a, b, hout, hin, rfl⟩, rfl⟩
  · rw [List.mem_map]
    constructor
    · rintro ⟨dependency, hmem, rfl⟩
      obtain ⟨package, hpackage, hdependency⟩ := List.mem_flatMap.mp hmem
      obtain ⟨hdependency, hwrong⟩ := List.mem_filter.mp hdependency
      exact ⟨package, hpackage, dependency, hdependency, of_decide_eq_true hwrong, rfl⟩
    · rintro ⟨package, hpackage, dependency, hdependency, hwrong, rfl⟩
      have hfound : dependency ∈ wrongSelfDevs package :=
        List.mem_filter.mpr ⟨hdependency, decide_eq_true hwrong⟩
      exact ⟨dependency, List.mem_flatMap.mpr ⟨package, hpackage, hfound⟩, rfl⟩

/-- A loop that runs out of rounds names what they leave. -/
theorem removalLoop_left (hdistinct : (nodes graph).Nodup)
    (hmanifest : ∀ a ∈ nodes graph, manifestPath.lookup a = some (manifest a))
    (hleft : pass^[t] graph ≠ []) :
    removalLoop manifestPath t graph sorted =
      .error (.sysExit [suspectedMessage (nodes (pass^[t] graph))]) := by
  induction t generalizing graph sorted with
  | zero =>
    obtain ⟨item, items, rfl⟩ := List.exists_cons_of_ne_nil hleft
    rw [removalLoop]
    rfl
  | succ t ih =>
    have hne : graph ≠ [] := by
      rintro rfl
      exact hleft (List.eq_nil_of_map_eq_nil (List.sublist_nil.mp iterate_pass_sublist))
    rw [removalLoop_succ hne hdistinct hmanifest]
    apply ih
    · exact hdistinct.sublist nodes_pass_sublist
    · exact fun a ha => hmanifest a (nodes_pass_sublist.subset ha)
    · exact hleft

/-- With as many rounds as the script allows, the suspected packages run into a cycle. -/
theorem suspected_of_cyclic (hcyclic : Cyclic (solanaGraph metadata)) :
    ∃ packages : List String, packages ≠ [] ∧ packages.Sublist metadata.names ∧
      (∀ a, a ∈ packages ↔ ReachesCycle (solanaGraph metadata) a) ∧
      removalLoop (metadata.packages.map fun pkg => (pkg.name, pkg.manifestPath))
        ((solanaGraph metadata).length ^ 2) (solanaGraph metadata) [] =
        .error (.sysExit [suspectedMessage packages]) := by
  obtain ⟨a, ha⟩ := hcyclic
  have hle : (solanaGraph metadata).length ≤ (solanaGraph metadata).length ^ 2 :=
    Nat.le_self_pow (by omega) _
  have hmem (a : String) := mem_iterate_pass_of_le (a := a) hle
  have hnode := (hmem a).mpr ⟨a, .refl, ha⟩
  refine ⟨_, List.ne_nil_of_mem hnode, nodes_solanaGraph ▸ iterate_pass_sublist, hmem, ?_⟩
  apply removalLoop_left nodup_solanaGraph lookup_manifestOf
  intro hnil
  rw [hnil] at hnode
  exact absurd hnode (by simp [nodes])

theorem getPackages_eq (metadata : Metadata) : getPackages metadata =
    if directLines metadata ≠ [] then .error (.sysExit (directLines metadata))
    else removalLoop (metadata.packages.map fun pkg => (pkg.name, pkg.manifestPath))
      ((solanaGraph metadata).length ^ 2) (solanaGraph metadata) [] := by
  have hlines : directLines metadata ≠ [] ↔ circularDependencies (solanaGraph metadata) ≠ [] ∨
      metadata.packages.flatMap wrongSelfDevs ≠ [] := by
    unfold directLines
    rw [Ne, List.append_eq_nil_iff, List.map_eq_nil_iff, List.map_eq_nil_iff, not_and_or]
  rw [getPackages, readMetadata_eq]
  exact if_congr hlines.symm rfl rfl

/-- For every workspace: no missing key, an order whenever there is one, and messages that name
exactly the packages at fault. -/
theorem getPackages_explained (metadata : Metadata) :
    Explained metadata (getPackages metadata) := by
  by_cases hlines : directLines metadata = []
  · have hright (line : String) : ¬ DirectError metadata line := by
      rw [← mem_directLines, hlines]
      exact List.not_mem_nil
    by_cases hcyclic : Cyclic (solanaGraph metadata)
    · obtain ⟨packages, hne, hlisted, hmem, hloop⟩ := suspected_of_cyclic hcyclic
      rw [getPackages_eq, if_neg (not_not_intro hlines), hloop]
      exact .suspected packages hne hlisted hmem hright
    · have haccepted : ¬ Rejected metadata := by
        rintro (⟨package, hpackage, dependency, hdependency, hwrong⟩ | hcycle)
        · exact hright _ (.inr ⟨package, hpackage, dependency, hdependency, hwrong, rfl⟩)
        · exact hcyclic hcycle
      obtain ⟨order, hperm, hsorted, hresult⟩ := getPackages_of_not_rejected haccepted
      rw [hresult]
      refine .ordered order hperm (fun a b hedge => ?_) hsorted hcyclic hright
      have hmem {a : String} (ha : a ∈ nodes (solanaGraph metadata)) : a ∈ order := by
        rw [nodes_solanaGraph] at ha
        exact hperm.symm.subset ha
      exact (idxOf_lt_iff hsorted placedEarlier_asymm (hmem hedge.1) (hmem hedge.left_mem)).mpr
        (hedge.before hcyclic)
  · rw [getPackages_eq, if_pos hlines]
    exact .direct _ hlines fun _ => mem_directLines

end AgaveSdk.PublishOrder
