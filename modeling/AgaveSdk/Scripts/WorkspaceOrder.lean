import AgaveSdk.Scripts.OrderCratesForPublishing

/-! When the list of `get_packages` is a topological order of the workspace. -/
namespace AgaveSdk.PublishOrder
open Layers

def Metadata.names (metadata : Metadata) : List String := metadata.packages.map Package.name

/-- A dependency on another package of the workspace that publishing keeps. -/
structure Relevant (metadata : Metadata) (package : Package) (dependency : Dependency) : Prop where
  package_mem : package ∈ metadata.packages
  dependency_mem : dependency ∈ package.dependencies
  name_mem : dependency.name ∈ metadata.names
  name_ne : dependency.name ≠ package.name
  not_stripped : ¬ Stripped package dependency

def DependsOn (metadata : Metadata) (a b : String) : Prop :=
  ∃ package dependency, Relevant metadata package dependency ∧
    package.name = a ∧ dependency.name = b

/-- Every package once, after all packages that it has a relevant dependency on. -/
structure TopologicalOrder (metadata : Metadata) (order : List (String × String)) : Prop where
  perm : order.Perm (metadata.packages.map fun pkg => (pkg.name, pkg.manifestPath))
  after : ∀ package dependency, Relevant metadata package dependency →
    (order.map Prod.fst).idxOf dependency.name < (order.map Prod.fst).idxOf package.name

/-- The list that the script returns is a topological order, and a cycle makes it exit. -/
structure OrdersWorkspace (metadata : Metadata) : Prop where
  order : ∀ order, getPackages metadata = .ok order → TopologicalOrder metadata order
  cycle : (∃ a, Relation.TransGen (DependsOn metadata) a a) →
    ∃ stderr, getPackages metadata = .error (.sysExit stderr)

variable {metadata : Metadata} {manifestPath : List (String × String)} {manifest : String → String}
  {graph items : List (String × List String)} {deleted order : List String}
  {sorted : List (String × String)} {t : ℕ}

/-- One round deletes the packages that are ready, in the order of the graph. -/
theorem removalRound_eq (hdistinct : (deleted ++ nodes items).Nodup)
    (hmanifest : ∀ a ∈ nodes items, manifestPath.lookup a = some (manifest a)) :
    removalRound manifestPath graph items deleted sorted =
      .ok (deleted ++ nodes (items.filter fun item => !blocked graph item),
        sorted ++ (nodes (items.filter fun item => !blocked graph item)).map
          fun a => (a, manifest a)) := by
  induction items generalizing deleted sorted with
  | nil => simp [removalRound, nodes]
  | cons item items ih =>
    obtain ⟨package, dependencies⟩ := item
    have hnew : package ∉ deleted := by
      intro hmem
      exact (List.nodup_append.mp hdistinct).2.2 package hmem package (by simp [nodes]) rfl
    have hrest (a : String) (ha : a ∈ nodes items) : manifestPath.lookup a = some (manifest a) :=
      hmanifest a (List.mem_cons_of_mem package ha)
    have hany : (dependencies.any fun dependency => decide (dependency ∈ nodes graph)) =
        blocked graph (package, dependencies) := rfl
    rw [removalRound, if_neg hnew, hany]
    by_cases hblocked : blocked graph (package, dependencies) = true
    · have hskip : (deleted ++ nodes items).Nodup :=
        hdistinct.sublist ((List.sublist_cons_self package (nodes items)).append_left deleted)
      rw [if_pos hblocked, ih hskip hrest, List.filter_cons_of_neg (by simp [hblocked])]
    · have hdelete : (deleted ++ [package] ++ nodes items).Nodup := by
        simpa [nodes] using hdistinct
      rw [if_neg hblocked, hmanifest package (by simp [nodes])]
      simp only
      rw [ih hdelete hrest, List.filter_cons_of_pos (by simp [hblocked])]
      simp [nodes]

/-- What stays after a round is what was blocked in it. -/
theorem filter_deleted (hdistinct : (nodes graph).Nodup) :
    (graph.filter fun item => decide (item.1 ∉ nodes (ready graph))) = pass graph := by
  refine List.filter_congr fun item hitem => ?_
  rw [decide_not, Bool.not_eq_eq_eq_not, Bool.eq_iff_iff, decide_eq_true_eq, Bool.not_eq_true']
  constructor
  · intro hready
    obtain ⟨dependencies, hmem⟩ := mem_nodes.mp hready
    obtain ⟨hmem, hfree⟩ := List.mem_filter.mp hmem
    have hsame : item = (item.1, dependencies) := List.inj_on_of_nodup_map hdistinct hitem hmem rfl
    rw [hsame]
    simpa using hfree
  · intro hfree
    exact mem_nodes.mpr ⟨item.2, List.mem_filter.mpr ⟨hitem, by simp [hfree]⟩⟩

/-- The loop goes on with the graph that a round leaves. -/
theorem removalLoop_succ (hne : graph ≠ []) (hdistinct : (nodes graph).Nodup)
    (hmanifest : ∀ a ∈ nodes graph, manifestPath.lookup a = some (manifest a)) :
    removalLoop manifestPath (t + 1) graph sorted =
      removalLoop manifestPath t (pass graph)
        (sorted ++ (nodes (ready graph)).map fun a => (a, manifest a)) := by
  have hround : removalRound manifestPath graph graph [] sorted =
      .ok (nodes (ready graph), sorted ++ (nodes (ready graph)).map fun a => (a, manifest a)) :=
    removalRound_eq (by simpa using hdistinct) hmanifest
  rw [removalLoop, hround]
  · exact congrArg (removalLoop manifestPath t · _) (filter_deleted hdistinct)
  · exact hne

theorem nodes_pass_sublist : (nodes (pass graph)).Sublist (nodes graph) :=
  List.filter_sublist.map Prod.fst

/-- The loop lists what the rounds of the graph take out. -/
theorem removalLoop_of_peel (hdistinct : (nodes graph).Nodup)
    (hmanifest : ∀ a ∈ nodes graph, manifestPath.lookup a = some (manifest a))
    (h : peel t graph = some order) :
    removalLoop manifestPath t graph sorted =
      .ok (sorted ++ order.map fun a => (a, manifest a)) := by
  induction t, graph using peel.induct generalizing sorted order with
  | case1 t => simp_all [peel, removalLoop]
  | case2 item items => simp [peel] at h
  | case3 t graph hne ih =>
    rw [peel, Option.map_eq_some_iff] at h
    · obtain ⟨rest, hrest, rfl⟩ := h
      rw [removalLoop_succ hne hdistinct hmanifest,
        ih (hdistinct.sublist nodes_pass_sublist)
          (fun a ha => hmanifest a (nodes_pass_sublist.subset ha)) hrest,
        List.map_append, List.append_assoc]
    · exact hne

/-- The loop exits when the rounds do not end in time. -/
theorem removalLoop_of_peel_none (hdistinct : (nodes graph).Nodup)
    (hmanifest : ∀ a ∈ nodes graph, manifestPath.lookup a = some (manifest a))
    (h : peel t graph = none) :
    ∃ stderr, removalLoop manifestPath t graph sorted = .error (.sysExit stderr) := by
  induction t, graph using peel.induct generalizing sorted with
  | case1 t => simp [peel] at h
  | case2 item items => exact ⟨[suspectedMessage (nodes (item :: items))], by rw [removalLoop]⟩
  | case3 t graph hne ih =>
    rw [peel, Option.map_eq_none_iff] at h
    · rw [removalLoop_succ hne hdistinct hmanifest]
      exact ih (hdistinct.sublist nodes_pass_sublist)
        (fun a ha => hmanifest a (nodes_pass_sublist.subset ha)) h
    · exact hne

/-- A direct circular dependency is a cycle. -/
theorem cyclic_of_circularDependencies (h : circularDependencies graph ≠ []) : Cyclic graph := by
  obtain ⟨message, hmessage⟩ := List.exists_mem_of_ne_nil _ h
  rw [circularDependencies, List.mem_dedup, List.mem_flatMap] at hmessage
  obtain ⟨⟨package, dependencies⟩, hitem, hmessage⟩ := hmessage
  obtain ⟨dependency, hdependency, -⟩ := List.mem_map.mp hmessage
  obtain ⟨hdependency, hcircular⟩ := List.mem_filter.mp hdependency
  cases hlookup : graph.lookup dependency with
  | none => simp [directlyCircular, hlookup] at hcircular
  | some back =>
    simp only [directlyCircular, hlookup, decide_eq_true_eq] at hcircular
    obtain ⟨before, after, hgraph, -⟩ := List.lookup_eq_some_iff.mp hlookup
    have hback : (dependency, back) ∈ graph := by simp [hgraph]
    have hout : Edge graph package dependency :=
      ⟨mem_nodes.mpr ⟨back, hback⟩, dependencies, hitem, hdependency⟩
    have hin : Edge graph dependency package :=
      ⟨mem_nodes.mpr ⟨dependencies, hitem⟩, back, hback, hcircular⟩
    exact ⟨package, .tail (.single hout) hin⟩

/-- The script exits: a special self dependency names a version, or the dependencies that it looks
at contain a cycle, which can be that of a package on itself. -/
def Rejected (metadata : Metadata) : Prop :=
  (∃ package ∈ metadata.packages, ∃ dependency ∈ package.dependencies,
    WrongSelfDev package dependency) ∨ Cyclic (solanaGraph metadata)

/-- The longest path from `a` in the graph of the script is shorter than the one from `b`, or
they are equally long and the metadata has `a` first. -/
def PlacedEarlier (metadata : Metadata) (a b : String) : Prop :=
  Before (solanaGraph metadata)
    (fun a b => metadata.names.idxOf a < metadata.names.idxOf b) a b

/-- The relevant dependencies that the script does not look at are placed before the packages that
have them. -/
def DroppedDependenciesFit (metadata : Metadata) : Prop :=
  ∀ package dependency, Relevant metadata package dependency →
    relatedToSolana dependency.name = false →
      PlacedEarlier metadata dependency.name package.name

def manifestOf (metadata : Metadata) (a : String) : String :=
  ((metadata.packages.map fun pkg => (pkg.name, pkg.manifestPath)).lookup a).getD ""

theorem nodes_solanaGraph : nodes (solanaGraph metadata) = metadata.names := by
  simp [nodes, solanaGraph, Metadata.names]

theorem lookup_of_mem {entries : List (String × String)} {k v : String}
    (hdistinct : (entries.map Prod.fst).Nodup) (h : (k, v) ∈ entries) :
    entries.lookup k = some v := by
  cases hlookup : entries.lookup k with
  | none => exact absurd (List.lookup_eq_none_iff.mp hlookup _ h) (by simp)
  | some v' =>
    obtain ⟨before, after, hentries, -⟩ := List.lookup_eq_some_iff.mp hlookup
    have hsame := List.inj_on_of_nodup_map hdistinct h
      (show (k, v') ∈ entries by simp [hentries]) rfl
    rw [(Prod.mk.inj hsame).2]

theorem lookup_manifestPath {pkg : Package} (h : pkg ∈ metadata.packages) :
    (metadata.packages.map fun pkg => (pkg.name, pkg.manifestPath)).lookup pkg.name =
      some pkg.manifestPath := by
  refine lookup_of_mem ?_ (List.mem_map_of_mem h)
  rw [List.map_map]
  exact metadata.distinctNames

theorem lookup_manifestOf (a : String) (ha : a ∈ nodes (solanaGraph metadata)) :
    (metadata.packages.map fun pkg => (pkg.name, pkg.manifestPath)).lookup a =
      some (manifestOf metadata a) := by
  rw [nodes_solanaGraph, Metadata.names] at ha
  obtain ⟨pkg, hpkg, rfl⟩ := List.mem_map.mp ha
  rw [manifestOf, lookup_manifestPath hpkg, Option.getD_some]

theorem names_manifestOf : (metadata.names.map fun a => (a, manifestOf metadata a)) =
    metadata.packages.map fun pkg => (pkg.name, pkg.manifestPath) := by
  rw [Metadata.names, List.map_map]
  refine List.map_congr_left fun pkg hpkg => ?_
  simp [manifestOf, lookup_manifestPath hpkg]

theorem nodup_solanaGraph : (nodes (solanaGraph metadata)).Nodup :=
  nodes_solanaGraph ▸ metadata.distinctNames

theorem wrongSelfDevs_ne_nil : metadata.packages.flatMap wrongSelfDevs ≠ [] ↔
    ∃ package ∈ metadata.packages, ∃ dependency ∈ package.dependencies,
      WrongSelfDev package dependency := by
  simp [wrongSelfDevs]

theorem getPackages_of_rejected (h : Rejected metadata) :
    ∃ stderr, getPackages metadata = .error (.sysExit stderr) := by
  rw [getPackages, readMetadata_eq]
  simp only
  split
  · exact ⟨_, rfl⟩
  · next hchecks =>
    rw [not_or, wrongSelfDevs_ne_nil] at hchecks
    obtain ⟨a, ha⟩ := h.resolve_left hchecks.2
    exact removalLoop_of_peel_none nodup_solanaGraph lookup_manifestOf
      (peel_eq_none fun n => chain_of_cycle ha)

/-- Without a reason to exit, the script lists the packages by their longest paths. -/
theorem getPackages_of_not_rejected (h : ¬ Rejected metadata) :
    ∃ order : List String, order.Perm metadata.names ∧ order.Pairwise (PlacedEarlier metadata) ∧
      getPackages metadata = .ok (order.map fun a => (a, manifestOf metadata a)) := by
  obtain ⟨hwrong, hacyclic⟩ := not_or.mp h
  have hle : (solanaGraph metadata).length ≤ (solanaGraph metadata).length ^ 2 :=
    Nat.le_self_pow (by omega) _
  obtain ⟨order, horder⟩ := peel_of_acyclic hacyclic hle
  have hlisted : (nodes (solanaGraph metadata)).Pairwise
      fun a b => metadata.names.idxOf a < metadata.names.idxOf b := by
    rw [nodes_solanaGraph]
    exact pairwise_idxOf metadata.distinctNames
  refine ⟨order, nodes_solanaGraph ▸ peel_perm horder,
    peel_pairwise nodup_solanaGraph hlisted horder, ?_⟩
  have hcircular : circularDependencies (solanaGraph metadata) = [] := by
    by_contra hne
    exact hacyclic (cyclic_of_circularDependencies hne)
  have hright : metadata.packages.flatMap wrongSelfDevs = [] := by
    by_contra hne
    exact hwrong (wrongSelfDevs_ne_nil.mp hne)
  rw [getPackages, readMetadata_eq]
  simp only [hcircular, hright]
  rw [if_neg (by simp), removalLoop_of_peel nodup_solanaGraph lookup_manifestOf horder,
    List.nil_append]

theorem placedEarlier_asymm (a b : String) (h : PlacedEarlier metadata a b) :
    ¬ PlacedEarlier metadata b a :=
  h.asymm fun _ _ hlt => Nat.lt_asymm hlt

/-- The dependencies that the script looks at are placed before the packages that have them. -/
theorem placedEarlier_of_kept (hacyclic : ¬ Cyclic (solanaGraph metadata)) {package : Package}
    {dependency : Dependency} (h : Relevant metadata package dependency)
    (hkept : relatedToSolana dependency.name = true) :
    PlacedEarlier metadata dependency.name package.name := by
  have hname : dependency.name ∈ keptNames package := by
    refine List.mem_map_of_mem (List.mem_filter.mpr ⟨h.dependency_mem, ?_⟩)
    simp [hkept, h.not_stripped]
  have hedge : Edge (solanaGraph metadata) package.name dependency.name :=
    ⟨nodes_solanaGraph ▸ h.name_mem, keptNames package,
      List.mem_map.mpr ⟨package, h.package_mem, rfl⟩, hname⟩
  exact hedge.before hacyclic

theorem TopologicalOrder.acyclic {order : List (String × String)}
    (h : TopologicalOrder metadata order) (a : String) :
    ¬ Relation.TransGen (DependsOn metadata) a a := by
  have hless {a b : String} (hpath : Relation.TransGen (DependsOn metadata) a b) :
      (order.map Prod.fst).idxOf b < (order.map Prod.fst).idxOf a := by
    induction hpath with
    | single hstep =>
      obtain ⟨package, dependency, hrelevant, rfl, rfl⟩ := hstep
      exact h.after package dependency hrelevant
    | tail _ hstep ih =>
      obtain ⟨package, dependency, hrelevant, rfl, rfl⟩ := hstep
      exact (h.after package dependency hrelevant).trans ih
  exact fun hcycle => Nat.lt_irrefl _ (hless hcycle)

/-- The list is a topological order when every relevant dependency is placed early. -/
theorem topologicalOrder_iff {order : List String} (hperm : order.Perm metadata.names)
    (hsorted : order.Pairwise (PlacedEarlier metadata)) :
    TopologicalOrder metadata (order.map fun a => (a, manifestOf metadata a)) ↔
      ∀ package dependency, Relevant metadata package dependency →
        PlacedEarlier metadata dependency.name package.name := by
  have hfst : (order.map fun a => (a, manifestOf metadata a)).map Prod.fst = order := by
    rw [List.map_map]
    exact List.map_id order
  have hplace {package : Package} {dependency : Dependency}
      (h : Relevant metadata package dependency) :
      order.idxOf dependency.name < order.idxOf package.name ↔
        PlacedEarlier metadata dependency.name package.name :=
    idxOf_lt_iff hsorted placedEarlier_asymm (hperm.symm.subset h.name_mem)
      (hperm.symm.subset (List.mem_map_of_mem h.package_mem))
  constructor
  · intro htopological package dependency hrelevant
    have hafter := htopological.after package dependency hrelevant
    rw [hfst] at hafter
    exact (hplace hrelevant).mp hafter
  · intro hfit
    constructor
    · rw [← names_manifestOf]
      exact hperm.map _
    · intro package dependency hrelevant
      rw [hfst]
      exact (hplace hrelevant).mpr (hfit package dependency hrelevant)

/-- The script does its work exactly if it exits or the dependencies that it drops happen to fit. -/
theorem ordersWorkspace_iff (metadata : Metadata) :
    OrdersWorkspace metadata ↔ Rejected metadata ∨ DroppedDependenciesFit metadata := by
  by_cases hrejected : Rejected metadata
  · obtain ⟨stderr, hexit⟩ := getPackages_of_rejected hrejected
    refine iff_of_true ⟨fun order horder => ?_, fun _ => ⟨stderr, hexit⟩⟩ (.inl hrejected)
    rw [hexit] at horder
    cases horder
  · obtain ⟨order, hperm, hsorted, hresult⟩ := getPackages_of_not_rejected hrejected
    have htopological := topologicalOrder_iff hperm hsorted
    constructor
    · intro horders
      have hall := htopological.mp (horders.order _ hresult)
      exact .inr fun package dependency hrelevant _ => hall package dependency hrelevant
    · intro hcondition
      have hfit := hcondition.resolve_left hrejected
      have hall : TopologicalOrder metadata (order.map fun a => (a, manifestOf metadata a)) := by
        refine htopological.mpr fun package dependency hrelevant => ?_
        cases hkept : relatedToSolana dependency.name with
        | true => exact placedEarlier_of_kept (not_or.mp hrejected).2 hrelevant hkept
        | false => exact hfit package dependency hrelevant hkept
      refine ⟨fun result hok => ?_, fun ⟨a, ha⟩ => absurd ha (hall.acyclic a)⟩
      rw [hresult] at hok
      cases hok
      exact hall

/-- Two crates of this workspace, one of which depends on the other. -/
def eventSystemMetadata : Metadata where
  packages :=
    [⟨"agave-event-system", "event-system/Cargo.toml",
      [⟨"agave-event-system-derive", .normal, [], some "event-system-derive", "^0.3.0"⟩]⟩,
    ⟨"agave-event-system-derive", "event-system-derive/Cargo.toml", []⟩]
  distinctNames := by decide

/-- The crate that is published first depends on the other one. -/
theorem eventSystem_published_too_early : ¬ OrdersWorkspace eventSystemMetadata := by
  intro horders
  have hresult : getPackages eventSystemMetadata =
      .ok [("agave-event-system", "event-system/Cargo.toml"),
        ("agave-event-system-derive", "event-system-derive/Cargo.toml")] := by decide
  have hrelevant : Relevant eventSystemMetadata eventSystemMetadata.packages[0]
      ⟨"agave-event-system-derive", .normal, [], some "event-system-derive", "^0.3.0"⟩ :=
    ⟨by decide, by decide, by decide, by decide, by decide⟩
  have hafter := (horders.order _ hresult).after _ _ hrelevant
  exact absurd hafter (by decide)

end AgaveSdk.PublishOrder
