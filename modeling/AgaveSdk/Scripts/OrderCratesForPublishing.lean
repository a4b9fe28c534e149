import AgaveSdk.Library.LastWins
import AgaveSdk.Library.Layers
import Mathlib.Data.List.Dedup

/-! The order in which `scripts/order-crates-for-publishing.py` publishes the workspace crates. Only
dependencies whose name starts with `solana` reach its dependency graph. -/
namespace AgaveSdk.PublishOrder
open LastWins Layers

/-- `kind` in the metadata: `null`, `"dev"` or `"build"`. -/
inductive DependencyKind
  | normal
  | dev
  | build
deriving DecidableEq, Repr

structure Dependency where
  name : String
  kind : DependencyKind
  features : List String
  path : Option String
  req : String
deriving DecidableEq, Repr

structure Package where
  name : String
  manifestPath : String
  dependencies : List Dependency
deriving DecidableEq, Repr

/-- The packages of one workspace, which `cargo` lets have each name only once. -/
structure Metadata where
  packages : List Package
  distinctNames : (packages.map Package.name).Nodup

/-- What ends the script before it has an order. -/
inductive Exit
  | sysExit (stderr : List String)
  | keyError (key : String)
deriving DecidableEq, Repr

def noExplicitVersion : String := "*"

/-- Also collects the special self dependencies that name a version. -/
def isSelfDevDepWithDevContextOnlyUtils (package : Package) (dependency : Dependency)
    (wrongSelfDevDependencies : List Dependency) : Bool × List Dependency :=
  if dependency.kind = .dev ∧ dependency.name = package.name ∧
      "dev-context-only-utils" ∈ dependency.features ∧ dependency.path.isSome then
    if dependency.req ≠ noExplicitVersion then
      (true, wrongSelfDevDependencies ++ [dependency])
    else
      (true, wrongSelfDevDependencies)
  else
    (false, wrongSelfDevDependencies)

def isPathDevDep (dependency : Dependency) : Bool :=
  dependency.kind = .dev && dependency.path.isSome && dependency.req = noExplicitVersion

def relatedToSolana (name : String) : Bool := "solana".toList.isPrefixOf name.toList

def shouldAdd (package : Package) (dependency : Dependency)
    (wrongSelfDevDependencies : List Dependency) : Bool × List Dependency :=
  let (selfDevDep, wrongSelfDevDependencies) :=
    isSelfDevDepWithDevContextOnlyUtils package dependency wrongSelfDevDependencies
  (relatedToSolana dependency.name && !selfDevDep && !isPathDevDep dependency,
    wrongSelfDevDependencies)

/-- The names of a package's dependencies that the graph keeps. -/
def dependencyNames (package : Package) :
    List Dependency → List Dependency → List String × List Dependency
  | [], wrongSelfDevDependencies => ([], wrongSelfDevDependencies)
  | dependency :: dependencies, wrongSelfDevDependencies =>
    let (add, wrongSelfDevDependencies) := shouldAdd package dependency wrongSelfDevDependencies
    let (names, wrongSelfDevDependencies) :=
      dependencyNames package dependencies wrongSelfDevDependencies
    (if add then dependency.name :: names else names, wrongSelfDevDependencies)

/-- The dictionaries that `get_packages` fills from the metadata, in insertion order. -/
structure Tables where
  manifestPath : List (String × String)
  dependencyGraph : List (String × List String)
  wrongSelfDevDependencies : List Dependency
deriving DecidableEq, Repr

def addPackage (tables : Tables) (pkg : Package) : Tables :=
  let (names, wrongSelfDevDependencies) :=
    dependencyNames pkg pkg.dependencies tables.wrongSelfDevDependencies
  { manifestPath := upsert Prod.fst tables.manifestPath (pkg.name, pkg.manifestPath)
    dependencyGraph := upsert Prod.fst tables.dependencyGraph (pkg.name, names)
    wrongSelfDevDependencies }

def readMetadata (metadata : Metadata) : Tables :=
  metadata.packages.foldl addPackage ⟨[], [], []⟩

/-- Each of the two packages is among the other's dependencies. -/
def directlyCircular (dependencyGraph : List (String × List String)) (package : String)
    (dependency : String) : Bool :=
  match dependencyGraph.lookup dependency with
  | some dependencies => decide (package ∈ dependencies)
  | none => false

def circularName (package dependency : String) : String :=
  if dependency < package then dependency ++ " <--> " ++ package
  else package ++ " <--> " ++ dependency

/-- A set in the script, so its order has no meaning. -/
def circularDependencies (dependencyGraph : List (String × List String)) : List String :=
  (dependencyGraph.flatMap fun (package, dependencies) =>
    (dependencies.filter (directlyCircular dependencyGraph package)).map
      (circularName package)).dedup

def jsonEscape (code : ℕ) : String :=
  let digits := Nat.toDigits 16 code
  "\\u" ++ String.ofList (List.replicate (4 - digits.length) '0' ++ digits)

def jsonChar (c : Char) : String :=
  if c = '"' then "\\\"" else if c = '\\' then "\\\\"
  else if c = '\n' then "\\n" else if c = '\r' then "\\r" else if c = '\t' then "\\t"
  else if c.toNat = 0x08 then "\\b" else if c.toNat = 0x0c then "\\f"
  else if 0x20 ≤ c.toNat ∧ c.toNat ≤ 0x7e then c.toString
  else if c.toNat < 0x10000 then jsonEscape c.toNat
  else jsonEscape (0xd800 + (c.toNat - 0x10000) / 0x400) ++
    jsonEscape (0xdc00 + (c.toNat - 0x10000) % 0x400)

/-- `json.dumps` of a list of strings. -/
def jsonDumps (strings : List String) : String :=
  "[" ++ ", ".intercalate
    (strings.map fun s => "\"" ++ String.join (s.toList.map jsonChar) ++ "\"") ++ "]"

def circularMessage (dependency : String) : String :=
  "Error: Circular dependency: " ++ dependency ++ "\n"

def wrongSelfDevMessage (dependency : Dependency) : String :=
  "Error: wrong dev-context-only-utils circular dependency. try: " ++ dependency.name ++
    " = \x7b path = \".\", features = " ++ jsonDumps dependency.features ++ " \x7d\n"

def suspectedMessage (packages : List String) : String :=
  "Error: Circular dependency suspected between these packages: \n " ++
    "\n ".intercalate packages ++ "\n"

/-- One round over the graph, which deletes nothing before it has ended. -/
def removalRound (manifestPath : List (String × String))
    (dependencyGraph : List (String × List String)) :
    List (String × List String) → List String → List (String × String) →
      Except Exit (List String × List (String × String))
  | [], deletedPackages, sorted => .ok (deletedPackages, sorted)
  | (package, dependencies) :: items, deletedPackages, sorted =>
    if package ∈ deletedPackages then
      removalRound manifestPath dependencyGraph items deletedPackages sorted
    else if dependencies.any fun dependency => decide (dependency ∈ nodes dependencyGraph) then
      removalRound manifestPath dependencyGraph items deletedPackages sorted
    else
      match manifestPath.lookup package with
      | none => .error (.keyError package)
      | some manifest =>
        removalRound manifestPath dependencyGraph items (deletedPackages ++ [package])
          (sorted ++ [(package, manifest)])

/-- The `while` loop, counted down by `max_iterations`. -/
def removalLoop (manifestPath : List (String × String)) :
    ℕ → List (String × List String) → List (String × String) →
      Except Exit (List (String × String))
  | _, [], sorted => .ok sorted
  | 0, item :: items, _ => .error (.sysExit [suspectedMessage (nodes (item :: items))])
  | maxIterations + 1, dependencyGraph, sorted => do
    let (deletedPackages, sorted) ←
      removalRound manifestPath dependencyGraph dependencyGraph [] sorted
    removalLoop manifestPath maxIterations
      (dependencyGraph.filter fun item => decide (item.1 ∉ deletedPackages)) sorted

def getPackages (metadata : Metadata) : Except Exit (List (String × String)) :=
  let tables := readMetadata metadata
  let circular := circularDependencies tables.dependencyGraph
  if circular ≠ [] ∨ tables.wrongSelfDevDependencies ≠ [] then
    .error (.sysExit (circular.map circularMessage ++
      tables.wrongSelfDevDependencies.map wrongSelfDevMessage))
  else
    removalLoop tables.manifestPath (tables.dependencyGraph.length ^ 2) tables.dependencyGraph []

/-- `cargo` strips the dependency when it publishes the package. -/
def Stripped (package : Package) (dependency : Dependency) : Prop :=
  dependency.kind = .dev ∧ dependency.path.isSome ∧
    (dependency.req = noExplicitVersion ∨
      (dependency.name = package.name ∧ "dev-context-only-utils" ∈ dependency.features))

/-- The special self dependency, with a version that it should not have. -/
def WrongSelfDev (package : Package) (dependency : Dependency) : Prop :=
  dependency.kind = .dev ∧ dependency.name = package.name ∧
    "dev-context-only-utils" ∈ dependency.features ∧ dependency.path.isSome ∧
    dependency.req ≠ noExplicitVersion

instance (package : Package) (dependency : Dependency) :
    Decidable (Stripped package dependency) :=
  inferInstanceAs (Decidable (_ ∧ _ ∧ (_ ∨ (_ ∧ _))))

instance (package : Package) (dependency : Dependency) :
    Decidable (WrongSelfDev package dependency) :=
  inferInstanceAs (Decidable (_ ∧ _ ∧ _ ∧ _ ∧ _))

/-- The names of the dependencies that the script looks at. -/
def keptNames (package : Package) : List String :=
  (package.dependencies.filter fun d =>
    relatedToSolana d.name && !decide (Stripped package d)).map Dependency.name

def solanaGraph (metadata : Metadata) : List (String × List String) :=
  metadata.packages.map fun pkg => (pkg.name, keptNames pkg)

def wrongSelfDevs (package : Package) : List Dependency :=
  package.dependencies.filter fun d => decide (WrongSelfDev package d)

variable {package : Package} {dependency : Dependency} {wrong : List Dependency}
  {metadata : Metadata}

theorem shouldAdd_eq : shouldAdd package dependency wrong =
    (relatedToSolana dependency.name && !decide (Stripped package dependency),
      wrong ++ if WrongSelfDev package dependency then [dependency] else []) := by
  by_cases hspecial : dependency.kind = .dev ∧ dependency.name = package.name ∧
      "dev-context-only-utils" ∈ dependency.features ∧ dependency.path.isSome
  · rw [shouldAdd, isSelfDevDepWithDevContextOnlyUtils, if_pos hspecial]
    obtain ⟨hkind, hname, hfeatures, hpath⟩ := hspecial
    by_cases hreq : dependency.req = noExplicitVersion
    · simp [Stripped, WrongSelfDev, *]
    · simp [Stripped, WrongSelfDev, *]
  · rw [shouldAdd, isSelfDevDepWithDevContextOnlyUtils, if_neg hspecial]
    have hright : ¬ WrongSelfDev package dependency :=
      fun hwrong => hspecial ⟨hwrong.1, hwrong.2.1, hwrong.2.2.1, hwrong.2.2.2.1⟩
    have hstrip : isPathDevDep dependency = decide (Stripped package dependency) := by
      rw [Bool.eq_iff_iff]
      simp only [Stripped, isPathDevDep, Bool.and_eq_true, decide_eq_true_eq]
      grind
    simp [hright, hstrip]

theorem dependencyNames_eq (dependencies : List Dependency) :
    dependencyNames package dependencies wrong =
      ((dependencies.filter fun d => relatedToSolana d.name && !decide (Stripped package d)).map
          Dependency.name,
        wrong ++ dependencies.filter fun d => decide (WrongSelfDev package d)) := by
  induction dependencies generalizing wrong with
  | nil => simp [dependencyNames]
  | cons dependency dependencies ih =>
    simp only [dependencyNames, shouldAdd_eq, ih, List.filter_cons, decide_eq_true_eq]
    split <;> split <;> simp_all

theorem addPackage_eq (tables : Tables) (pkg : Package)
    (hmanifest : pkg.name ∉ tables.manifestPath.map Prod.fst)
    (hgraph : pkg.name ∉ tables.dependencyGraph.map Prod.fst) :
    addPackage tables pkg =
      { manifestPath := tables.manifestPath ++ [(pkg.name, pkg.manifestPath)]
        dependencyGraph := tables.dependencyGraph ++ [(pkg.name, keptNames pkg)]
        wrongSelfDevDependencies := tables.wrongSelfDevDependencies ++ wrongSelfDevs pkg } := by
  rw [addPackage, dependencyNames_eq]
  have hpath := upsert_of_new (x := (pkg.name, pkg.manifestPath)) hmanifest
  have hnames := upsert_of_new (x := (pkg.name, keptNames pkg)) hgraph
  rw [keptNames] at hnames ⊢
  simp only [hpath, hnames, wrongSelfDevs]

theorem foldl_addPackage (packages : List Package) (tables : Tables)
    (hmanifest : (tables.manifestPath.map Prod.fst ++ packages.map Package.name).Nodup)
    (hgraph : tables.dependencyGraph.map Prod.fst = tables.manifestPath.map Prod.fst) :
    packages.foldl addPackage tables =
      { manifestPath := tables.manifestPath ++ packages.map fun pkg => (pkg.name, pkg.manifestPath)
        dependencyGraph :=
          tables.dependencyGraph ++ packages.map fun pkg => (pkg.name, keptNames pkg)
        wrongSelfDevDependencies :=
          tables.wrongSelfDevDependencies ++ packages.flatMap wrongSelfDevs } := by
  induction packages generalizing tables with
  | nil => simp
  | cons pkg packages ih =>
    have hnew : pkg.name ∉ tables.manifestPath.map Prod.fst := by
      intro hmem
      have hdisjoint := (List.nodup_append.mp hmanifest).2.2
      exact hdisjoint _ hmem pkg.name (by simp) rfl
    have hrest : ((tables.manifestPath ++ [(pkg.name, pkg.manifestPath)]).map Prod.fst ++
        packages.map Package.name).Nodup := by
      simpa using hmanifest
    rw [List.foldl_cons, addPackage_eq tables pkg hnew (hgraph ▸ hnew),
      ih _ hrest (by simp [hgraph])]
    simp

/-- What the script reads from the metadata. -/
theorem readMetadata_eq : readMetadata metadata =
    { manifestPath := metadata.packages.map fun pkg => (pkg.name, pkg.manifestPath)
      dependencyGraph := solanaGraph metadata
      wrongSelfDevDependencies := metadata.packages.flatMap wrongSelfDevs } := by
  rw [readMetadata, foldl_addPackage _ _ (by simpa using metadata.distinctNames) rfl]
  simp [solanaGraph]

end AgaveSdk.PublishOrder
