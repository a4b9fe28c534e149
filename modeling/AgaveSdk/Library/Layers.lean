import Mathlib.Algebra.Ring.Nat
import Mathlib.Data.Fintype.Card
import Mathlib.Data.List.Nodup
import Mathlib.Data.Set.Finite.List
import Mathlib.Logic.Relation
import Mathlib.Order.WellFounded

/-! Finite directed graphs as adjacency lists, and the list of their nodes that repeatedly taking
out the nodes without successors produces. A node leaves in the round that counts the longest path
from it, so the rounds end exactly on the graphs without a cycle. -/
namespace Layers

variable {α : Type} {g : List (α × List α)} {a b : α} {n t : ℕ}
  {listed : α → α → Prop} {order : List α}

/-- The nodes of a graph, in the order of its adjacency lists. -/
def nodes (g : List (α × List α)) : List α := g.map Prod.fst

/-- The node `b` of the graph is a successor of `a`. -/
def Edge (g : List (α × List α)) (a b : α) : Prop := b ∈ nodes g ∧ ∃ l, (a, l) ∈ g ∧ b ∈ l

def Cyclic (g : List (α × List α)) : Prop := ∃ a, Relation.TransGen (Edge g) a a

/-- A path of `n` edges starts at the node. -/
def Chain (g : List (α × List α)) : ℕ → α → Prop
  | 0, a => a ∈ nodes g
  | n + 1, a => ∃ b, Edge g a b ∧ Chain g n b

/-- A path from the node runs into a cycle. -/
def ReachesCycle (g : List (α × List α)) (a : α) : Prop :=
  ∃ b, Relation.ReflTransGen (Edge g) a b ∧ Relation.TransGen (Edge g) b b

/-- Shorter longest paths come first, and the listing decides between equal ones. -/
def Before (g : List (α × List α)) (listed : α → α → Prop) (a b : α) : Prop :=
  (∃ n, ¬ Chain g n a ∧ Chain g n b) ∨ ((∀ n, Chain g n a ↔ Chain g n b) ∧ listed a b)

theorem mem_nodes : a ∈ nodes g ↔ ∃ l, (a, l) ∈ g := by
  simp [nodes]

theorem Edge.left_mem (h : Edge g a b) : a ∈ nodes g := by
  obtain ⟨-, l, hl, -⟩ := h
  exact mem_nodes.mpr ⟨l, hl⟩

theorem Chain.mem (h : Chain g n a) : a ∈ nodes g := by
  cases n with
  | zero => exact h
  | succ n =>
    obtain ⟨b, hb, -⟩ := h
    exact hb.left_mem

theorem Chain.pred (h : Chain g (n + 1) a) : Chain g n a := by
  induction n generalizing a with
  | zero => exact h.mem
  | succ n ih =>
    obtain ⟨b, hb, hchain⟩ := h
    exact ⟨b, hb, ih hchain⟩

theorem Chain.mono {m : ℕ} (hle : m ≤ n) (h : Chain g n a) : Chain g m a := by
  induction hle with
  | refl => exact h
  | step _ ih => exact ih h.pred

/-- Paths of every length start on a cycle. -/
theorem chain_of_cycle (h : Relation.TransGen (Edge g) a a) : Chain g n a := by
  induction n generalizing a with
  | zero =>
    obtain ⟨b, hb, -⟩ := Relation.TransGen.head'_iff.mp h
    exact hb.left_mem
  | succ n ih =>
    obtain ⟨b, hb, hback⟩ := Relation.TransGen.head'_iff.mp h
    exact ⟨b, hb, ih (Relation.TransGen.tail' hback hb)⟩

theorem Before.asymm (hlisted : ∀ a b, listed a b → ¬ listed b a) (h : Before g listed a b) :
    ¬ Before g listed b a := by
  intro hback
  rcases h with ⟨n, hna, hnb⟩ | ⟨hsame, hab⟩
  · rcases hback with ⟨m, hmb, hma⟩ | ⟨hsame, -⟩
    · rcases Nat.le_total n m with hle | hle
      · exact hna (hma.mono hle)
      · exact hmb (hnb.mono hle)
    · exact hna ((hsame n).mp hnb)
  · rcases hback with ⟨m, hmb, hma⟩ | ⟨-, hba⟩
    · exact hmb ((hsame m).mp hma)
    · exact hlisted a b hab hba

theorem ReachesCycle.chain (h : ReachesCycle g a) : Chain g n a := by
  obtain ⟨b, hpath, hcycle⟩ := h
  induction hpath using Relation.ReflTransGen.head_induction_on generalizing n with
  | refl => exact chain_of_cycle hcycle
  | head hstep _ ih =>
    cases n with
    | zero => exact hstep.left_mem
    | succ n => exact ⟨_, hstep, ih⟩

/-- The nodes of a path, each of which leads to the later ones. -/
theorem Chain.path (h : Chain g n a) : ∃ path : List α, path.length = n ∧
    (∀ b ∈ a :: path, b ∈ nodes g) ∧ (a :: path).Pairwise (Relation.TransGen (Edge g)) := by
  induction n generalizing a with
  | zero => exact ⟨[], rfl, by simpa using h.mem, List.pairwise_singleton _ a⟩
  | succ n ih =>
    obtain ⟨b, hstep, hchain⟩ := h
    obtain ⟨path, hlength, hmem, hpath⟩ := ih hchain
    refine ⟨b :: path, by simp [hlength], List.forall_mem_cons.mpr ⟨hstep.left_mem, hmem⟩, ?_⟩
    refine List.pairwise_cons.mpr ⟨?_, hpath⟩
    intro c hc
    rcases List.mem_cons.mp hc with rfl | hc
    · exact .single hstep
    · exact .head hstep (List.rel_of_pairwise_cons hpath hc)

/-- A path with as many edges as the graph has nodes meets one node twice. -/
theorem Chain.reachesCycle (h : Chain g n a) (hle : g.length ≤ n) : ReachesCycle g a := by
  obtain ⟨path, hlength, hmem, hpath⟩ := h.path
  have hrepeats : ¬ (a :: path).Nodup := by
    intro hnodup
    have hshort := (hnodup.subperm hmem).length_le
    rw [List.length_cons, nodes, List.length_map] at hshort
    omega
  rw [List.Nodup, List.pairwise_iff_getElem] at hrepeats
  push Not at hrepeats
  obtain ⟨i, j, hi, hj, hij, hsame⟩ := hrepeats
  have hcycle := List.pairwise_iff_getElem.mp hpath i j hi hj hij
  rw [← hsame] at hcycle
  refine ⟨_, ?_, hcycle⟩
  rcases List.mem_cons.mp (List.getElem_mem hi) with hfirst | hlater
  · rw [hfirst]
  · exact (List.rel_of_pairwise_cons hpath hlater).to_reflTransGen

variable [DecidableEq α]

def blocked (g : List (α × List α)) (entry : α × List α) : Bool :=
  entry.2.any fun b => decide (b ∈ nodes g)

/-- The entries without a successor in the graph. -/
def ready (g : List (α × List α)) : List (α × List α) := g.filter fun entry => !blocked g entry

/-- The graph after one round. -/
def pass (g : List (α × List α)) : List (α × List α) := g.filter (blocked g)

/-- At most `t` rounds, each of which lists the nodes that it takes out. -/
def peel : ℕ → List (α × List α) → Option (List α)
  | _, [] => some []
  | 0, _ :: _ => none
  | t + 1, g => (peel t (pass g)).map (nodes (ready g) ++ ·)

theorem blocked_iff {entry : α × List α} : blocked g entry = true ↔ ∃ b ∈ entry.2, b ∈ nodes g := by
  simp [blocked]

/-- A round takes one edge off every path. -/
theorem chain_pass : Chain (pass g) n a ↔ Chain g (n + 1) a := by
  induction n generalizing a with
  | zero =>
    constructor
    · intro h
      obtain ⟨l, hl⟩ := mem_nodes.mp h.mem
      obtain ⟨hl, hblocked⟩ := List.mem_filter.mp hl
      obtain ⟨b, hb, hnode⟩ := blocked_iff.mp hblocked
      exact ⟨b, ⟨hnode, l, hl, hb⟩, hnode⟩
    · intro h
      obtain ⟨b, ⟨hnode, l, hl, hb⟩, -⟩ := h
      exact mem_nodes.mpr ⟨l, List.mem_filter.mpr ⟨hl, blocked_iff.mpr ⟨b, hb, hnode⟩⟩⟩
  | succ n ih =>
    constructor
    · intro h
      obtain ⟨b, ⟨-, l, hl, hb⟩, hchain⟩ := h
      have hnext := ih.mp hchain
      exact ⟨b, ⟨hnext.mem, l, List.mem_of_mem_filter hl, hb⟩, hnext⟩
    · intro h
      obtain ⟨b, ⟨hnode, l, hl, hb⟩, hchain⟩ := h
      have hnext := ih.mpr hchain
      have hkept : (a, l) ∈ pass g := List.mem_filter.mpr ⟨hl, blocked_iff.mpr ⟨b, hb, hnode⟩⟩
      exact ⟨b, ⟨hnext.mem, l, hkept, hb⟩, hnext⟩

theorem Edge.of_pass (h : Edge (pass g) a b) : Edge g a b := by
  obtain ⟨hnode, l, hl, hb⟩ := h
  obtain ⟨l', hl'⟩ := mem_nodes.mp hnode
  exact ⟨mem_nodes.mpr ⟨l', List.mem_of_mem_filter hl'⟩, l, List.mem_of_mem_filter hl, hb⟩

theorem Cyclic.of_pass (h : Cyclic (pass g)) : Cyclic g := by
  obtain ⟨a, ha⟩ := h
  have hmono : Edge (pass g) ≤ Edge g := fun _ _ => Edge.of_pass
  exact ⟨a, Relation.TransGen.mono hmono a a ha⟩

theorem mem_pass : a ∈ nodes (pass g) ↔ Chain g 1 a := chain_pass (n := 0)

/-- Without a cycle, some node has no successor in the graph. -/
theorem exists_ready (hne : g ≠ []) (hacyclic : ¬ Cyclic g) :
    ∃ entry ∈ g, blocked g entry = false := by
  by_contra hall
  push Not at hall
  -- The finitely many nodes have no infinite path, so one has no successor among them.
  let later : {a // a ∈ nodes g} → {a // a ∈ nodes g} → Prop :=
    fun x y => Relation.TransGen (Edge g) y.1 x.1
  have hirrefl : Std.Irrefl later := ⟨fun x hx => hacyclic ⟨x.1, hx⟩⟩
  have htrans : IsTrans _ later := ⟨fun _ _ _ hxy hyz => hyz.trans hxy⟩
  have hfinite : Finite {a // a ∈ nodes g} := (List.finite_toSet (nodes g)).to_subtype
  have hwf : WellFounded later := Finite.wellFounded_of_trans_of_irrefl later
  obtain ⟨⟨a, l⟩, hal⟩ := List.exists_mem_of_ne_nil g hne
  obtain ⟨last, -, hlast⟩ := hwf.has_min Set.univ ⟨⟨a, mem_nodes.mpr ⟨l, hal⟩⟩, trivial⟩
  obtain ⟨l', hl'⟩ := mem_nodes.mp last.2
  obtain ⟨b, hb, hnode⟩ := blocked_iff.mp (by simpa using hall (last.1, l') hl')
  exact hlast ⟨b, hnode⟩ trivial (.single ⟨hnode, l', hl', hb⟩)

theorem length_pass_lt (hne : g ≠ []) (hacyclic : ¬ Cyclic g) : (pass g).length < g.length := by
  obtain ⟨entry, hentry, hready⟩ := exists_ready hne hacyclic
  exact List.length_filter_lt_length_iff_exists.mpr ⟨entry, hentry, by simp [hready]⟩

/-- Without a cycle, as many rounds as there are nodes are enough. -/
theorem peel_of_acyclic (hacyclic : ¬ Cyclic g) (hle : g.length ≤ t) :
    ∃ order, peel t g = some order := by
  induction t, g using peel.induct with
  | case1 t => exact ⟨[], by rw [peel]⟩
  | case2 entry g => simp at hle
  | case3 t g hne ih =>
    have hlt := length_pass_lt hne hacyclic
    obtain ⟨order, horder⟩ := ih (fun h => hacyclic h.of_pass) (by omega)
    exact ⟨nodes (ready g) ++ order, by rw [peel, horder, Option.map_some]; exact hne⟩

/-- A node from which paths of every length start keeps the rounds from ending. -/
theorem peel_eq_none (hchain : ∀ n, Chain g n a) : peel t g = none := by
  induction t, g using peel.induct with
  | case1 t => simpa [nodes] using (hchain 0).mem
  | case2 entry g => rw [peel]
  | case3 t g hne ih =>
    have hnext := ih fun n => chain_pass.mpr (hchain (n + 1))
    rw [peel, hnext, Option.map_none]
    exact hne

theorem peel_perm (h : peel t g = some order) : order.Perm (nodes g) := by
  induction t, g using peel.induct generalizing order with
  | case1 t => simp_all [peel, nodes]
  | case2 entry g => simp [peel] at h
  | case3 t g hne ih =>
    rw [peel, Option.map_eq_some_iff] at h
    · obtain ⟨rest, hrest, rfl⟩ := h
      have hsplit := (List.filter_append_perm (blocked g) g).map Prod.fst
      rw [List.map_append] at hsplit
      exact ((ih hrest).append_left _).trans (List.perm_append_comm.trans hsplit)
    · exact hne

theorem not_chain_of_ready (hnodup : (nodes g).Nodup) (ha : a ∈ nodes (ready g)) :
    ¬ Chain g 1 a := by
  intro hchain
  obtain ⟨l, hl⟩ := mem_nodes.mp ha
  obtain ⟨l', hl'⟩ := mem_nodes.mp (chain_pass.mpr hchain).mem
  obtain ⟨hl, hready⟩ := List.mem_filter.mp hl
  obtain ⟨hl', hblocked⟩ := List.mem_filter.mp hl'
  -- A node has only one list of successors, which cannot be blocked and not blocked.
  have hsame : (a, l) = (a, l') := List.inj_on_of_nodup_map hnodup hl hl' rfl
  rw [hsame, hblocked] at hready
  exact absurd hready (by simp)

theorem Before.of_pass (ha : a ∈ nodes (pass g)) (hb : b ∈ nodes (pass g))
    (h : Before (pass g) listed a b) : Before g listed a b := by
  rcases h with ⟨n, hna, hnb⟩ | ⟨hsame, hlisted⟩
  · exact .inl ⟨n + 1, fun hchain => hna (chain_pass.mpr hchain), chain_pass.mp hnb⟩
  · refine .inr ⟨fun n => ?_, hlisted⟩
    cases n with
    | zero =>
      exact iff_of_true (mem_pass.mp ha).pred (mem_pass.mp hb).pred
    | succ n => rw [← chain_pass, ← chain_pass, hsame n]

/-- The nodes are listed by the length of their longest paths. -/
theorem peel_pairwise (hnodup : (nodes g).Nodup) (hlisted : (nodes g).Pairwise listed)
    (h : peel t g = some order) : order.Pairwise (Before g listed) := by
  induction t, g using peel.induct generalizing order with
  | case1 t => simp_all [peel]
  | case2 entry g => simp [peel] at h
  | case3 t g hne ih =>
    rw [peel, Option.map_eq_some_iff] at h
    · obtain ⟨rest, hrest, rfl⟩ := h
      have hpass : (nodes (pass g)).Sublist (nodes g) := List.filter_sublist.map Prod.fst
      have hready : (nodes (ready g)).Sublist (nodes g) := List.filter_sublist.map Prod.fst
      have hmem (b : α) (hb : b ∈ rest) : b ∈ nodes (pass g) := (peel_perm hrest).subset hb
      refine List.pairwise_append.mpr ⟨?_, ?_, ?_⟩
      · -- Two nodes of one round: the listing decides.
        refine (hlisted.sublist hready).imp_of_mem fun {a b} ha hb hab => .inr ⟨fun n => ?_, hab⟩
        cases n with
        | zero => exact iff_of_true (hready.subset ha) (hready.subset hb)
        | succ n =>
          have hshort (c : α) (hc : c ∈ nodes (ready g)) : ¬ Chain g (n + 1) c :=
            fun hchain => not_chain_of_ready hnodup hc (hchain.mono (by omega))
          exact iff_of_false (hshort a ha) (hshort b hb)
      · have hlater := ih (hnodup.sublist hpass) (hlisted.sublist hpass) hrest
        exact hlater.imp_of_mem fun ha hb hab => hab.of_pass (hmem _ ha) (hmem _ hb)
      · intro a ha b hb
        exact .inl ⟨1, not_chain_of_ready hnodup ha, mem_pass.mp (hmem b hb)⟩
    · exact hne

/-- A successor comes before the nodes that it follows. -/
theorem Edge.before (hacyclic : ¬ Cyclic g) (h : Edge g a b) : Before g listed b a := by
  by_contra hbefore
  -- Otherwise paths of every length start at the successor, and the rounds do not end.
  have hlong (n : ℕ) : Chain g n b := by
    induction n with
    | zero => exact h.1
    | succ n ih =>
      by_contra hend
      exact hbefore (.inl ⟨n + 1, hend, b, h, ih⟩)
  obtain ⟨order, horder⟩ := peel_of_acyclic hacyclic le_rfl
  rw [peel_eq_none hlong] at horder
  cases horder

/-- In a list sorted by an asymmetric relation, the positions follow the relation. -/
theorem idxOf_lt_iff {r : α → α → Prop} (hsorted : order.Pairwise r)
    (hasymm : ∀ a b, r a b → ¬ r b a) (ha : a ∈ order) (hb : b ∈ order) :
    order.idxOf a < order.idxOf b ↔ r a b := by
  have hearlier {a b : α} (hb : b ∈ order) (hlt : order.idxOf a < order.idxOf b) : r a b := by
    have hlast := List.idxOf_lt_length_of_mem hb
    have hpair := List.pairwise_iff_getElem.mp hsorted _ _ (hlt.trans hlast) hlast hlt
    rwa [List.getElem_idxOf, List.getElem_idxOf] at hpair
  constructor
  · exact hearlier hb
  · intro hab
    rcases Nat.lt_trichotomy (order.idxOf a) (order.idxOf b) with hlt | heq | hgt
    · exact hlt
    · have hsame : a = b := (List.idxOf_inj ha).mp heq
      subst hsame
      exact absurd hab (hasymm a a hab)
    · exact absurd (hearlier ha hgt) (hasymm a b hab)

theorem pairwise_idxOf {l : List α} (hnodup : l.Nodup) :
    l.Pairwise fun a b => l.idxOf a < l.idxOf b := by
  refine List.pairwise_iff_getElem.mpr fun i j hi hj hij => ?_
  rwa [hnodup.idxOf_getElem i hi, hnodup.idxOf_getElem j hj]

theorem mem_iterate_pass : a ∈ nodes (pass^[t] g) ↔ Chain g t a := by
  induction t generalizing g with
  | zero => exact Iff.rfl
  | succ t ih => rw [Function.iterate_succ_apply, ih, chain_pass]

theorem iterate_pass_sublist : (nodes (pass^[t] g)).Sublist (nodes g) := by
  induction t generalizing g with
  | zero => exact .refl _
  | succ t ih => exact ih.trans (List.filter_sublist.map Prod.fst)

/-- After enough rounds, the nodes that run into a cycle are left. -/
theorem mem_iterate_pass_of_le (hle : g.length ≤ t) :
    a ∈ nodes (pass^[t] g) ↔ ReachesCycle g a := by
  rw [mem_iterate_pass]
  constructor
  · intro hchain
    exact hchain.reachesCycle hle
  · exact ReachesCycle.chain

end Layers
