import Mathlib.Data.List.Sort
import AgaveSdk.Library.Utf8Order
import AgaveSdk.EventSystem.StreamPolicy

/-! A parsed policy is a canonical form: it keeps what the directives mean, and nothing of how they
were written or ordered. -/
namespace AgaveSdk.EventSystem
open LastWins

/-- The directives of a policy string, as they are meant. -/
def meaning (input : Str) : List Directive := (directives input).filterMap Directive.read

/-- The default rule that directives denote: the last one, or off. -/
def defaultOf (ds : List Directive) : StreamRule :=
  (ds.filterMap Directive.default?).getLast?.getD .off

/-- The finite map from prefixes to rules that directives denote: of each prefix the last rule. -/
def rulesOf (ds : List Directive) (rulePrefix : Str) : Option StreamRule :=
  (lastWith PrefixStreamRule.rulePrefix rulePrefix (ds.filterMap Directive.forPrefix?)).map
    PrefixStreamRule.streamState

/-- By length in bytes, then by the bytes. -/
def PrefixStreamRule.Before (left right : PrefixStreamRule) : Prop :=
  (Utf8Order.encode left.rulePrefix).length < (Utf8Order.encode right.rulePrefix).length ∨
    (Utf8Order.encode left.rulePrefix).length = (Utf8Order.encode right.rulePrefix).length ∧
      Utf8Order.encode left.rulePrefix < Utf8Order.encode right.rulePrefix

namespace PrefixStreamRule

theorem len_eq_bytes (s : Str) : s.len = (Utf8Order.encode s).length :=
  (Utf8Order.encode_length s).symm

theorem before_of_cmp {left right : PrefixStreamRule} (h : left.cmp right = .lt) :
    left.Before right := by
  rw [cmp, Ordering.then_eq_lt] at h
  unfold Before
  rw [← len_eq_bytes, ← len_eq_bytes]
  rcases h with h | ⟨heq, h⟩
  · exact .inl (Nat.compare_eq_lt.mp h)
  · exact .inr ⟨Nat.compare_eq_eq.mp heq, Utf8Order.encode_lt h⟩

theorem Before.asymm {left right : PrefixStreamRule} (h : left.Before right) :
    ¬ right.Before left := by
  rintro (hlt | ⟨heq, hlt⟩)
  · rcases h with h | ⟨h, -⟩ <;> omega
  · rcases h with h | ⟨-, h⟩
    · omega
    · exact List.lt_asymm h hlt

instance : Std.Irrefl Before := ⟨fun _ h => h.asymm h⟩

instance : Std.Antisymm Before := ⟨fun _ _ h h' => absurd h' h.asymm⟩

/-- Of two rules that are sorted and for different prefixes, the first comes before the second. -/
theorem before_of_isLE {left right : PrefixStreamRule} (h : (left.cmp right).isLE = true)
    (hne : left.rulePrefix ≠ right.rulePrefix) : left.Before right := by
  apply before_of_cmp
  rcases Ordering.isLE_iff_eq_lt_or_eq_eq.mp h with hlt | heq
  · exact hlt
  · rw [cmp, Ordering.then_eq_eq] at heq
    exact absurd (Std.LawfulEqOrd.eq_of_compare heq.2) hne

end PrefixStreamRule

/-- The rules of a policy are strictly sorted. -/
theorem policyOf_sorted (ds : List Directive) :
    (policyOf ds).prefixRulesSortedByLength.Pairwise PrefixStreamRule.Before := by
  have hnodup : (((ds.filterMap Directive.forPrefix?).foldl
      (upsert PrefixStreamRule.rulePrefix) []).map PrefixStreamRule.rulePrefix).Nodup :=
    nodup_foldl_upsert (l := []) List.nodup_nil _
  have hperm := List.mergeSort_perm
    ((ds.filterMap Directive.forPrefix?).foldl (upsert PrefixStreamRule.rulePrefix) [])
    fun left right => (left.cmp right).isLE
  have hkeys := List.pairwise_map.mp ((hperm.map PrefixStreamRule.rulePrefix).nodup_iff.mpr hnodup)
  exact ((PrefixStreamRule.pairwise_isLE_mergeSort _).and hkeys).imp
    fun h => PrefixStreamRule.before_of_isLE h.1 h.2

theorem mem_policyOf (ds : List Directive) (rule : PrefixStreamRule) :
    rule ∈ (policyOf ds).prefixRulesSortedByLength ↔
      rulesOf ds rule.rulePrefix = some rule.streamState := by
  rw [policyOf, mem_sortedRules, rulesOf]
  constructor
  · intro h
    rw [h, Option.map_some]
  · intro h
    obtain ⟨last, hlast, hstate⟩ := Option.map_eq_some_iff.mp h
    obtain ⟨-, hkey⟩ := key_of_lastWith hlast
    rw [hlast]
    congr 1
    cases last
    cases rule
    simp_all

/-- A policy is its default rule and its finite map of rules. -/
theorem policyOf_eq_iff (ds ds' : List Directive) : policyOf ds = policyOf ds' ↔
    defaultOf ds = defaultOf ds' ∧ ∀ p, rulesOf ds p = rulesOf ds' p := by
  constructor
  · intro h
    refine ⟨congrArg StreamPolicy.defaultRule h, ?_⟩
    intro p
    ext rule
    have hmem := mem_policyOf ds ⟨p, rule⟩
    rw [h, mem_policyOf] at hmem
    exact hmem.symm
  · rintro ⟨hdefault, hrules⟩
    have hsame : (policyOf ds).prefixRulesSortedByLength =
        (policyOf ds').prefixRulesSortedByLength := by
      apply (policyOf_sorted ds).eq_of_mem_iff (policyOf_sorted ds')
      intro rule
      rw [mem_policyOf, mem_policyOf, hrules]
    unfold policyOf at hsame ⊢
    rw [StreamPolicy.mk.injEq]
    exact ⟨hdefault, hsame⟩

theorem fromStr_ok_iff {input : Str} {policy : StreamPolicy} :
    StreamPolicy.fromStr input = .ok policy ↔
      (∀ d ∈ directives input, (Directive.read d).isSome) ∧ policy = policyOf (meaning input) := by
  rw [StreamPolicy.fromStr_eq]
  cases hfind : (directives input).find? fun d => Offends d with
  | some d =>
    have hmem := List.mem_of_find?_eq_some hfind
    have hoffends : Offends d := by simpa using List.find?_some hfind
    rw [← Directive.read_eq_none_iff] at hoffends
    constructor
    · intro h
      cases h
    · rintro ⟨hall, -⟩
      have hsome := hall d hmem
      rw [hoffends] at hsome
      cases hsome
  | none =>
    have hall : ∀ d ∈ directives input, (Directive.read d).isSome := by
      intro d hd
      have hnot := List.find?_eq_none.mp hfind d hd
      rw [← Option.ne_none_iff_isSome, ne_eq, Directive.read_eq_none_iff]
      simpa using hnot
    rw [Except.ok.injEq, eq_comm]
    exact (and_iff_right hall).symm

/-- What a directive is about: the default or a prefix. -/
def keyOf (directive : Str) : Option Str :=
  if (ruleNamed directive).isSome ∨ prefixOf directive = [] then none else some (prefixOf directive)

/-- The directives in another order, where those about the same thing keep theirs. -/
structure Reordered (ds ds' : List Str) : Prop where
  perm : ds.Perm ds'
  order : ∀ k, ds.filter (fun d => keyOf d = k) = ds'.filter fun d => keyOf d = k

/-- A trimmed directive with its keywords in another case and other whitespace around its parts. -/
inductive Respelled : Str → Str → Prop where
  | keyword {d d' : Str} {rule : StreamRule} (h : ruleNamed d = some rule)
      (h' : ruleNamed d' = some rule) : Respelled d d'
  | bare (d : Str) : Respelled d d
  | assignment {p p' v v' : Str} (hp : '=' ∉ p) (hp' : '=' ∉ p') (hsame : p.trim = p'.trim)
      (hvalue : v.trim.map Char.toLower = v'.trim.map Char.toLower) :
      Respelled (p ++ '=' :: v) (p' ++ '=' :: v')

theorem ruleNamed_of_equals {directive : Str} (h : '=' ∈ directive) :
    ruleNamed directive = none := by
  rw [ruleNamed, List.find?_eq_none]
  intro rule _
  rw [decide_eq_true_eq]
  intro heq
  have hmem : Char.toLower '=' ∈ rule.display := heq ▸ List.mem_map_of_mem h
  revert hmem
  cases rule <;> decide

theorem prefixOf_assignment {p : Str} (v : Str) (h : '=' ∉ p) :
    prefixOf (p ++ '=' :: v) = p.trim := by
  have hall : ∀ c ∈ p, decide (c ≠ '=') = true := by
    intro c hc
    rw [decide_eq_true_eq]
    rintro rfl
    exact h hc
  rw [prefixOf, List.takeWhile_append_of_pos hall, List.takeWhile_cons_of_neg (by simp),
    List.append_nil]

theorem valueOf_assignment {p : Str} (v : Str) (h : '=' ∉ p) :
    valueOf (p ++ '=' :: v) = v.trim := by
  have hall : ∀ c ∈ p, decide (c ≠ '=') = true := by
    intro c hc
    rw [decide_eq_true_eq]
    rintro rfl
    exact h hc
  rw [valueOf, List.dropWhile_append_of_pos hall, List.dropWhile_cons_of_neg (by simp),
    List.drop_one, List.tail_cons]

/-- The meaning of a prefix with a value. -/
theorem read_assignment {p : Str} (v : Str) (h : '=' ∉ p) : Directive.read (p ++ '=' :: v) =
    (if v.trim = [] then some .on else ruleNamed v.trim).map fun rule =>
      if p.trim = [] then .default rule else .forPrefix ⟨p.trim, rule⟩ := by
  rw [Directive.read, ruleNamed_of_equals (by simp), ruleOf, prefixOf_assignment v h,
    valueOf_assignment v h]

theorem Respelled.read_eq {d d' : Str} (h : Respelled d d') :
    Directive.read d = Directive.read d' := by
  cases h with
  | keyword h h' => rw [Directive.read, Directive.read, h, h']
  | bare => rfl
  | assignment hp hp' hsame hvalue =>
    have hnamed : ∀ {v v' : Str}, v.map Char.toLower = v'.map Char.toLower →
        ruleNamed v = ruleNamed v' := by
      intro v v' heq
      rw [ruleNamed, ruleNamed, heq]
    have hnil {v v' : Str} (heq : v.map Char.toLower = v'.map Char.toLower) :
        v = [] ↔ v' = [] := by
      rw [← List.map_eq_nil_iff (f := Char.toLower), heq, List.map_eq_nil_iff]
    rw [read_assignment _ hp, read_assignment _ hp', hsame, hnamed hvalue]
    simp only [hnil hvalue]

/-- A directive about something else adds nothing to the default. -/
theorem default?_of_key {d : Str} (h : keyOf d ≠ none) :
    (Directive.read d).bind Directive.default? = none := by
  unfold keyOf at h
  split at h
  · exact absurd rfl h
  · next hnot =>
    rw [not_or, Option.not_isSome_iff_eq_none] at hnot
    rw [Directive.read, hnot.1]
    cases ruleOf d with
    | none => rfl
    | some rule => simp [hnot.2, Directive.default?]

/-- The rule that a directive adds is for the prefix that the directive is about. -/
theorem key_of_forPrefix? {d : Str} {rule : PrefixStreamRule}
    (h : (Directive.read d).bind Directive.forPrefix? = some rule) :
    keyOf d = some rule.rulePrefix ∧ rule.rulePrefix ≠ [] := by
  unfold Directive.read at h
  unfold keyOf
  cases hnamed : ruleNamed d with
  | some named => simp [hnamed, Directive.forPrefix?] at h
  | none =>
    rw [hnamed] at h
    cases hrule : ruleOf d with
    | none => simp [hrule] at h
    | some named =>
      rw [hrule] at h
      by_cases hp : prefixOf d = []
      · simp [hp, Directive.forPrefix?] at h
      · simp only [hp, Option.map_some, Option.bind_some, ↓reduceIte, Directive.forPrefix?,
          Option.some.injEq] at h
        subst h
        simp [hp]

/-- Entries that a filter drops may as well be dropped first. -/
theorem filterMap_filter_of_none {α β : Type} {f : α → Option β} {p : α → Bool} (l : List α)
    (h : ∀ a, p a = false → f a = none) : (l.filter p).filterMap f = l.filterMap f := by
  rw [List.filterMap_filter]
  congr 1
  funext a
  cases hp : p a with
  | true => rfl
  | false => exact (h a hp).symm

theorem defaultOf_eq (ds : List Str) : defaultOf (ds.filterMap Directive.read) =
    (((ds.filter fun d => keyOf d = none).filterMap
      fun d => (Directive.read d).bind Directive.default?).getLast?).getD .off := by
  rw [defaultOf, List.filterMap_filterMap, filterMap_filter_of_none]
  intro d hd
  exact default?_of_key (by simpa using hd)

theorem rulesOf_eq (ds : List Str) (p : Str) : rulesOf (ds.filterMap Directive.read) p =
    ((ds.filter fun d => keyOf d = some p).filterMap
      fun d => (Directive.read d).bind Directive.forPrefix?).getLast?.map
        PrefixStreamRule.streamState := by
  rw [rulesOf, lastWith, List.filterMap_filterMap, List.filter_filterMap]
  congr 2
  rw [List.filterMap_filter]
  congr 1
  funext d
  cases hrule : (Directive.read d).bind Directive.forPrefix? with
  | none => simp
  | some rule =>
    obtain ⟨hkey, -⟩ := key_of_forPrefix? hrule
    simp [hkey, Option.filter]

/-- No rule is for the empty prefix. -/
theorem rulesOf_nil (ds : List Str) : rulesOf (ds.filterMap Directive.read) [] = none := by
  rw [rulesOf_eq, Option.map_eq_none_iff, List.getLast?_eq_none_iff, List.filterMap_eq_nil_iff]
  intro d hd
  cases hrule : (Directive.read d).bind Directive.forPrefix? with
  | none => rfl
  | some rule =>
    obtain ⟨hkey, hne⟩ := key_of_forPrefix? hrule
    have hnil : keyOf d = some [] := by simpa using (List.mem_filter.mp hd).2
    rw [hkey, Option.some.injEq] at hnil
    exact absurd hnil hne

theorem policyOf_reordered {ds ds' : List Str} (h : Reordered ds ds') :
    policyOf (ds.filterMap Directive.read) = policyOf (ds'.filterMap Directive.read) := by
  rw [policyOf_eq_iff]
  refine ⟨?_, fun p => ?_⟩
  · rw [defaultOf_eq, defaultOf_eq, h.order none]
  · rw [rulesOf_eq, rulesOf_eq, h.order (some p)]

theorem map_read_respelled {ds ds' : List Str} (h : List.Forall₂ Respelled ds ds') :
    ds.map Directive.read = ds'.map Directive.read := by
  induction h with
  | nil => rfl
  | cons hd _ ih => rw [List.map_cons, List.map_cons, hd.read_eq, ih]

/-- Another order and another spelling leave the parsed value unchanged. -/
theorem fromStr_restated {s t : Str} {policy : StreamPolicy} {ds : List Str}
    (hs : StreamPolicy.fromStr s = .ok policy) (hreorder : Reordered (directives s) ds)
    (hspell : List.Forall₂ Respelled ds (directives t)) :
    StreamPolicy.fromStr t = .ok policy := by
  obtain ⟨haccepted, rfl⟩ := fromStr_ok_iff.mp hs
  have hmap := map_read_respelled hspell
  rw [fromStr_ok_iff]
  constructor
  · intro d hd
    have hmem : Directive.read d ∈ ds.map Directive.read := hmap ▸ List.mem_map_of_mem hd
    obtain ⟨d', hd', heq⟩ := List.mem_map.mp hmem
    rw [← heq]
    exact haccepted d' (hreorder.perm.mem_iff.mpr hd')
  · have hread : ds.filterMap Directive.read = (directives t).filterMap Directive.read := by
      rw [← Function.id_comp Directive.read, ← List.filterMap_map, hmap, List.filterMap_map]
    rw [meaning, meaning, policyOf_reordered hreorder, hread]

theorem directives_append (s t : Str) :
    directives (s ++ ',' :: t) = directives s ++ directives t := by
  rw [directives, List.splitOn_append_cons_self, List.map_append, List.filter_append]
  rfl

theorem fromStr_congr {s t : Str} (h : directives s = directives t) :
    StreamPolicy.fromStr s = StreamPolicy.fromStr t := by
  rw [StreamPolicy.fromStr_eq, StreamPolicy.fromStr_eq, h]

/-- A directive with an explicit rule. -/
def PrefixStreamRule.render (rule : PrefixStreamRule) : Str :=
  rule.rulePrefix ++ '=' :: rule.streamState.display

/-- The default rule among the rules, at any position. -/
def renderPolicy (before : List PrefixStreamRule) (defaultRule : StreamRule)
    (after : List PrefixStreamRule) : Str :=
  [','].intercalate
    (before.map PrefixStreamRule.render ++ defaultRule.display :: after.map PrefixStreamRule.render)

/-- A prefix that can stand in a directive as it is. -/
structure Renderable (p : Str) : Prop where
  nonempty : p ≠ []
  trimmed : p.trim = p
  comma : ',' ∉ p
  equals : '=' ∉ p

theorem Str.trim_eq_self_iff (s : Str) : s.trim = s ↔
    (∀ c ∈ s.head?, isWhitespace c = false) ∧ ∀ c ∈ s.getLast?, isWhitespace c = false := by
  cases s with
  | nil => simp [trim]
  | cons c s =>
    rw [trim]
    cases hc : isWhitespace c with
    | true =>
      have hlt : (((c :: s).dropWhile isWhitespace).rdropWhile isWhitespace).length <
          (c :: s).length := by
        rw [List.dropWhile_cons_of_pos hc, List.length_cons]
        have h₁ := (List.rdropWhile_prefix isWhitespace (s.dropWhile isWhitespace)).length_le
        have h₂ := (List.dropWhile_sublist isWhitespace (l := s)).length_le
        omega
      constructor
      · intro h
        rw [h] at hlt
        exact absurd hlt (lt_irrefl _)
      · rintro ⟨hhead, -⟩
        have := hhead c rfl
        rw [hc] at this
        cases this
    | false =>
      rw [List.dropWhile_cons_of_neg (by simp [hc]), List.rdropWhile_eq_self_iff]
      simp [hc, List.getLast?_eq_some_getLast]

theorem Str.trim_trim (s : Str) : s.trim.trim = s.trim := by
  rw [trim_eq_self_iff]
  constructor
  · intro c hc
    have htrim : s.trim <+: s.dropWhile isWhitespace := List.rdropWhile_prefix _ _
    have hhead : (s.dropWhile isWhitespace).head? = some c := by
      obtain ⟨rest, hrest⟩ := htrim
      rw [← hrest, List.head?_append, Option.mem_def.mp hc]
      rfl
    have hnot := List.head?_dropWhile_not isWhitespace s
    rw [hhead] at hnot
    exact hnot
  · intro c hc
    have hne : s.trim ≠ [] := by
      rintro hnil
      rw [hnil] at hc
      cases hc
    have hlast := List.rdropWhile_last_not isWhitespace (s.dropWhile isWhitespace) hne
    rw [Option.mem_def, List.getLast?_eq_some_getLast hne, Option.some.injEq] at hc
    rw [← hc, ← Bool.not_eq_true]
    exact hlast

theorem Str.isWhitespace_of_alphanum {c : Char} (h : c.isAlphanum = true) :
    isWhitespace c = false := by
  delta Char.isAlphanum Char.isAlpha Char.isUpper Char.isLower Char.isDigit at h
  simp only [Bool.or_eq_true, Bool.and_eq_true, decide_eq_true_eq, UInt32.le_iff_toNat_le] at h
  simp only [isWhitespace, Char.toNat, Bool.or_eq_false_iff, Bool.and_eq_false_iff,
    decide_eq_false_iff_not, beq_eq_false_iff_ne]
  simp at h
  have htoNat : c.toNat = c.val.toNat := rfl
  omega

theorem Str.mem_of_mem_trim {s : Str} {c : Char} (h : c ∈ s.trim) : c ∈ s :=
  (List.dropWhile_sublist _).subset ((List.rdropWhile_prefix _ _).subset h)

theorem not_mem_of_mem_splitOn {α : Type} [DecidableEq α] {x : α} {l piece : List α}
    (h : piece ∈ l.splitOn x) : x ∉ piece := by
  induction l generalizing piece with
  | nil =>
    rw [List.splitOn_nil, List.mem_singleton] at h
    simp [h]
  | cons a l ih =>
    rw [List.splitOn_cons_eq_if_modifyHead] at h
    split at h
    · rcases List.mem_cons.mp h with rfl | h
      · simp
      · exact ih h
    · next hne =>
      cases hl : l.splitOn x with
      | nil =>
        rw [hl] at h
        cases h
      | cons first rest =>
        rw [hl, List.modifyHead_cons, List.mem_cons] at h
        rcases h with rfl | h
        · have hfirst : x ∉ first := ih (hl ▸ List.mem_cons_self)
          simp only [List.mem_cons, not_or]
          exact ⟨fun heq => hne (by simp [heq]), hfirst⟩
        · exact ih (hl ▸ List.mem_cons_of_mem _ h)

theorem StreamRule.display_spec (rule : StreamRule) : ruleNamed rule.display = some rule ∧
    rule.display ≠ [] ∧ rule.display.trim = rule.display ∧ ',' ∉ rule.display := by
  cases rule <;> decide

theorem PrefixStreamRule.render_spec {rule : PrefixStreamRule} (h : Renderable rule.rulePrefix) :
    Directive.read rule.render = some (.forPrefix rule) ∧ rule.render ≠ [] ∧
      rule.render.trim = rule.render ∧ ',' ∉ rule.render := by
  obtain ⟨hnamed, hne, htrim, hcomma⟩ := rule.streamState.display_spec
  refine ⟨?_, ?_, ?_, ?_⟩
  · rw [render, read_assignment _ h.equals, htrim, if_neg hne, hnamed, h.trimmed]
    simp [h.nonempty]
  · rw [render]
    simp
  · rw [render, Str.trim_eq_self_iff]
    have hp := (Str.trim_eq_self_iff rule.rulePrefix).mp h.trimmed
    have hd := (Str.trim_eq_self_iff rule.streamState.display).mp htrim
    constructor
    · rw [List.head?_append_of_ne_nil _ h.nonempty]
      exact hp.1
    · rw [List.getLast?_append_of_ne_nil _ (by simp), List.getLast?_cons_of_ne_nil hne]
      exact hd.2
  · rw [render, List.mem_append, List.mem_cons]
    rintro (hmem | heq | hmem)
    · exact h.comma hmem
    · exact absurd heq (by decide)
    · exact hcomma hmem

section Rendering

variable {before after : List PrefixStreamRule} {defaultRule : StreamRule}

theorem directives_renderPolicy (h : ∀ rule ∈ before ++ after, Renderable rule.rulePrefix) :
    directives (renderPolicy before defaultRule after) =
      before.map PrefixStreamRule.render ++
        defaultRule.display :: after.map PrefixStreamRule.render := by
  have htexts : ∀ text ∈ before.map PrefixStreamRule.render ++
      defaultRule.display :: after.map PrefixStreamRule.render,
      text ≠ [] ∧ text.trim = text ∧ ',' ∉ text := by
    intro text htext
    rw [List.mem_append, List.mem_cons, List.mem_map, List.mem_map] at htext
    rcases htext with ⟨rule, hrule, rfl⟩ | rfl | ⟨rule, hrule, rfl⟩
    · exact (PrefixStreamRule.render_spec (h rule (List.mem_append_left _ hrule))).2
    · exact defaultRule.display_spec.2
    · exact (PrefixStreamRule.render_spec (h rule (List.mem_append_right _ hrule))).2
  rw [directives, renderPolicy,
    List.splitOn_intercalate ',' (fun text htext => (htexts text htext).2.2) (by simp),
    List.map_congr_left fun text htext => (htexts text htext).2.1, List.map_id']
  exact List.filter_eq_self.mpr fun text htext => by simpa using (htexts text htext).1

theorem filterMap_read_render {rules : List PrefixStreamRule}
    (h : ∀ rule ∈ rules, Renderable rule.rulePrefix) :
    (rules.map PrefixStreamRule.render).filterMap Directive.read =
      rules.map Directive.forPrefix := by
  rw [List.filterMap_map, ← List.filterMap_eq_map]
  apply List.filterMap_congr
  intro rule hrule
  exact (PrefixStreamRule.render_spec (h rule hrule)).1

theorem meaning_renderPolicy (h : ∀ rule ∈ before ++ after, Renderable rule.rulePrefix) :
    meaning (renderPolicy before defaultRule after) =
      before.map Directive.forPrefix ++ .default defaultRule :: after.map Directive.forPrefix := by
  have hdefault : Directive.read defaultRule.display = some (.default defaultRule) := by
    rw [Directive.read, defaultRule.display_spec.1]
  rw [meaning, directives_renderPolicy h, List.filterMap_append, List.filterMap_cons, hdefault,
    filterMap_read_render fun rule hrule => h rule (List.mem_append_left _ hrule),
    filterMap_read_render fun rule hrule => h rule (List.mem_append_right _ hrule)]

/-- What is parsed from a rendering is what was rendered. -/
theorem fromStr_renderPolicy (h : ∀ rule ∈ before ++ after, Renderable rule.rulePrefix)
    (hnodup : ((before ++ after).map PrefixStreamRule.rulePrefix).Nodup) :
    ∃ policy, StreamPolicy.fromStr (renderPolicy before defaultRule after) = .ok policy ∧
      policy.defaultRule = defaultRule ∧
      policy.prefixRulesSortedByLength.Pairwise PrefixStreamRule.Before ∧
      ∀ rule, rule ∈ policy.prefixRulesSortedByLength ↔ rule ∈ before ++ after := by
  refine ⟨_, fromStr_ok_iff.mpr ⟨?_, rfl⟩, ?_, policyOf_sorted _, ?_⟩
  · rw [directives_renderPolicy h]
    intro text htext
    rw [List.mem_append, List.mem_cons, List.mem_map, List.mem_map] at htext
    rcases htext with ⟨rule, hrule, rfl⟩ | rfl | ⟨rule, hrule, rfl⟩
    · rw [(PrefixStreamRule.render_spec (h rule (List.mem_append_left _ hrule))).1]
      rfl
    · rw [Directive.read, defaultRule.display_spec.1]
      rfl
    · rw [(PrefixStreamRule.render_spec (h rule (List.mem_append_right _ hrule))).1]
      rfl
  · rw [meaning_renderPolicy h]
    simp [policyOf, List.filterMap_map, Function.comp_def, Directive.default?]
  · intro rule
    have hrules : (before.map Directive.forPrefix ++
        .default defaultRule :: after.map Directive.forPrefix).filterMap Directive.forPrefix? =
          before ++ after := by
      simp [List.filterMap_cons, List.filterMap_map, Function.comp_def, Directive.forPrefix?]
    rw [policyOf, mem_sortedRules, meaning_renderPolicy h, hrules, lastWith_nodup hnodup]

/-- Every prefix of a parsed policy can be rendered. -/
theorem renderable_of_parsed {input : Str} {policy : StreamPolicy}
    (h : StreamPolicy.fromStr input = .ok policy) {rule : PrefixStreamRule}
    (hrule : rule ∈ policy.prefixRulesSortedByLength) : Renderable rule.rulePrefix := by
  obtain ⟨-, rfl⟩ := fromStr_ok_iff.mp h
  rw [policyOf, mem_sortedRules, meaning, List.filterMap_filterMap] at hrule
  obtain ⟨d, hd, hread⟩ := List.mem_filterMap.mp (key_of_lastWith hrule).1
  obtain ⟨hkey, hne⟩ := key_of_forPrefix? hread
  have hp : rule.rulePrefix = prefixOf d := by
    unfold keyOf at hkey
    split at hkey
    · cases hkey
    · exact (Option.some.inj hkey).symm
  have hcomma : ',' ∉ d := by
    obtain ⟨piece, hpiece, rfl⟩ := List.mem_map.mp (List.mem_filter.mp hd).1
    intro hmem
    exact not_mem_of_mem_splitOn hpiece (Str.mem_of_mem_trim hmem)
  refine ⟨hne, by rw [hp, prefixOf, Str.trim_trim], ?_, ?_⟩
  · rw [hp, prefixOf]
    intro hmem
    exact hcomma ((List.takeWhile_sublist _).subset (Str.mem_of_mem_trim hmem))
  · rw [hp, prefixOf]
    intro hmem
    have := List.mem_takeWhile_imp (Str.mem_of_mem_trim hmem)
    simp at this

end Rendering

theorem renderable_streamName (streamName : StreamName) : Renderable streamName.name := by
  obtain ⟨name, hvalid⟩ := streamName
  have hne : name ≠ [] := by
    rintro rfl
    cases hvalid
  have hchars : ∀ c ∈ name, c.isAlphanum = true ∨ c ∈ ['.', '-', ':', '_'] := by
    unfold validateStreamName at hvalid
    split at hvalid
    · cases hvalid
    · cases hvalid
    · cases hvalid
    · split at hvalid
      · next hall =>
        intro c hc
        have hchar := List.all_eq_true.mp hall c hc
        rwa [Bool.or_eq_true, isValidSpecialCharacter, List.contains_iff_mem] at hchar
      · cases hvalid
  have hspace : ∀ c ∈ name, Str.isWhitespace c = false := by
    intro c hc
    rcases hchars c hc with halnum | hspecial
    · exact Str.isWhitespace_of_alphanum halnum
    · simp only [List.mem_cons, List.not_mem_nil, or_false] at hspecial
      rcases hspecial with rfl | rfl | rfl | rfl <;> rfl
  have hnot (x : Char) (halnum : x.isAlphanum = false) (hspecial : x ∉ ['.', '-', ':', '_']) :
      x ∉ name := by
    intro hx
    rcases hchars x hx with h | h
    · rw [halnum] at h
      cases h
    · exact hspecial h
  refine ⟨hne, ?_, hnot ',' (by decide) (by decide), hnot '=' (by decide) (by decide)⟩
  rw [Str.trim_eq_self_iff]
  exact ⟨fun c hc => hspace c (List.mem_of_mem_head? hc),
    fun c hc => hspace c (List.mem_of_mem_getLast? hc)⟩

theorem nodup_of_before {rules : List PrefixStreamRule}
    (h : rules.Pairwise PrefixStreamRule.Before) :
    (rules.map PrefixStreamRule.rulePrefix).Nodup := by
  rw [List.nodup_iff_pairwise_ne, List.pairwise_map]
  apply h.imp
  rintro left right (hlt | ⟨-, hlt⟩) heq
  · rw [heq] at hlt
    exact lt_irrefl _ hlt
  · rw [heq] at hlt
    exact List.lt_irrefl _ hlt

theorem fromStr_render_parsed {input : Str} {policy : StreamPolicy}
    (h : StreamPolicy.fromStr input = .ok policy) {before after : List PrefixStreamRule}
    (hperm : (before ++ after).Perm policy.prefixRulesSortedByLength) :
    StreamPolicy.fromStr (renderPolicy before policy.defaultRule after) = .ok policy := by
  have hsorted : policy.prefixRulesSortedByLength.Pairwise PrefixStreamRule.Before := by
    rw [(fromStr_ok_iff.mp h).2]
    exact policyOf_sorted _
  have hrenderable : ∀ rule ∈ before ++ after, Renderable rule.rulePrefix :=
    fun rule hrule => renderable_of_parsed h (hperm.mem_iff.mp hrule)
  have hnodup : ((before ++ after).map PrefixStreamRule.rulePrefix).Nodup :=
    (hperm.map _).nodup_iff.mpr (nodup_of_before hsorted)
  obtain ⟨policy', hparsed, hdefault, hsorted', hmem⟩ :=
    @fromStr_renderPolicy before after policy.defaultRule hrenderable hnodup
  have hrules : policy'.prefixRulesSortedByLength = policy.prefixRulesSortedByLength :=
    hsorted'.eq_of_mem_iff hsorted fun rule => (hmem rule).trans hperm.mem_iff
  cases policy
  cases policy'
  cases hdefault
  cases hrules
  exact hparsed

/-- Parsed policies are equal exactly if they mean the same. Order, spelling and empty directives
do not matter, and every policy can be rendered and parsed again. -/
theorem parsed_policies_canonical :
    (∀ s t policy policy', StreamPolicy.fromStr s = .ok policy →
      StreamPolicy.fromStr t = .ok policy' →
      (policy = policy' ↔ defaultOf (meaning s) = defaultOf (meaning t) ∧
        ∀ p ≠ [], rulesOf (meaning s) p = rulesOf (meaning t) p)) ∧
    (∀ s t policy ds, StreamPolicy.fromStr s = .ok policy → Reordered (directives s) ds →
      List.Forall₂ Respelled ds (directives t) → StreamPolicy.fromStr t = .ok policy) ∧
    (∀ s t blank : Str, blank.trim = [] →
      StreamPolicy.fromStr (s ++ ',' :: (blank ++ ',' :: t)) =
        StreamPolicy.fromStr (s ++ ',' :: t) ∧
      StreamPolicy.fromStr (blank ++ ',' :: t) = StreamPolicy.fromStr t ∧
      StreamPolicy.fromStr (s ++ ',' :: blank) = StreamPolicy.fromStr s) ∧
    (∀ before defaultRule after, (∀ rule ∈ before ++ after, Renderable rule.rulePrefix) →
      ((before ++ after).map PrefixStreamRule.rulePrefix).Nodup →
      ∃ policy, StreamPolicy.fromStr (renderPolicy before defaultRule after) = .ok policy ∧
        policy.defaultRule = defaultRule ∧
        ∀ rule, rule ∈ policy.prefixRulesSortedByLength ↔ rule ∈ before ++ after) ∧
    (∀ streamName : StreamName, Renderable streamName.name) ∧
    ∀ s policy, StreamPolicy.fromStr s = .ok policy →
      policy.prefixRulesSortedByLength.Pairwise PrefixStreamRule.Before ∧
      (policy.prefixRulesSortedByLength.map PrefixStreamRule.rulePrefix).Nodup ∧
      (∀ rule ∈ policy.prefixRulesSortedByLength, rule.rulePrefix ≠ []) ∧
      ∀ before after, (before ++ after).Perm policy.prefixRulesSortedByLength →
        StreamPolicy.fromStr (renderPolicy before policy.defaultRule after) = .ok policy := by
  refine ⟨?_, fun s t policy ds hs => fromStr_restated hs, ?_, ?_, renderable_streamName, ?_⟩
  · intro s t policy policy' hs ht
    obtain ⟨-, rfl⟩ := fromStr_ok_iff.mp hs
    obtain ⟨-, rfl⟩ := fromStr_ok_iff.mp ht
    rw [policyOf_eq_iff]
    refine and_congr_right fun _ => ⟨fun h p _ => h p, fun h p => ?_⟩
    by_cases hp : p = []
    · rw [hp, meaning, meaning, rulesOf_nil, rulesOf_nil]
    · exact h p hp
  · intro s t blank hblank
    have hnil := directives_eq_nil hblank
    refine ⟨fromStr_congr ?_, fromStr_congr ?_, fromStr_congr ?_⟩
    · rw [directives_append, directives_append, directives_append, hnil, List.nil_append]
    · rw [directives_append, hnil, List.nil_append]
    · rw [directives_append, hnil, List.append_nil]
  · intro before defaultRule after h hnodup
    obtain ⟨policy, hparsed, hdefault, -, hmem⟩ := fromStr_renderPolicy h hnodup
    exact ⟨policy, hparsed, hdefault, hmem⟩
  · intro s policy hs
    have hsorted : policy.prefixRulesSortedByLength.Pairwise PrefixStreamRule.Before := by
      rw [(fromStr_ok_iff.mp hs).2]
      exact policyOf_sorted _
    exact ⟨hsorted, nodup_of_before hsorted,
      fun rule hrule => (renderable_of_parsed hs hrule).nonempty,
      fun _ _ => fromStr_render_parsed hs⟩

theorem sample_policies_canonical :
    StreamPolicy.fromStr "on, ,net = off".toList = StreamPolicy.fromStr "on,net = off".toList ∧
      ∃ policy, StreamPolicy.fromStr (renderPolicy [] .off [⟨['n', 'e', 't'], .on⟩]) = .ok policy ∧
        policy.defaultRule = .off := by
  obtain ⟨-, -, hblank, hrender, -, -⟩ := parsed_policies_canonical
  constructor
  · exact (hblank "on".toList "net = off".toList [' '] (by decide)).1
  · have hrenderable : Renderable ['n', 'e', 't'] :=
      ⟨by decide, by decide, by decide, by decide⟩
    obtain ⟨policy, hparsed, hdefault, -⟩ := hrender [] .off [⟨['n', 'e', 't'], .on⟩]
      (by simpa using hrenderable) (by simp)
    exact ⟨policy, hparsed, hdefault⟩

end AgaveSdk.EventSystem
