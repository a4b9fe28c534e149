import Mathlib.Data.List.DropRight
import Mathlib.Data.List.MinMax
import AgaveSdk.Library.LastWins
import AgaveSdk.EventSystem.PublisherSlots

/-! Stream names and the policy strings that say which streams publish. A string is the list of its
characters. -/
namespace AgaveSdk.EventSystem
open LastWins

abbrev Str := List Char

namespace Str

/-- The characters with the Unicode property `White_Space`. -/
def isWhitespace (c : Char) : Bool :=
  (9 ≤ c.toNat && c.toNat ≤ 13) || c.toNat == 0x20 || c.toNat == 0x85 || c.toNat == 0xA0 ||
    c.toNat == 0x1680 || (0x2000 ≤ c.toNat && c.toNat ≤ 0x200A) || c.toNat == 0x2028 ||
    c.toNat == 0x2029 || c.toNat == 0x202F || c.toNat == 0x205F || c.toNat == 0x3000

def trim (s : Str) : Str := (s.dropWhile isWhitespace).rdropWhile isWhitespace

/-- The length of the UTF-8 encoding. -/
def len (s : Str) : ℕ := (s.map Char.utf8Size).sum

def eqIgnoreAsciiCase (s t : Str) : Bool := s.map Char.toLower == t.map Char.toLower

/-- What stands before and after the first occurrence of a character. -/
def splitOnce (delimiter : Char) : Str → Option (Str × Str)
  | [] => none
  | c :: s =>
      if c = delimiter then some ([], s)
      else (splitOnce delimiter s).map fun parts => (c :: parts.1, parts.2)

end Str

inductive StreamNameValidationError where
  | empty
  | reservedDirectoryName
  | invalidCharacter
  deriving DecidableEq, Repr

def isValidSpecialCharacter (c : Char) : Bool := ['.', '-', ':', '_'].contains c

/-- A character outside ASCII is rejected, as each of its bytes is. -/
def validateStreamName (name : Str) : Except StreamNameValidationError Unit :=
  match name with
  | [] => .error .empty
  | ['.'] | ['.', '.'] => .error .reservedDirectoryName
  | _ =>
      if name.all fun c => c.isAlphanum || isValidSpecialCharacter c then .ok ()
      else .error .invalidCharacter

/-- A validated stream name. -/
structure StreamName where
  name : Str
  valid : validateStreamName name = .ok ()
  deriving DecidableEq

/-- Keeps the reason of the rejection. -/
def StreamName.tryNew (name : Str) : Except StreamNameValidationError StreamName :=
  match h : validateStreamName name with
  | .ok () => .ok ⟨name, h⟩
  | .error e => .error e

inductive ParseStreamFilterError where
  | invalidStreamRuleValue (value : Str)
  deriving DecidableEq, Repr

def StreamRule.display : StreamRule → Str
  | .on => ['o', 'n']
  | .off => ['o', 'f', 'f']

def StreamRule.fromStr (value : Str) : Except ParseStreamFilterError StreamRule :=
  if value.eqIgnoreAsciiCase StreamRule.on.display then .ok .on
  else if value.eqIgnoreAsciiCase StreamRule.off.display then .ok .off
  else .error (.invalidStreamRuleValue value)

structure PrefixStreamRule where
  rulePrefix : Str
  streamState : StreamRule
  deriving DecidableEq, Repr

namespace PrefixStreamRule

def fromStr (input : Str) : Except ParseStreamFilterError PrefixStreamRule := do
  let parts := (input.splitOnce '=').getD (input, [])
  let ruleValue := parts.2.trim
  let streamState ← if ruleValue.isEmpty then pure .on else StreamRule.fromStr ruleValue
  return ⟨parts.1.trim, streamState⟩

/-- By length in bytes, then lexicographically. -/
def cmp (left right : PrefixStreamRule) : Ordering :=
  (compare left.rulePrefix.len right.rulePrefix.len).then
    (compare left.rulePrefix right.rulePrefix)

end PrefixStreamRule

structure StreamPolicy where
  defaultRule : StreamRule
  prefixRulesSortedByLength : List PrefixStreamRule
  deriving DecidableEq, Repr

namespace StreamPolicy

def default : StreamPolicy := ⟨.off, []⟩

def streamRule (policy : StreamPolicy) (streamName : StreamName) : StreamRule :=
  let bestMatch := (policy.prefixRulesSortedByLength.reverse.find? fun rule =>
    rule.rulePrefix.isPrefixOf streamName.name).map PrefixStreamRule.streamState
  bestMatch.getD policy.defaultRule

/-- The body of the loop over the directives, which are trimmed. -/
def readDirective (state : List PrefixStreamRule × StreamRule) (directive : Str) :
    Except ParseStreamFilterError (List PrefixStreamRule × StreamRule) :=
  if directive.isEmpty then .ok state
  else match StreamRule.fromStr directive with
    | .ok parsedDefaultRule => .ok (state.1, parsedDefaultRule)
    | .error _ => do
        let prefixRule ← PrefixStreamRule.fromStr directive
        if prefixRule.rulePrefix.isEmpty then return (state.1, prefixRule.streamState)
        else return (upsert PrefixStreamRule.rulePrefix state.1 prefixRule, state.2)

def fromStr (input : Str) : Except ParseStreamFilterError StreamPolicy :=
  if input.trim.isEmpty then .ok default
  else do
    let result ← ((input.splitOn ',').map Str.trim).foldlM readDirective ([], .off)
    return ⟨result.2, result.1.mergeSort fun left right => (left.cmp right).isLE⟩

end StreamPolicy

/-- A directive sets the default or the rule of a prefix. -/
inductive Directive where
  | default (rule : StreamRule)
  | forPrefix (rule : PrefixStreamRule)
  deriving DecidableEq, Repr

/-- The trimmed directives that are not empty. -/
def directives (input : Str) : List Str :=
  ((input.splitOn ',').map Str.trim).filter fun directive => directive ≠ []

/-- The rule that a text names, in any ASCII case. -/
def ruleNamed (value : Str) : Option StreamRule :=
  [StreamRule.on, .off].find? fun rule => value.map Char.toLower = rule.display

/-- The trimmed text before the first `=`, or the whole directive. -/
def prefixOf (directive : Str) : Str := Str.trim (directive.takeWhile (· ≠ '='))

/-- The trimmed text after the first `=`, empty without one. -/
def valueOf (directive : Str) : Str := Str.trim ((directive.dropWhile (· ≠ '=')).drop 1)

/-- A directive that is no rule by itself and whose value is neither omitted nor a rule. -/
def Offends (directive : Str) : Prop :=
  ruleNamed directive = none ∧ '=' ∈ directive ∧ valueOf directive ≠ [] ∧
    ruleNamed (valueOf directive) = none

instance (directive : Str) : Decidable (Offends directive) :=
  inferInstanceAs (Decidable (_ ∧ _ ∧ _ ∧ _))

/-- The rule of a directive, on where it is omitted. -/
def ruleOf (directive : Str) : Option StreamRule :=
  if valueOf directive = [] then some .on else ruleNamed (valueOf directive)

/-- The meaning of a directive that does not offend. -/
def Directive.read (directive : Str) : Option Directive :=
  match ruleNamed directive with
  | some rule => some (.default rule)
  | none => (ruleOf directive).map fun rule =>
      if prefixOf directive = [] then .default rule else .forPrefix ⟨prefixOf directive, rule⟩

def Directive.default? : Directive → Option StreamRule
  | .default rule => some rule
  | .forPrefix _ => none

def Directive.forPrefix? : Directive → Option PrefixStreamRule
  | .default _ => none
  | .forPrefix rule => some rule

/-- The longest matching prefix decides, by its last directive; without a match the last default
does, and a policy without defaults is off. -/
def referenceRule (ds : List Directive) (name : Str) : StreamRule :=
  let rules := ds.filterMap Directive.forPrefix?
  let longest := ((rules.map PrefixStreamRule.rulePrefix).filter (·.isPrefixOf name)).argmax
    List.length
  let bestMatch := longest.bind fun p => lastWith PrefixStreamRule.rulePrefix p rules
  (bestMatch.map PrefixStreamRule.streamState).getD
    ((ds.filterMap Directive.default?).getLast?.getD .off)

theorem StreamRule.fromStr_eq (value : Str) : fromStr value = match ruleNamed value with
    | some rule => .ok rule
    | none => .error (.invalidStreamRuleValue value) := by
  have hon : StreamRule.on.display.map Char.toLower = StreamRule.on.display := by decide
  have hoff : StreamRule.off.display.map Char.toLower = StreamRule.off.display := by decide
  simp only [fromStr, ruleNamed, Str.eqIgnoreAsciiCase, hon, hoff, beq_iff_eq, List.find?_cons,
    List.find?_nil]
  by_cases h₁ : value.map Char.toLower = StreamRule.on.display
  · simp only [h₁, ↓reduceIte, decide_true]
  · by_cases h₂ : value.map Char.toLower = StreamRule.off.display
    · simp only [h₁, ↓reduceIte, decide_false]
      simp only [h₂, ↓reduceIte, decide_true]
    · simp only [h₁, h₂, ↓reduceIte, decide_false]

theorem Str.splitOnce_getD (delimiter : Char) (s : Str) : (s.splitOnce delimiter).getD (s, []) =
    (s.takeWhile (· ≠ delimiter), (s.dropWhile (· ≠ delimiter)).drop 1) := by
  induction s with
  | nil => rfl
  | cons c s ih =>
    unfold splitOnce
    by_cases h : c = delimiter
    · simp [h]
    · cases hs : splitOnce delimiter s with
      | none =>
        rw [hs, Option.getD_none, Prod.mk.injEq] at ih
        rw [List.takeWhile_cons_of_pos (by simpa using h),
          List.dropWhile_cons_of_pos (by simpa using h), ← ih.1, ← ih.2]
        simp [h]
      | some parts =>
        rw [hs, Option.getD_some] at ih
        simp [h, ih]

theorem PrefixStreamRule.fromStr_eq (directive : Str) : fromStr directive =
    match ruleOf directive with
    | some rule => .ok ⟨prefixOf directive, rule⟩
    | none => .error (.invalidStreamRuleValue (valueOf directive)) := by
  have hvalue : ((directive.splitOnce '=').getD (directive, [])).2.trim = valueOf directive := by
    rw [Str.splitOnce_getD, valueOf]
  have hbefore : ((directive.splitOnce '=').getD (directive, [])).1.trim = prefixOf directive := by
    rw [Str.splitOnce_getD, prefixOf]
  simp only [fromStr, hvalue, hbefore, ruleOf, StreamRule.fromStr_eq]
  by_cases h : valueOf directive = []
  · simp [h, bind, Except.bind, pure, Except.pure]
  · cases hv : ruleNamed (valueOf directive) <;>
      simp [h, bind, Except.bind, pure, Except.pure]

/-- What a directive does to the rules and the default read so far. -/
def Directive.apply (state : List PrefixStreamRule × StreamRule) :
    Directive → List PrefixStreamRule × StreamRule
  | .default rule => (state.1, rule)
  | .forPrefix rule => (upsert PrefixStreamRule.rulePrefix state.1 rule, state.2)

theorem valueOf_eq_nil {directive : Str} (h : '=' ∉ directive) : valueOf directive = [] := by
  have hdrop : directive.dropWhile (· ≠ '=') = [] := by
    rw [List.dropWhile_eq_nil_iff]
    intro c hc
    have hne : c ≠ '=' := fun heq => h (heq ▸ hc)
    simp [hne]
  rw [valueOf, hdrop]
  rfl

theorem ruleOf_eq_none_iff (directive : Str) : ruleOf directive = none ↔
    '=' ∈ directive ∧ valueOf directive ≠ [] ∧ ruleNamed (valueOf directive) = none := by
  unfold ruleOf
  split
  · next h => simp [h]
  · next h =>
    have hmem : '=' ∈ directive := by
      by_contra hnot
      exact h (valueOf_eq_nil hnot)
    simp [h, hmem]

theorem Directive.read_eq_none_iff (directive : Str) :
    read directive = none ↔ Offends directive := by
  unfold read Offends
  cases ruleNamed directive with
  | some rule => simp
  | none => simp [ruleOf_eq_none_iff]

theorem readDirective_eq (state : List PrefixStreamRule × StreamRule) {directive : Str}
    (h : directive ≠ []) : StreamPolicy.readDirective state directive =
      match Directive.read directive with
      | some d => .ok (d.apply state)
      | none => .error (.invalidStreamRuleValue (valueOf directive)) := by
  rw [StreamPolicy.readDirective, StreamRule.fromStr_eq, PrefixStreamRule.fromStr_eq,
    Directive.read]
  have hne : directive.isEmpty = false := by simpa using h
  cases ruleNamed directive with
  | some rule => simp [hne, Directive.apply]
  | none =>
    cases ruleOf directive with
    | none => simp [hne, bind, Except.bind]
    | some rule =>
      by_cases hp : prefixOf directive = []
      · simp [hne, hp, Directive.apply, bind, Except.bind, pure, Except.pure]
      · simp [hne, hp, Directive.apply, bind, Except.bind, pure, Except.pure]

/-- The loop stops at the first directive that offends. -/
theorem foldlM_readDirective (ds : List Str) (state : List PrefixStreamRule × StreamRule) :
    ds.foldlM StreamPolicy.readDirective state =
      match (ds.filter fun d => d ≠ []).find? fun d => Offends d with
      | some d => .error (.invalidStreamRuleValue (valueOf d))
      | none => .ok (((ds.filter fun d => d ≠ []).filterMap Directive.read).foldl
          Directive.apply state) := by
  induction ds generalizing state with
  | nil => rfl
  | cons d ds ih =>
    rw [List.foldlM_cons]
    by_cases hd : d = []
    · subst hd
      exact ih state
    · rw [readDirective_eq state hd, List.filter_cons_of_pos (by simpa using hd),
        List.find?_cons]
      cases hr : Directive.read d with
      | none => simp [(Directive.read_eq_none_iff d).mp hr, bind, Except.bind]
      | some directive =>
        have hok : ¬ Offends d := by
          rw [← Directive.read_eq_none_iff, hr]
          simp
        simp only [hok, decide_false, List.filterMap_cons, hr, List.foldl_cons]
        exact ih _

/-- The fold keeps the defaults and the prefix rules apart. -/
theorem foldl_apply (ds : List Directive) (state : List PrefixStreamRule × StreamRule) :
    ds.foldl Directive.apply state =
      ((ds.filterMap Directive.forPrefix?).foldl (upsert PrefixStreamRule.rulePrefix) state.1,
        (ds.filterMap Directive.default?).getLast?.getD state.2) := by
  induction ds generalizing state with
  | nil => rfl
  | cons d ds ih =>
    rw [List.foldl_cons, ih]
    cases d with
    | default rule =>
      simp only [Directive.apply, List.filterMap_cons, Directive.forPrefix?, Directive.default?]
      rw [List.getLast?_cons, Option.getD_some]
    | forPrefix rule =>
      simp only [Directive.apply, List.filterMap_cons, Directive.forPrefix?, Directive.default?,
        List.foldl_cons]

namespace PrefixStreamRule

instance : Std.TransCmp cmp :=
  inferInstanceAs (Std.TransCmp (compareLex
    (compareOn fun rule : PrefixStreamRule => rule.rulePrefix.len)
    (compareOn fun rule : PrefixStreamRule => rule.rulePrefix)))

theorem len_le_of_cmp {left right : PrefixStreamRule} (h : (left.cmp right).isLE = true) :
    left.rulePrefix.len ≤ right.rulePrefix.len := by
  rw [cmp, Ordering.isLE_then_iff_and] at h
  exact Nat.isLE_compare.mp h.1

theorem pairwise_isLE_mergeSort (rules : List PrefixStreamRule) :
    (rules.mergeSort fun left right => (left.cmp right).isLE).Pairwise
      fun left right => (left.cmp right).isLE = true := by
  apply List.pairwise_mergeSort
  · intro a b c hab hbc
    exact Std.TransCmp.isLE_trans hab hbc
  · intro a b
    have hswap : a.cmp b = (b.cmp a).swap := Std.OrientedCmp.eq_swap
    rw [hswap]
    cases b.cmp a <;> rfl

/-- The sorted list is ordered by length. -/
theorem pairwise_mergeSort_cmp (rules : List PrefixStreamRule) :
    (rules.mergeSort fun left right => (left.cmp right).isLE).Pairwise
      fun left right => left.rulePrefix.len ≤ right.rulePrefix.len :=
  (pairwise_isLE_mergeSort rules).imp len_le_of_cmp

end PrefixStreamRule

/-- Of two prefixes of one text, the one with fewer bytes is the shorter one. -/
theorem isPrefix_of_len_le {p q name : Str} (hp : p <+: name) (hq : q <+: name)
    (h : q.len ≤ p.len) : q <+: p := by
  rcases List.prefix_or_prefix_of_prefix hp hq with ⟨t, rfl⟩ | hqp
  · cases t with
    | nil => simp
    | cons c t =>
      have hpos := c.utf8Size_pos
      simp only [Str.len, List.map_append, List.sum_append, List.map_cons, List.sum_cons] at h
      omega
  · exact hqp

/-- The rules that remain of the directives, in the order of the search. -/
theorem mem_sortedRules (rules : List PrefixStreamRule) (rule : PrefixStreamRule) :
    rule ∈ (rules.foldl (upsert PrefixStreamRule.rulePrefix) []).mergeSort
        (fun left right => (left.cmp right).isLE) ↔
      lastWith PrefixStreamRule.rulePrefix rule.rulePrefix rules = some rule := by
  rw [List.mem_mergeSort, mem_foldl_upsert]

/-- The search finds the last rule of the longest matching prefix. -/
theorem find?_sortedRules (rules : List PrefixStreamRule) (name : Str) :
    ((rules.foldl (upsert PrefixStreamRule.rulePrefix) []).mergeSort
        (fun left right => (left.cmp right).isLE)).reverse.find?
        (fun rule => rule.rulePrefix.isPrefixOf name) =
      (((rules.map PrefixStreamRule.rulePrefix).filter (·.isPrefixOf name)).argmax
        List.length).bind fun p => lastWith PrefixStreamRule.rulePrefix p rules := by
  have hsorted := PrefixStreamRule.pairwise_mergeSort_cmp
    (rules.foldl (upsert PrefixStreamRule.rulePrefix) [])
  have hmem := mem_sortedRules rules
  generalize (rules.foldl (upsert PrefixStreamRule.rulePrefix) []).mergeSort
    (fun left right => (left.cmp right).isLE) = sorted at hsorted hmem
  cases hfind : sorted.reverse.find? (fun rule => rule.rulePrefix.isPrefixOf name) with
  | none =>
    have hnil : (rules.map PrefixStreamRule.rulePrefix).filter (·.isPrefixOf name) = [] := by
      rw [List.filter_eq_nil_iff]
      intro p hp hmatch
      obtain ⟨rule, hrule, rfl⟩ := List.mem_map.mp hp
      obtain ⟨last, hlast⟩ := exists_lastWith PrefixStreamRule.rulePrefix hrule
      obtain ⟨-, hkey⟩ := key_of_lastWith hlast
      have hin : last ∈ sorted := (hmem last).mpr (hkey ▸ hlast)
      rw [List.find?_eq_none] at hfind
      exact hfind last (List.mem_reverse.mpr hin) (hkey ▸ hmatch)
    rw [hnil]
    rfl
  | some rule =>
    obtain ⟨hin, hmatch, hmax⟩ := find?_reverse_sorted hsorted hfind
    have hlast := (hmem rule).mp hin
    obtain ⟨hrule, -⟩ := key_of_lastWith hlast
    have hcandidate : rule.rulePrefix ∈
        (rules.map PrefixStreamRule.rulePrefix).filter (·.isPrefixOf name) :=
      List.mem_filter.mpr ⟨List.mem_map_of_mem hrule, hmatch⟩
    cases hlongest : ((rules.map PrefixStreamRule.rulePrefix).filter
        (·.isPrefixOf name)).argmax List.length with
    | none =>
      rw [List.argmax_eq_none] at hlongest
      rw [hlongest] at hcandidate
      exact absurd hcandidate List.not_mem_nil
    | some p =>
      have hp := List.argmax_mem hlongest
      have hle := List.le_of_mem_argmax hcandidate hlongest
      rw [List.mem_filter, List.mem_map] at hp
      obtain ⟨⟨other, hother, rfl⟩, hmatch'⟩ := hp
      obtain ⟨last, hlast'⟩ := exists_lastWith PrefixStreamRule.rulePrefix hother
      obtain ⟨-, hkey⟩ := key_of_lastWith hlast'
      have hlen := hmax last ((hmem last).mpr (hkey ▸ hlast')) (hkey ▸ hmatch')
      rw [hkey] at hlen
      have hsame : other.rulePrefix = rule.rulePrefix :=
        (isPrefix_of_len_le (List.isPrefixOf_iff_prefix.mp hmatch)
          (List.isPrefixOf_iff_prefix.mp hmatch') hlen).eq_of_length_le hle
      rw [Option.bind_some, hsame, hlast]

theorem Str.isWhitespace_of_trim_eq_nil {s : Str} (h : s.trim = []) {c : Char} (hc : c ∈ s) :
    isWhitespace c = true := by
  rw [trim, List.rdropWhile_eq_nil_iff] at h
  rw [← List.takeWhile_append_dropWhile (p := isWhitespace) (l := s), List.mem_append] at hc
  rcases hc with hc | hc
  · exact List.mem_takeWhile_imp hc
  · exact h c hc

theorem directives_eq_nil {input : Str} (h : input.trim = []) : directives input = [] := by
  have hcomma : ',' ∉ input := by
    intro hmem
    exact absurd (Str.isWhitespace_of_trim_eq_nil h hmem) (by decide)
  rw [directives, List.splitOn_eq_singleton hcomma]
  simp [h]

/-- The policy of a list of directives. -/
def policyOf (ds : List Directive) : StreamPolicy where
  defaultRule := (ds.filterMap Directive.default?).getLast?.getD .off
  prefixRulesSortedByLength :=
    ((ds.filterMap Directive.forPrefix?).foldl (upsert PrefixStreamRule.rulePrefix) []).mergeSort
      fun left right => (left.cmp right).isLE

theorem StreamPolicy.fromStr_eq (input : Str) : fromStr input =
    match (directives input).find? fun d => Offends d with
    | some d => .error (.invalidStreamRuleValue (valueOf d))
    | none => .ok (policyOf ((directives input).filterMap Directive.read)) := by
  rw [fromStr]
  by_cases hempty : input.trim = []
  · rw [if_pos (by simp [hempty]), directives_eq_nil hempty]
    simp [policyOf, default]
  · rw [if_neg (by simpa using hempty), foldlM_readDirective]
    change _ = match (directives input).find? fun d => Offends d with
      | some d => _
      | none => _
    rw [← directives]
    cases (directives input).find? fun d => Offends d with
    | some d => rfl
    | none =>
      simp only [foldl_apply]
      rfl

theorem streamRule_policyOf (ds : List Directive) (streamName : StreamName) :
    (policyOf ds).streamRule streamName = referenceRule ds streamName.name := by
  rw [StreamPolicy.streamRule, policyOf, find?_sortedRules]
  rfl

/-- A policy string is rejected at its first offending directive, and an accepted one means what
its directives say: the longest prefix decides, and of equal ones the last. -/
theorem streamPolicy_fromStr_spec (input : Str) :
    ((∃ policy, StreamPolicy.fromStr input = .ok policy) ↔
      ∀ directive ∈ directives input, ¬ Offends directive) ∧
    (∀ directive, ((directives input).find? fun d => Offends d) = some directive →
      StreamPolicy.fromStr input = .error (.invalidStreamRuleValue (valueOf directive))) ∧
    ∀ policy, StreamPolicy.fromStr input = .ok policy → ∀ streamName : StreamName,
      policy.streamRule streamName =
        referenceRule ((directives input).filterMap Directive.read) streamName.name := by
  have heq := StreamPolicy.fromStr_eq input
  refine ⟨?_, ?_, ?_⟩
  · cases hfind : (directives input).find? fun d => Offends d with
    | some d =>
      rw [hfind] at heq
      have hmem := List.mem_of_find?_eq_some hfind
      have hoffends : Offends d := by simpa using List.find?_some hfind
      constructor
      · rintro ⟨policy, hpolicy⟩
        rw [heq] at hpolicy
        cases hpolicy
      · intro h
        exact absurd hoffends (h d hmem)
    | none =>
      rw [hfind] at heq
      have hnone := List.find?_eq_none.mp hfind
      refine ⟨fun _ d hd hoffends => hnone d hd (by simpa using hoffends), fun _ => ⟨_, heq⟩⟩
  · intro directive hfind
    rw [heq, hfind]
  · intro policy hpolicy streamName
    cases hfind : (directives input).find? fun d => Offends d with
    | some d =>
      rw [heq, hfind] at hpolicy
      cases hpolicy
    | none =>
      rw [heq, hfind] at hpolicy
      cases hpolicy
      exact streamRule_policyOf _ streamName

/-- The example of the documentation. -/
def networkPolicy : Str := "off,network.=on,network.repair=off".toList

def networkGossip : StreamName := ⟨"network.gossip".toList, by decide⟩

def networkRepairRequests : StreamName := ⟨"network.repair.requests".toList, by decide⟩

theorem networkPolicy_rules : ∃ policy, StreamPolicy.fromStr networkPolicy = .ok policy ∧
    policy.streamRule networkGossip = .on ∧ policy.streamRule networkRepairRequests = .off := by
  obtain ⟨haccepted, -, hrule⟩ := streamPolicy_fromStr_spec networkPolicy
  obtain ⟨policy, hpolicy⟩ := haccepted.mpr (by decide)
  refine ⟨policy, hpolicy, ?_, ?_⟩
  · rw [hrule policy hpolicy]
    decide
  · rw [hrule policy hpolicy]
    decide

end AgaveSdk.EventSystem
