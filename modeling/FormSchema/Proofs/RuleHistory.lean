import Mathlib.Data.List.Nodup
import FormSchema.Rule.Table

/-!
# Histories of rule tables

A table of rules is made from custom rules, and rules are then put in and taken out by name. The
names of its rules stay different from each other, whatever is done (`names_nodup_after`). That is
why taking out the first rule with a name takes out the only one: on such a table `erase` keeps the
rules of all three lists that do not have the name (`erase_eq`), and so does `remove`, which also
says whether there was one (`remove_eq`).

The default rules that are left at the end of a history are those whose names no step of it
mentions, in the order in which they were given (`defaults_run`); custom rules and fallbacks come
from the steps that put them there.
-/

namespace FormSchema

/-- A step in the history of a table: a rule is put in, or a name is taken out. -/
inductive TableStep
  | register (rule : Rule) (beforeDefaults : Bool)
  | unregister (name : String)

/-- The name that a step is about. -/
def TableStep.name : TableStep → String
  | register rule _ => rule.name
  | unregister name => name

namespace RuleTable

/-- The table after a step. -/
def after (t : RuleTable) : TableStep → RuleTable
  | .register rule beforeDefaults => t.insert rule beforeDefaults
  | .unregister name => (t.remove name).1

/-- The table after a history. -/
def run (t : RuleTable) (steps : List TableStep) : RuleTable :=
  steps.foldl after t

/-- The rules that do not have a name. -/
def without (name : String) (rules : List Rule) : List Rule :=
  rules.filter fun rule => !hasName name rule

/-! ## Taking out one rule -/

theorem hasName_iff {name : String} {rule : Rule} : hasName name rule = true ↔ rule.name = name :=
  beq_iff_eq

theorem any_hasName {name : String} {rules : List Rule} :
    rules.any (hasName name) = true ↔ name ∈ rules.map Rule.name := by
  simp [hasName_iff]

/-- The rules without a name are those of other names. -/
theorem mem_without {name : String} {rules : List Rule} {rule : Rule} :
    rule ∈ without name rules ↔ rule ∈ rules ∧ rule.name ≠ name := by
  simp [without, ← hasName_iff]

/-- Where no rule has the name, all rules are left. -/
theorem without_eq_self {name : String} {rules : List Rule} (h : name ∉ rules.map Rule.name) :
    without name rules = rules := by
  refine List.filter_eq_self.2 fun rule hrule => ?_
  have hne : rule.name ≠ name := fun heq => h (heq ▸ List.mem_map_of_mem hrule)
  simpa [hasName] using hne

theorem without_append (name : String) (a b : List Rule) :
    without name (a ++ b) = without name a ++ without name b :=
  List.filter_append ..

theorem without_sublist (name : String) (rules : List Rule) : (without name rules).Sublist rules :=
  List.filter_sublist

/-- Among rules with different names only one has a name. -/
theorem eraseP_hasName {name : String} : ∀ {rules : List Rule}, (rules.map Rule.name).Nodup →
    rules.eraseP (hasName name) = without name rules
  | [], _ => rfl
  | rule :: rest, h => by
    obtain ⟨hnew, hrest⟩ := List.nodup_cons.1 h
    by_cases hname : hasName name rule = true
    · have hnone : name ∉ rest.map Rule.name := hasName_iff.1 hname ▸ hnew
      rw [List.eraseP_cons_of_pos hname, without, List.filter_cons_of_neg (by simpa using hname)]
      exact (without_eq_self hnone).symm
    · rw [List.eraseP_cons_of_neg hname, eraseP_hasName hrest, without, without,
        List.filter_cons_of_pos (by simpa using hname)]

/-- Just the first rule of the name is taken out. -/
theorem withoutFirst?_eq (name : String) : ∀ rules : List Rule,
    withoutFirst? name rules =
      if rules.any (hasName name) then some (rules.eraseP (hasName name)) else none
  | [] => rfl
  | rule :: rest => by
    by_cases hname : hasName name rule = true
    · simp [withoutFirst?, hname]
    · rw [withoutFirst?, if_neg hname, withoutFirst?_eq name rest, List.any_cons,
        (Bool.not_eq_true _).mp hname, List.eraseP_cons_of_neg hname, Bool.false_or]
      split <;> rfl

/-- What is left when a rule is taken out, and whether there was one. -/
theorem remove_eq (t : RuleTable) (name : String) :
    t.remove name = (t.erase name, t.contains name) := by
  simp only [remove, erase, contains, rules, withoutFirst?_eq, List.any_append]
  by_cases hcustom : t.custom.any (hasName name) = true
  · simp [hcustom]
  · by_cases hdefaults : t.defaults.any (hasName name) = true
    · simp [hcustom, hdefaults]
    · by_cases hfallbacks : t.fallbacks.any (hasName name) = true
      · simp [hcustom, hdefaults, hfallbacks]
      · have hsame : t.fallbacks.eraseP (hasName name) = t.fallbacks :=
          List.eraseP_of_forall_not (by simpa using hfallbacks)
        simp [hcustom, hdefaults, hfallbacks, hsame]

/-- A table contains a name just if one of its rules has it. -/
theorem contains_iff {t : RuleTable} {name : String} :
    t.contains name = true ↔ name ∈ t.names :=
  any_hasName

/-! ## Tables with different names -/

section

variable {t : RuleTable}

/-- The names of a table are those of its three parts, in order. -/
theorem names_eq (t : RuleTable) :
    t.names = t.custom.map Rule.name ++ t.defaults.map Rule.name ++ t.fallbacks.map Rule.name := by
  simp [names, rules]

/-- Erasing a name keeps the rules of each list that do not have it. -/
theorem erase_eq (h : t.names.Nodup) (name : String) :
    t.erase name =
      ⟨without name t.custom, without name t.defaults, without name t.fallbacks⟩ := by
  rw [names_eq, List.append_assoc, List.nodup_append, List.nodup_append] at h
  obtain ⟨hcustom, ⟨hdefaults, hfallbacks, hlater⟩, hfirst⟩ := h
  unfold erase
  split
  · rename_i hany
    have hmem := any_hasName.1 hany
    have hnone : name ∉ t.defaults.map Rule.name ++ t.fallbacks.map Rule.name := fun hn =>
      hfirst name hmem name hn rfl
    rw [List.mem_append, not_or] at hnone
    rw [eraseP_hasName hcustom, without_eq_self hnone.1, without_eq_self hnone.2]
  · rename_i hcustomAny
    have hnotCustom : name ∉ t.custom.map Rule.name := fun hn => hcustomAny (any_hasName.2 hn)
    split
    · rename_i hany
      have hnotFallbacks : name ∉ t.fallbacks.map Rule.name := fun hn =>
        hlater name (any_hasName.1 hany) name hn rfl
      rw [eraseP_hasName hdefaults, without_eq_self hnotCustom, without_eq_self hnotFallbacks]
    · rename_i hdefaultsAny
      have hnotDefaults : name ∉ t.defaults.map Rule.name := fun hn =>
        hdefaultsAny (any_hasName.2 hn)
      rw [eraseP_hasName hfallbacks, without_eq_self hnotCustom, without_eq_self hnotDefaults]

/-- Erasing a name leaves the rules of other names, in order. -/
theorem rules_erase (h : t.names.Nodup) (name : String) :
    (t.erase name).rules = without name t.rules := by
  rw [erase_eq h, rules, rules, without_append, without_append]

theorem names_nodup_erase (h : t.names.Nodup) (name : String) : (t.erase name).names.Nodup := by
  rw [names, rules_erase h]
  exact h.sublist ((without_sublist name t.rules).map Rule.name)

/-- A rule takes the last place before the defaults or behind them, and older rules of its name
go. -/
theorem insert_eq (h : t.names.Nodup) (rule : Rule) (beforeDefaults : Bool) :
    t.insert rule beforeDefaults =
      ⟨without rule.name t.custom ++ if beforeDefaults then [rule] else [],
        without rule.name t.defaults,
        without rule.name t.fallbacks ++ if beforeDefaults then [] else [rule]⟩ := by
  rw [insert, erase_eq h]
  cases beforeDefaults <;> simp

/-- The rules after a rule has been put in are those that were there under other names, and the
rule. -/
theorem rules_insert_perm (h : t.names.Nodup) (rule : Rule) (beforeDefaults : Bool) :
    (t.insert rule beforeDefaults).rules.Perm (rule :: without rule.name t.rules) := by
  rw [insert_eq h, rules, rules, without_append, without_append]
  cases beforeDefaults with
  | true =>
    simp only [if_true, List.append_nil, List.append_assoc, List.singleton_append]
    exact List.perm_middle
  | false =>
    simp only [Bool.false_eq_true, if_false, List.append_nil, ← List.append_assoc]
    exact List.perm_append_singleton ..

/-- The rule that has been put in is the only one with its name. -/
theorem filter_hasName_insert (h : t.names.Nodup) (rule : Rule) (beforeDefaults : Bool) :
    (t.insert rule beforeDefaults).rules.filter (hasName rule.name) = [rule] := by
  have hnone (rules : List Rule) : (without rule.name rules).filter (hasName rule.name) = [] := by
    simp [without, List.filter_filter]
  have hself : hasName rule.name rule = true := hasName_iff.2 rfl
  rw [insert_eq h, rules]
  cases beforeDefaults <;> simp [hnone, hself]

/-- Inserting a rule keeps the names apart. -/
theorem names_nodup_insert (h : t.names.Nodup) (rule : Rule) (beforeDefaults : Bool) :
    (t.insert rule beforeDefaults).names.Nodup := by
  rw [names, ((rules_insert_perm h rule beforeDefaults).map Rule.name).nodup_iff, List.map_cons,
    List.nodup_cons]
  constructor
  · intro hmem
    obtain ⟨other, hother, hname⟩ := List.mem_map.1 hmem
    exact (mem_without.1 hother).2 hname
  · exact h.sublist ((without_sublist rule.name t.rules).map Rule.name)

/-- Among different names, the rule that is taken out is the only one with its name. -/
theorem rules_remove (h : t.names.Nodup) {before after : List Rule} {rule : Rule}
    (hrules : t.rules = before ++ rule :: after) :
    (t.remove rule.name).1.rules = before ++ after := by
  have hnames := h
  rw [names, hrules, List.map_append, List.map_cons, List.nodup_append, List.nodup_cons] at hnames
  obtain ⟨-, ⟨hafter, -⟩, hbefore⟩ := hnames
  have hnotBefore : rule.name ∉ before.map Rule.name := fun hn =>
    hbefore _ hn _ List.mem_cons_self rfl
  have hgone : without rule.name (rule :: after) = without rule.name after :=
    List.filter_cons_of_neg (by simp [hasName])
  rw [remove_eq, rules_erase h, hrules, without_append, hgone, without_eq_self hnotBefore,
    without_eq_self hafter]

/-- A name that no rule has takes nothing out. -/
theorem remove_of_not_mem (h : t.names.Nodup) {name : String} (hname : name ∉ t.names) :
    (t.remove name).1 = t := by
  rw [names_eq, List.mem_append, List.mem_append, not_or, not_or] at hname
  obtain ⟨⟨hcustom, hdefaults⟩, hfallbacks⟩ := hname
  rw [remove_eq, erase_eq h, without_eq_self hcustom, without_eq_self hdefaults,
    without_eq_self hfallbacks]

/-- A step keeps the names different from each other. -/
theorem names_nodup_after (h : t.names.Nodup) (step : TableStep) : (t.after step).names.Nodup := by
  cases step with
  | register rule beforeDefaults => exact names_nodup_insert h rule beforeDefaults
  | unregister name =>
    rw [after, remove_eq]
    exact names_nodup_erase h name

/-- A step takes its name out of the default rules and changes nothing else there. -/
theorem defaults_after (h : t.names.Nodup) (step : TableStep) :
    (t.after step).defaults = without step.name t.defaults := by
  cases step with
  | register rule beforeDefaults => rw [after, insert_eq h]; rfl
  | unregister name => rw [after, remove_eq, erase_eq h]; rfl

/-- A custom rule was one before the step, or the step has put it there. -/
theorem mem_custom_after (h : t.names.Nodup) {step : TableStep} {rule : Rule}
    (hrule : rule ∈ (t.after step).custom) : rule ∈ t.custom ∨ step = .register rule true := by
  cases step with
  | register new beforeDefaults =>
    rw [after, insert_eq h] at hrule
    rcases List.mem_append.1 hrule with hold | hnew
    · exact .inl (mem_without.1 hold).1
    · cases beforeDefaults with
      | true => exact .inr (by rw [List.mem_singleton.1 hnew])
      | false => cases hnew
  | unregister name =>
    rw [after, remove_eq, erase_eq h] at hrule
    exact .inl (mem_without.1 hrule).1

/-- A fallback was one before the step, or the step has put it there. -/
theorem mem_fallbacks_after (h : t.names.Nodup) {step : TableStep} {rule : Rule}
    (hrule : rule ∈ (t.after step).fallbacks) :
    rule ∈ t.fallbacks ∨ step = .register rule false := by
  cases step with
  | register new beforeDefaults =>
    rw [after, insert_eq h] at hrule
    rcases List.mem_append.1 hrule with hold | hnew
    · exact .inl (mem_without.1 hold).1
    · cases beforeDefaults with
      | true => cases hnew
      | false => exact .inr (by rw [List.mem_singleton.1 hnew])
  | unregister name =>
    rw [after, remove_eq, erase_eq h] at hrule
    exact .inl (mem_without.1 hrule).1

end

/-! ## Histories -/

/-- What holds of a table with different names after any history. -/
theorem names_nodup_run : ∀ {t : RuleTable} (steps : List TableStep), t.names.Nodup →
    (t.run steps).names.Nodup
  | _, [], h => h
  | _, step :: steps, h => names_nodup_run steps (names_nodup_after h step)

/-- The default rules that are left are those that no step is about, in their order. -/
theorem defaults_run : ∀ {t : RuleTable} (steps : List TableStep), t.names.Nodup →
    (t.run steps).defaults =
      t.defaults.filter fun rule => !(steps.map TableStep.name).contains rule.name
  | t, [], _ => (List.filter_eq_self.2 (by simp)).symm
  | t, step :: steps, h => by
    have hrest := defaults_run steps (names_nodup_after h step)
    rw [defaults_after h, without, List.filter_filter] at hrest
    rw [run, List.foldl_cons]
    refine hrest.trans (List.filter_congr fun rule _ => ?_)
    rw [List.map_cons, List.contains_cons, Bool.not_or, Bool.and_comm, hasName]

/-- A custom rule was there before or was registered. -/
theorem mem_custom_run : ∀ {t : RuleTable} (steps : List TableStep), t.names.Nodup →
    ∀ {rule : Rule}, rule ∈ (t.run steps).custom →
      rule ∈ t.custom ∨ .register rule true ∈ steps
  | _, [], _, _, hrule => .inl hrule
  | _, step :: steps, h, _, hrule => by
    rcases mem_custom_run steps (names_nodup_after h step) hrule with hafter | hlater
    · rcases mem_custom_after h hafter with hbefore | rfl
      · exact .inl hbefore
      · exact .inr List.mem_cons_self
    · exact .inr (List.mem_cons_of_mem step hlater)

/-- A fallback was there before or was registered. -/
theorem mem_fallbacks_run : ∀ {t : RuleTable} (steps : List TableStep), t.names.Nodup →
    ∀ {rule : Rule}, rule ∈ (t.run steps).fallbacks →
      rule ∈ t.fallbacks ∨ .register rule false ∈ steps
  | _, [], _, _, hrule => .inl hrule
  | _, step :: steps, h, _, hrule => by
    rcases mem_fallbacks_run steps (names_nodup_after h step) hrule with hafter | hlater
    · rcases mem_fallbacks_after h hafter with hbefore | rfl
      · exact .inl hbefore
      · exact .inr List.mem_cons_self
    · exact .inr (List.mem_cons_of_mem step hlater)

/-- The default rules that a table starts with. -/
def startingRules (includeDefaults : Bool) : List Rule :=
  if includeDefaults then defaultRules else []

/-- The step that puts a custom rule in. -/
def customStep (rule : Rule) : TableStep :=
  .register rule true

/-- A table of custom rules is the one that registering them gives. -/
theorem ofRules_eq_run (custom : List Rule) (includeDefaults : Bool) :
    ofRules custom includeDefaults =
      run ⟨[], startingRules includeDefaults, []⟩ (custom.map customStep) := by
  rw [run, List.foldl_map]
  rfl

theorem names_nodup_start (includeDefaults : Bool) :
    (RuleTable.mk [] (startingRules includeDefaults) []).names.Nodup := by
  cases includeDefaults <;> decide

theorem run_append (t : RuleTable) (a b : List TableStep) : t.run (a ++ b) = (t.run a).run b :=
  List.foldl_append ..

/-- A table that starts with custom rules has come about from an empty one. -/
theorem run_ofRules (custom : List Rule) (includeDefaults : Bool) (steps : List TableStep) :
    (ofRules custom includeDefaults).run steps =
      run ⟨[], startingRules includeDefaults, []⟩ (custom.map customStep ++ steps) := by
  rw [run_append, ofRules_eq_run]

/-- The names of a history are those of the custom rules and then of the steps. -/
theorem names_history (custom : List Rule) (steps : List TableStep) :
    (custom.map customStep ++ steps).map TableStep.name =
      custom.map Rule.name ++ steps.map TableStep.name := by
  rw [List.map_append, List.map_map]
  rfl

/-- A rule of a history is a custom one or was registered. -/
theorem register_mem_history {custom : List Rule} {steps : List TableStep} {rule : Rule}
    {beforeDefaults : Bool} :
    .register rule beforeDefaults ∈ custom.map customStep ++ steps ↔
      beforeDefaults = true ∧ rule ∈ custom ∨ .register rule beforeDefaults ∈ steps := by
  rw [List.mem_append, List.mem_map]
  refine or_congr_left ⟨?_, ?_⟩
  · rintro ⟨other, hother, heq⟩
    cases heq
    exact ⟨rfl, hother⟩
  · rintro ⟨rfl, hrule⟩
    exact ⟨rule, hrule, rfl⟩

/-- Where a rule stands after it is put in. -/
theorem insert_places {t : RuleTable} (h : t.names.Nodup) (rule : Rule) :
    (t.insert rule true).custom = without rule.name t.custom ++ [rule] ∧
      (t.insert rule true).rules = without rule.name t.custom ++
        rule :: without rule.name (t.defaults ++ t.fallbacks) ∧
      (t.insert rule false).rules = without rule.name t.rules ++ [rule] := by
  refine ⟨?_, ?_, ?_⟩
  · rw [insert_eq h]
    rfl
  · rw [insert_eq h, rules, without_append]
    simp
  · rw [insert_eq h, rules, rules, without_append, without_append]
    simp

/-- Whatever has been done to a table of rules, their names are different. Taking out a name says
whether a rule had it, and takes out exactly that rule. A rule that is put in is the only one with
its name and stands after the other custom rules, or after all rules, and all others stay as they
were. The default rules that are left are those that nothing was done to, in their order, after the
custom rules and before the fallbacks. -/
theorem rules_run (custom : List Rule) (includeDefaults : Bool) (steps : List TableStep) :
    let t := (ofRules custom includeDefaults).run steps
    let mentioned := custom.map Rule.name ++ steps.map TableStep.name
    t.names.Nodup ∧
      (∀ name, ((t.remove name).2 = true ↔ name ∈ t.names) ∧
        (name ∉ t.names → (t.remove name).1 = t)) ∧
      (∀ before rule after, t.rules = before ++ rule :: after →
        (t.remove rule.name).1.rules = before ++ after) ∧
      (∀ rule, (t.insert rule true).custom = without rule.name t.custom ++ [rule] ∧
        (t.insert rule true).rules = without rule.name t.custom ++
          rule :: without rule.name (t.defaults ++ t.fallbacks) ∧
        (t.insert rule false).rules = without rule.name t.rules ++ [rule] ∧
        ∀ beforeDefaults,
          (t.insert rule beforeDefaults).rules.filter (hasName rule.name) = [rule]) ∧
      t.rules = t.custom ++ t.defaults ++ t.fallbacks ∧
      t.defaults = (startingRules includeDefaults).filter
        (fun rule => !mentioned.contains rule.name) ∧
      (∀ rule ∈ t.custom, rule ∈ custom ∨ .register rule true ∈ steps) ∧
      ∀ rule ∈ t.fallbacks, .register rule false ∈ steps := by
  intro t mentioned
  have hstart := names_nodup_start includeDefaults
  have ht : t = run ⟨[], startingRules includeDefaults, []⟩ (custom.map customStep ++ steps) :=
    run_ofRules custom includeDefaults steps
  have hnames : t.names.Nodup := ht ▸ names_nodup_run _ hstart
  refine ⟨hnames, fun name => ⟨?_, remove_of_not_mem hnames⟩,
    fun before rule after => rules_remove hnames, fun rule => ?_, rfl, ?_,
    fun rule hrule => ?_, fun rule hrule => ?_⟩
  · rw [remove_eq, contains_iff]
  · obtain ⟨hcustom, hbefore, hbehind⟩ := insert_places hnames rule
    exact ⟨hcustom, hbefore, hbehind, filter_hasName_insert hnames rule⟩
  · rw [ht, defaults_run _ hstart, names_history]
  · rw [ht] at hrule
    have hstep := (mem_custom_run _ hstart hrule).resolve_left List.not_mem_nil
    exact (register_mem_history.1 hstep).imp_left And.right
  · rw [ht] at hrule
    have hstep := (mem_fallbacks_run _ hstart hrule).resolve_left List.not_mem_nil
    exact (register_mem_history.1 hstep).resolve_left fun h => Bool.false_ne_true h.1

end RuleTable

end FormSchema
