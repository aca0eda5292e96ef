import FormSchema.Proofs.Warnings

/-!
# Checks that leave a trace

A check of a node leaves a trace if the constraints would be others without it, if something else on
the node sets the same member, or if the walk says that it does not know the check
(`Node.LeavesTrace`). A check may ask for nothing that constraints hold: a length or a bound that is
not given, an empty pattern, a format that forms do not know (`Check.IsIdle`). Every other check of
a node that was built by calls leaves a trace, as long as the constraints can be read at all
(`leavesTrace_of_builtFrom`).

Whether a member is there is what counts: of the constraints that are read from entries, just those
members are there whose names have something in the entries (`says_iff_of_read`).
-/

namespace FormSchema

/-! ## Members that are there -/

/-- Whether there is something under the name of a member. -/
def Constraints.says (c : Constraints) : String → Bool
  | "min_length" => c.minLength.isSome
  | "max_length" => c.maxLength.isSome
  | "pattern" => c.pattern.isSome
  | "format" => c.format.isSome
  | "min" => c.min.isSome
  | "max" => c.max.isSome
  | "step" => c.step.isSome
  | "is_int" => c.isInt.isSome
  | "min_items" => c.minItems.isSome
  | "max_items" => c.maxItems.isSome
  | _ => false

/-- The names of the members of constraints. -/
def constraintMembers : List String :=
  ["min_length", "max_length", "pattern", "format", "min", "max", "step", "is_int", "min_items",
    "max_items"]

/-- The entries have something under the name. -/
def Entries.Has (es : Entries) (name : String) : Prop :=
  ∃ d, es.lookup name = some d ∧ d ≠ .null

theorem nullable_isSome_iff {α : Type} {es : Entries} {name : String} {read : Datum → Option α}
    {o : Option α} (h : es.nullable name read = .valid o) : o.isSome = true ↔ es.Has name := by
  unfold Entries.nullable at h
  unfold Entries.Has
  split at h
  · rename_i hnone
    cases h
    simp [hnone]
  · rename_i hnull
    cases h
    simp [hnull]
  · rename_i d hne hd
    cases hread : read d with
    | none => simp [hread, Checked.ofOption, Checked.map] at h
    | some a =>
      rw [hread] at h
      cases h
      simpa [hd] using hne

/-- A member of the constraints is there if its name has something in the entries. -/
theorem says_iff_of_read {es : Entries} {c : Constraints} {member : String}
    (h : Constraints.read es = .valid c) (hmember : member ∈ constraintMembers) :
    c.says member = true ↔ es.Has member := by
  have hrecord := Constraints.isRecord_of_read h
  simp only [constraintMembers, List.mem_cons, List.not_mem_nil, or_false] at hmember
  rcases hmember with rfl | rfl | rfl | rfl | rfl | rfl | rfl | rfl | rfl | rfl
  · exact nullable_isSome_iff hrecord.minLength
  · exact nullable_isSome_iff hrecord.maxLength
  · exact nullable_isSome_iff hrecord.pattern
  · exact nullable_isSome_iff hrecord.format
  · exact nullable_isSome_iff hrecord.min
  · exact nullable_isSome_iff hrecord.max
  · exact nullable_isSome_iff hrecord.step
  · exact nullable_isSome_iff hrecord.isInt
  · exact nullable_isSome_iff hrecord.minItems
  · exact nullable_isSome_iff hrecord.maxItems

/-! ## What checks set -/

/-- The check asks for nothing that constraints hold: no length or bound is given, the pattern is
missing or empty, or the format is one that forms do not know. -/
inductive Check.IsIdle (c : Check) : Prop
  | minimum (hname : c.name = "min_length") (h : c.minimum = none)
  | maximum (hname : c.name = "max_length") (h : c.maximum = none)
  | value (hname : c.name ∈ ["greater_than", "less_than", "multiple_of"]) (h : c.value = .null)
  | pattern (hname : c.name = "string_format") (hformat : c.format = some "regex")
      (h : ∀ s ∈ c.pattern, s.isEmpty = true)
  | format (hname : c.name = "string_format")
      (h : ∀ s ∈ c.format, s ≠ "regex" ∧ StringFormat.ofName? s = none)

theorem setsIf_cases (member : String) (o : Option Datum) :
    (o = none ∧ Effect.setsIf member o = .nothing) ∨ ∃ d, Effect.setsIf member o = .sets member d := by
  cases o with
  | none => exact .inl ⟨rfl, rfl⟩
  | some d => exact .inr ⟨d, rfl⟩

theorem scalarValue?_eq_none {c : Check} (h : c.scalarValue? = none) : c.value = .null := by
  unfold Check.scalarValue? at h
  split at h
  · assumption
  · cases h

theorem formatEffect_cases {c : Check} (hname : c.name = "string_format") :
    c.IsIdle ∨ ∃ member d, c.formatEffect = .sets member d := by
  unfold Check.formatEffect
  split
  · rename_i s hformat hpattern
    split
    · rename_i hempty
      exact .inl (.pattern hname hformat fun t ht => by simp_all)
    · exact .inr ⟨_, _, rfl⟩
  · rename_i s hformat hnot
    split
    · exact .inr ⟨_, _, rfl⟩
    · rename_i hunknown
      left
      by_cases hregex : s = "regex"
      · subst hregex
        refine .pattern hname hformat fun t ht => ?_
        exact absurd rfl (hnot t ht)
      · refine .format hname fun t ht => ?_
        obtain rfl : s = t := Option.some.inj (hformat.symm.trans ht)
        exact ⟨hregex, by simpa using hunknown⟩
  · rename_i hnone
    exact .inl (.format hname (by simp [hnone]))

/-- A check is idle, or it sets a member, or it is not known. -/
theorem effect_cases (collection : Bool) {c : Check}
    (hint : c.name = "number_format" → c.isInt = true) :
    c.IsIdle ∨ (∃ member d, c.effect collection = .sets member d) ∨
      c.effect collection = .unknown c.name := by
  have hgiven {member : String} {o : Option Datum} (hidle : o = none → c.IsIdle) :
      c.IsIdle ∨ (∃ key d, Effect.setsIf member o = .sets key d) ∨
        Effect.setsIf member o = .unknown c.name := by
    rcases setsIf_cases member o with ⟨hnone, -⟩ | ⟨d, hset⟩
    · exact .inl (hidle hnone)
    · exact .inr (.inl ⟨member, d, hset⟩)
  unfold Check.effect
  split
  · rename_i hname
    exact hgiven fun h => .minimum hname (by simpa using h)
  · rename_i hname
    exact hgiven fun h => .maximum hname (by simpa using h)
  · rename_i hname
    exact (formatEffect_cases hname).imp_right .inl
  · rename_i hname
    exact hgiven fun h => .value (by simp [hname]) (scalarValue?_eq_none h)
  · rename_i hname
    exact hgiven fun h => .value (by simp [hname]) (scalarValue?_eq_none h)
  · rename_i hname
    rw [if_pos (hint hname)]
    exact .inr (.inl ⟨_, _, rfl⟩)
  · rename_i hname
    exact hgiven fun h => .value (by simp [hname]) (scalarValue?_eq_none h)
  · exact .inr (.inr rfl)

theorem member_of_sets {collection : Bool} {c : Check} {member : String} {d : Datum}
    (h : c.effect collection = .sets member d) : member ∈ constraintMembers := by
  cases sets_of_effect h with
  | minimum _ hkey | maximum _ hkey =>
    rw [hkey]
    cases collection <;> decide
  | value hname =>
    simp only [List.mem_cons, Prod.mk.injEq, List.not_mem_nil, or_false] at hname
    rcases hname with ⟨-, rfl⟩ | ⟨-, rfl⟩ | ⟨-, rfl⟩ <;> decide
  | whole _ hkey | pattern _ hkey | format _ hkey =>
    rw [hkey]
    decide

/-! ## Nodes without one of their checks -/

/-- What a check of the node does to the constraints. -/
def Node.effectOf (n : Node) (c : Check) : Effect :=
  c.effect (isCollectionTag n.tag)

/-- The node without the check at an index. -/
def Node.withoutCheck (n : Node) (i : Nat) : Node :=
  { n with checks := n.checks.eraseIdx i }

/-- Something on the node other than the check at an index sets the member: another check, or the
format that the node was built with. -/
def Node.SetsElsewhere (n : Node) (i : Nat) (member : String) : Prop :=
  member ∈ n.ownMembers.map Prod.fst ∨
    ∃ j c d, j ≠ i ∧ n.checks[j]? = some c ∧ n.effectOf c = .sets member d

/-- The check at an index leaves a trace: without it the constraints are others, or its member is
set elsewhere, or its name is among those that are not known. -/
inductive Node.LeavesTrace (n : Node) (i : Nat) (c : Check) : Prop
  | changes (h : (n.withoutCheck i).constraints.1 ≠ n.constraints.1)
  | repeated {member : String} {d : Datum} (hset : n.effectOf c = .sets member d)
      (h : n.SetsElsewhere i member)
  | unknown (h : c.name ∈ n.constraints.2)

theorem mem_effects {n : Node} {c : Check} (h : c ∈ n.checks) : n.effectOf c ∈ n.effects :=
  List.mem_map_of_mem h

/-- A member that a check sets is there. -/
theorem has_of_sets {n : Node} {c : Check} {member : String} {d : Datum} (hc : c ∈ n.checks)
    (h : n.effectOf c = .sets member d) : n.members.Has member := by
  have hmem : d ∈ n.effects.filterMap (Effect.value? member) :=
    List.mem_filterMap.2 ⟨_, mem_effects hc, by rw [h, Effect.value?, if_pos rfl]⟩
  obtain ⟨e, hlast⟩ : ∃ e, lastSet member n.effects = some e :=
    ⟨_, List.getLast?_eq_some_getLast (List.ne_nil_of_mem hmem)⟩
  obtain ⟨b, -, heffect⟩ := List.mem_map.1 (exists_effect_of_lastSet hlast)
  exact ⟨e, by rw [Node.members, lookup_membersSet, hlast, Option.some_or],
    (takes_of_sets heffect).1⟩

/-- A member that only the check at an index sets is not there without it. -/
theorem not_has_withoutCheck {n : Node} {i : Nat} {member : String}
    (h : ¬n.SetsElsewhere i member) : ¬(n.withoutCheck i).members.Has member := by
  rintro ⟨d, hd, -⟩
  rcases of_lookup_membersSet hd with hown | hset
  · exact h (.inl (List.mem_map_of_mem (mem_of_lookup hown)))
  · obtain ⟨c, hc, heffect⟩ := List.mem_map.1 hset
    obtain ⟨j, hj, hcheck⟩ := List.mem_eraseIdx_iff_getElem?.1 hc
    exact h (.inr ⟨j, c, d, hj, hcheck, heffect⟩)

theorem leavesTrace_of_sets {n : Node} {i : Nat} {c : Check} {member : String} {d : Datum}
    {constraints : Constraints} (hvalid : n.constraints.1 = .valid constraints)
    (hc : n.checks[i]? = some c) (h : n.effectOf c = .sets member d) : n.LeavesTrace i c := by
  by_cases helsewhere : n.SetsElsewhere i member
  · exact .repeated h helsewhere
  · refine .changes fun hsame => not_has_withoutCheck helsewhere ?_
    have hread : Constraints.read n.members = .valid constraints := hvalid
    have hwithout : Constraints.read (n.withoutCheck i).members = .valid constraints :=
      hsame.trans hvalid
    have hmember := member_of_sets h
    have hsays := (says_iff_of_read hread hmember).2 (has_of_sets (List.mem_of_getElem? hc) h)
    exact (says_iff_of_read hwithout hmember).1 hsays

theorem leavesTrace_of_unknown {n : Node} {i : Nat} {c : Check} (hc : c ∈ n.checks)
    (h : n.effectOf c = .unknown c.name) : n.LeavesTrace i c :=
  .unknown (List.mem_filterMap.2 ⟨_, mem_effects hc, by rw [h]⟩)

/-! ## Idle checks -/

theorem effect_of_isIdle (collection : Bool) {c : Check} (h : c.IsIdle) :
    c.effect collection = .nothing := by
  cases h with
  | minimum hname h => simp [Check.effect, hname, h, Effect.setsIf]
  | maximum hname h => simp [Check.effect, hname, h, Effect.setsIf]
  | value hname h =>
    simp only [List.mem_cons, List.not_mem_nil, or_false] at hname
    rcases hname with hname | hname | hname <;>
      simp [Check.effect, hname, Check.scalarValue?, h, Effect.setsIf]
  | pattern hname hformat h =>
    have heffect : c.effect collection = c.formatEffect := by simp [Check.effect, hname]
    rw [heffect, Check.formatEffect, hformat]
    cases hpattern : c.pattern with
    | none => rfl
    | some s => simp [h s hpattern]
  | format hname h =>
    have heffect : c.effect collection = c.formatEffect := by simp [Check.effect, hname]
    rw [heffect, Check.formatEffect]
    split
    · rename_i hformat _
      exact absurd rfl (h _ hformat).1
    · rename_i s hformat _
      simp [(h s hformat).2]
    · rfl

/-- An idle check has a name that is known. -/
theorem name_of_isIdle {c : Check} (h : c.IsIdle) : c.name ∈ knownChecks := by
  by_contra hname
  have hunknown : c.effect false = .unknown c.name := effect_eq_unknown_iff.2 ⟨rfl, hname⟩
  rw [effect_of_isIdle false h] at hunknown
  cases hunknown

/-- A check without an effect may be taken out. -/
theorem membersSet_eraseIdx (effectOf : Check → Effect) {c : Check} (h : effectOf c = .nothing) :
    ∀ (start : Entries) {checks : List Check} {i : Nat}, checks[i]? = some c →
      membersSet start ((checks.eraseIdx i).map effectOf) =
        membersSet start (checks.map effectOf)
  | start, first :: rest, 0, hc => by
    obtain rfl : first = c := Option.some.inj hc
    rw [List.eraseIdx_cons_zero, List.map_cons, h]
    rfl
  | start, first :: rest, i + 1, hc => by
    rw [List.eraseIdx_cons_succ, List.map_cons, List.map_cons]
    rw [List.getElem?_cons_succ] at hc
    exact membersSet_eraseIdx effectOf h _ hc

theorem members_withoutCheck {n : Node} {i : Nat} {c : Check} (hc : n.checks[i]? = some c)
    (h : n.effectOf c = .nothing) : (n.withoutCheck i).members = n.members :=
  membersSet_eraseIdx n.effectOf h n.ownMembers hc

/-- An idle check leaves no trace. -/
theorem not_leavesTrace_of_isIdle {n : Node} {i : Nat} {c : Check} (hc : n.checks[i]? = some c)
    (h : c.IsIdle) : ¬n.LeavesTrace i c := by
  have hnothing : n.effectOf c = .nothing := effect_of_isIdle _ h
  intro htrace
  cases htrace with
  | changes hchanges =>
    exact hchanges (congrArg Constraints.read (members_withoutCheck hc hnothing))
  | repeated hset =>
    rw [hnothing] at hset
    cases hset
  | unknown hunknown =>
    rw [Node.constraints, Node.effects, unknownNames_effects, List.mem_filter] at hunknown
    simp [name_of_isIdle h] at hunknown

/-! ## Nodes that are built by calls -/

theorem isIntegral_of_builtFrom {P : Number → Prop} {v : Value} (h : BuiltFrom P v) :
    ∀ n : Node, v = .node n → ∀ c ∈ n.checks, c.IsIntegral := by
  induction h with
  | construct _ hcall =>
    rintro n rfl
    obtain ⟨kind, hkind⟩ := builder_call_plain hcall
    cases hkind
    rintro _ ⟨⟩
  | call _ hof _ hcall hn =>
    rintro m rfl c hc
    rcases (gives_of_call hof hcall).checks c hc with hold | hnew
    · exact hn _ rfl c hold
    · exact hnew
  | _ => rintro _ ⟨⟩

/-- Every check of a built node that is not idle leaves a trace, if the constraints can be read. -/
theorem leavesTrace_of_builtFrom {P : Number → Prop} {n : Node} {i : Nat} {c : Check}
    {constraints : Constraints} (hbuilt : BuiltFrom P (.node n))
    (hvalid : n.constraints.1 = .valid constraints) (hc : n.checks[i]? = some c)
    (hidle : ¬c.IsIdle) : n.LeavesTrace i c := by
  have hmem := List.mem_of_getElem? hc
  have hint := isIntegral_of_builtFrom hbuilt n rfl c hmem
  rcases effect_cases (isCollectionTag n.tag) hint with h | ⟨member, d, hset⟩ | hunknown
  · exact absurd h hidle
  · exact leavesTrace_of_sets hvalid hc hset
  · exact leavesTrace_of_unknown hmem hunknown

/-- Nodes with one check that asks for nothing, each built by a call: no least length, an empty
pattern, a text that others start with, and no least number. -/
def idleChecks : List (Kind × Check) :=
  [(.string none, .minLength none), (.string none, .regex (some "")),
    (.string none, .stringFormat "starts_with" (.text "a")),
    (.number, .valued "greater_than" .null true)]

/-- Each of these checks is dropped: the constraints of its node are read and say nothing. -/
theorem idleChecks_untraced :
    ∀ e ∈ idleChecks, BuiltFrom (fun _ => True) (.node ((Node.plain e.1).withCheck e.2)) ∧
      ((Node.plain e.1).withCheck e.2).constraints = (.valid {}, []) ∧
        ¬((Node.plain e.1).withCheck e.2).LeavesTrace 0 e.2 := by
  have hidle {b : Builder} {kind : Kind} {m : Method} {a : Value} {c : Check}
      (hkind : b.call [] = .ok (.node (.plain kind))) (hof : m.isOf kind = true)
      (ha : BuiltFrom (fun _ => True) a)
      (hcall : m.call (.plain kind) [a] = .ok (.node ((Node.plain kind).withCheck c)))
      (hnone : ((Node.plain kind).withCheck c).constraints = (.valid {}, [])) (h : c.IsIdle) :
      BuiltFrom (fun _ => True) (.node ((Node.plain kind).withCheck c)) ∧
        ((Node.plain kind).withCheck c).constraints = (.valid {}, []) ∧
          ¬((Node.plain kind).withCheck c).LeavesTrace 0 c :=
    ⟨.call (.construct (by simp) hkind) hof (by simpa using ha) hcall, hnone,
      not_leavesTrace_of_isIdle rfl h⟩
  simp only [idleChecks, List.forall_mem_cons]
  refine ⟨?_, ?_, ?_, ?_, by simp⟩
  · exact hidle (b := .string) (m := .min) rfl rfl .null rfl rfl (.minimum rfl rfl)
  · exact hidle (b := .string) (m := .regex) rfl rfl (.text "") rfl rfl
      (.pattern rfl rfl (by simp [Check.regex]))
  · exact hidle (b := .string) (m := .startsWith) rfl rfl (.text "a") rfl rfl
      (.format rfl (by simp [Check.stringFormat, StringFormat.ofName?]))
  · exact hidle (b := .number) (m := .min) rfl rfl .null rfl rfl (.value (by decide) rfl)

/-- A text with a least length that is not given. -/
def boundlessText : Node :=
  (Node.plain (.string none)).withCheck (.minLength none)

/-- Its check leaves no trace, so not every check of a built node does. -/
theorem not_leavesTrace_boundlessText :
    BuiltFrom (fun _ => True) (.node boundlessText) ∧
      boundlessText.checks[0]? = some (.minLength none) ∧
        boundlessText.constraints = (.valid {}, []) ∧
          ¬boundlessText.LeavesTrace 0 (.minLength none) := by
  obtain ⟨hbuilt, hconstraints, huntraced⟩ := idleChecks_untraced _ List.mem_cons_self
  exact ⟨hbuilt, rfl, hconstraints, huntraced⟩

/-- A number whose lower bound cannot be read, while the upper one can. -/
def halfReadNumber : Node :=
  ((Node.plain .number).withCheck (.valued "greater_than" (.list []) true)).withCheck
    (.valued "less_than" (.int 3) true)

/-- Where the constraints cannot be read, a check that is not idle may leave no trace. -/
theorem halfReadNumber_untraced :
    BuiltFrom (fun _ => True) (.node halfReadNumber) ∧ ¬halfReadNumber.constraints.1.IsValid ∧
      ¬halfReadNumber.LeavesTrace 1 (.valued "less_than" (.int 3) true) := by
  have hnumber : Builder.number.call [] = .ok (.node (.plain .number)) := rfl
  have hmin : Method.min.call (.plain .number) [.list []] =
      .ok (.node ((Node.plain .number).withCheck (.valued "greater_than" (.list []) true))) := rfl
  have hmax : Method.max.call ((Node.plain .number).withCheck
      (.valued "greater_than" (.list []) true)) [.int 3] = .ok (.node halfReadNumber) := rfl
  have hbuilt : BuiltFrom (fun _ => True) (.node halfReadNumber) :=
    .call (.call (.construct (by simp) hnumber) rfl (by simpa using .list (by simp)) hmin) rfl
      (by simpa using .number trivial) hmax
  have hhalf : halfReadNumber.constraints.1 = .invalid ["min", "min"] := rfl
  have hwithout : (halfReadNumber.withoutCheck 1).constraints.1 = .invalid ["min", "min"] := rfl
  refine ⟨hbuilt, ?_, fun htrace => ?_⟩
  · rintro ⟨constraints, hvalid⟩
    cases hhalf.symm.trans hvalid
  · cases htrace with
    | changes h => exact h (hwithout.trans hhalf.symm)
    | repeated hset h =>
      obtain ⟨rfl, -⟩ : "max" = _ ∧ _ := Effect.sets.inj hset
      rcases h with hown | ⟨j, c, d, hj, hc, heffect⟩
      · cases hown
      · rcases j with _ | _ | j
        · cases hc
          exact absurd (Effect.sets.inj heffect).1 (by decide)
        · exact hj rfl
        · cases hc
    | unknown h => cases h

/-- A positive number. -/
def positiveNumber : Node :=
  (Node.plain .number).withCheck (.valued "greater_than" (.int 0) false)

/-- The bound of a positive number leaves a trace. -/
theorem leavesTrace_positiveNumber :
    BuiltFrom (fun _ => True) (.node positiveNumber) ∧
      positiveNumber.constraints.1 = .valid { min := some (.int 0) } ∧
        positiveNumber.LeavesTrace 0 (.valued "greater_than" (.int 0) false) := by
  have hnumber : Builder.number.call [] = .ok (.node (.plain .number)) := rfl
  have hpositive : Method.positive.call (.plain .number) [] = .ok (.node positiveNumber) := rfl
  have hbuilt : BuiltFrom (fun _ => True) (.node positiveNumber) :=
    .call (.construct (by simp) hnumber) rfl (by simp) hpositive
  have hvalid : positiveNumber.constraints.1 = .valid { min := some (.int 0) } := rfl
  refine ⟨hbuilt, hvalid, leavesTrace_of_builtFrom hbuilt hvalid rfl fun h => ?_⟩
  cases h with
  | minimum hname => exact absurd hname (by decide)
  | maximum hname => exact absurd hname (by decide)
  | value _ h => cases h
  | pattern hname => exact absurd hname (by decide)
  | format hname => exact absurd hname (by decide)

end FormSchema
