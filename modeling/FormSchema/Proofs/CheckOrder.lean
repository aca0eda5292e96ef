import FormSchema.Proofs.Traces

/-!
# The order of checks

Each check of a node sets one member of its constraints, or none, or is reported because its name
is not known. Two checks get in each other's way (`Effect.Clashes`) if they set the same member or
are both reported; any other two that stand side by side may change places. So what counts is
which check is the last to set a member (`Node.lastCheck?`), and in which order the checks stand
that are not known (`Node.strangeChecks`): nodes that agree on these have the same constraints and
report the same names (`constraints_checkOrder`). The format that a string was built with counts
only if no check sets the format.

One name may set one of two members: a `string_format` sets the pattern or the format, and the
lengths of a collection are counted in items.
-/

namespace FormSchema

/-- Two effects get in each other's way: they set the same member, or both report a name. -/
def Effect.Clashes : Effect → Effect → Prop
  | .sets first _, .sets second _ => first = second
  | .unknown _, .unknown _ => True
  | _, _ => False

/-- The last check of the node that sets a member. -/
def Node.lastCheck? (n : Node) (member : String) : Option Check :=
  (n.checks.filter fun c => ((n.effectOf c).value? member).isSome).getLast?

/-- Two nodes agree on the checks that count: on the last one of each member, on the format they
were built with if no check sets the format, and on those that are not known. -/
structure Node.Agrees (n m : Node) : Prop where
  last : ∀ member, n.lastCheck? member = m.lastCheck? member
  own : n.lastCheck? "format" = none → n.ownMembers = m.ownMembers
  strange : n.strangeChecks = m.strangeChecks

/-! ## What is read -/

theorem nullable_congr {α : Type} {es es' : Entries} (h : ∀ key, es.lookup key = es'.lookup key)
    (name : String) (read : Datum → Option α) : es.nullable name read = es'.nullable name read := by
  unfold Entries.nullable
  rw [h]

theorem nullableNumber_congr {es es' : Entries} (h : ∀ key, es.lookup key = es'.lookup key)
    (name : String) : es.nullableNumber name = es'.nullableNumber name := by
  unfold Entries.nullableNumber
  rw [nullable_congr h]

/-- Constraints depend on what is found under each name. -/
theorem Constraints.read_congr {es es' : Entries} (h : ∀ key, es.lookup key = es'.lookup key) :
    Constraints.read es = Constraints.read es' := by
  simp only [Constraints.read, nullable_congr h, nullableNumber_congr h]

/-- A node has the constraints of another if it sets each member to the same value and reports the
same names. -/
theorem Node.constraints_congr {n m : Node}
    (hmembers : ∀ key, n.members.lookup key = m.members.lookup key)
    (hunknown : unknownNames n.effects = unknownNames m.effects) :
    n.constraints = m.constraints :=
  Prod.ext (Constraints.read_congr hmembers) hunknown

/-! ## Neighbours -/

theorem filterMap_swap {α β : Type} {f : α → Option β} {a b : α} (h : f a = none ∨ f b = none)
    (before after : List α) :
    (before ++ b :: a :: after).filterMap f = (before ++ a :: b :: after).filterMap f := by
  simp only [List.filterMap_append, List.filterMap_cons]
  rcases h with h | h <;> simp [h]

theorem value?_of_not_clashes {a b : Effect} (h : ¬a.Clashes b) (member : String) :
    a.value? member = none ∨ b.value? member = none := by
  cases a with
  | sets first x =>
    cases b with
    | sets second y =>
      by_cases hfirst : first = member
      · exact .inr (if_neg fun hsecond => h (hfirst.trans hsecond.symm))
      · exact .inl (if_neg hfirst)
    | nothing | unknown name => exact .inr rfl
  | nothing | unknown name => exact .inl rfl

theorem unknownNames_swap {a b : Effect} (h : ¬a.Clashes b) (before after : List Effect) :
    unknownNames (before ++ b :: a :: after) = unknownNames (before ++ a :: b :: after) := by
  refine filterMap_swap ?_ before after
  cases a with
  | unknown name =>
    cases b with
    | unknown other => exact absurd trivial h
    | sets member y | nothing => exact .inr rfl
  | sets member x | nothing => exact .inl rfl

/-- Two checks that stand side by side and are not in each other's way may change places. -/
theorem Node.constraints_swap {n : Node} {before after : List Check} {a b : Check}
    (hchecks : n.checks = before ++ a :: b :: after)
    (h : ¬(n.effectOf a).Clashes (n.effectOf b)) :
    ({ n with checks := before ++ b :: a :: after } : Node).constraints = n.constraints := by
  have heffects : n.effects =
      before.map n.effectOf ++ n.effectOf a :: n.effectOf b :: after.map n.effectOf := by
    rw [Node.effects, hchecks]
    simp only [List.map_append, List.map_cons]
    rfl
  have hswapped : ({ n with checks := before ++ b :: a :: after } : Node).effects =
      before.map n.effectOf ++ n.effectOf b :: n.effectOf a :: after.map n.effectOf := by
    rw [Node.effects]
    simp only [List.map_append, List.map_cons]
    rfl
  refine Node.constraints_congr (fun key => ?_) ?_
  · have hlast : lastSet key ({ n with checks := before ++ b :: a :: after } : Node).effects =
        lastSet key n.effects := by
      rw [lastSet, lastSet, heffects, hswapped, filterMap_swap (value?_of_not_clashes h key)]
    rw [Node.members, Node.members, lookup_membersSet, lookup_membersSet, hlast]
    rfl
  · rw [heffects, hswapped, unknownNames_swap h]

/-! ## The checks that count -/

theorem getLast?_filterMap {α β : Type} (f : α → Option β) (l : List α) :
    (l.filterMap f).getLast? = (l.filter fun a => (f a).isSome).getLast?.bind f := by
  induction l using List.reverseRecOn with
  | nil => rfl
  | append_singleton l a ih =>
    rw [List.filterMap_append, List.filter_append]
    cases ha : f a with
    | none => simpa [ha] using ih
    | some b => simp [ha]

/-- The value that a member has is that of the last check that sets it. -/
theorem lastSet_effects (n : Node) (member : String) :
    lastSet member n.effects =
      (n.lastCheck? member).bind fun c => (n.effectOf c).value? member := by
  rw [lastSet, Node.effects, List.filterMap_map, getLast?_filterMap]
  rfl

theorem sets_of_lastCheck? {n : Node} {member : String} {c : Check}
    (h : n.lastCheck? member = some c) : ∃ d, n.effectOf c = .sets member d := by
  obtain ⟨d, hd⟩ := Option.isSome_iff_exists.1 (List.mem_filter.1 (List.mem_of_getLast? h)).2
  refine ⟨d, ?_⟩
  unfold Effect.value? at hd
  split at hd
  · rename_i heffect
    split at hd
    · rename_i hkey
      rw [heffect, hkey, Option.some.inj hd]
    · cases hd
  · cases hd

/-- The value that a check sets does not depend on the node; which length it sets does. -/
theorem sets_value {collection : Bool} {c : Check} {member : String} {d : Datum}
    (h : c.effect collection = .sets member d) (other : Bool) :
    ∃ key, c.effect other = .sets key d := by
  unfold Check.effect at h ⊢
  split at h
  · exact ⟨_, by rw [(setsIf_eq_sets h).2]; rfl⟩
  · exact ⟨_, by rw [(setsIf_eq_sets h).2]; rfl⟩
  all_goals exact ⟨member, h⟩

/-- All that a node sets by itself is the format. -/
theorem lookup_ownMembers_of_ne {n : Node} {key : String} (h : key ≠ "format") :
    n.ownMembers.lookup key = none := by
  unfold Node.ownMembers
  split
  · split
    · rw [lookup_entry, if_neg h, List.lookup_nil]
    · rfl
  · rfl

/-- Nodes that agree on the checks that count set each member to the same value. -/
theorem Node.Agrees.lookup_members {n m : Node} (h : n.Agrees m) (key : String) :
    n.members.lookup key = m.members.lookup key := by
  have hlast : lastSet key n.effects = lastSet key m.effects := by
    rw [lastSet_effects, lastSet_effects, h.last key]
    cases hc : m.lastCheck? key with
    | none => rfl
    | some c =>
      obtain ⟨d, hd⟩ := sets_of_lastCheck? ((h.last key).trans hc)
      obtain ⟨e, he⟩ := sets_of_lastCheck? hc
      obtain ⟨_, hd'⟩ := sets_value hd (isCollectionTag m.tag)
      obtain ⟨rfl, rfl⟩ : _ ∧ d = e := Effect.sets.inj (hd'.symm.trans he)
      rw [Option.bind_some, Option.bind_some, hd, he]
  rw [Node.members, Node.members, lookup_membersSet, lookup_membersSet, hlast]
  by_cases hformat : key = "format"
  · subst hformat
    cases hc : n.lastCheck? "format" with
    | none => rw [h.own hc]
    | some c =>
      obtain ⟨d, hd⟩ := sets_of_lastCheck? hc
      have hsome : lastSet "format" m.effects = some d := by
        rw [← hlast, lastSet_effects, hc, Option.bind_some, hd]
        rfl
      rw [hsome, Option.some_or, Option.some_or]
  · rw [lookup_ownMembers_of_ne hformat, lookup_ownMembers_of_ne hformat]

/-- Two checks of a node that stand side by side, set different members and are not both unknown
may change places: the constraints stay, and so do the names that are reported. And nodes that
agree on the checks that count have the same constraints and report the same names. -/
theorem constraints_checkOrder (n : Node) :
    (∀ (before after : List Check) (a b : Check), n.checks = before ++ a :: b :: after →
        ¬(n.effectOf a).Clashes (n.effectOf b) →
        ({ n with checks := before ++ b :: a :: after } : Node).constraints = n.constraints) ∧
      ∀ m : Node, n.Agrees m → n.constraints = m.constraints := by
  refine ⟨fun before after a b hchecks hclash => Node.constraints_swap hchecks hclash,
    fun m hagrees => Node.constraints_congr hagrees.lookup_members ?_⟩
  calc unknownNames n.effects
      = n.strangeChecks := unknownNames_effects _ n.checks
    _ = m.strangeChecks := hagrees.strange
    _ = unknownNames m.effects := (unknownNames_effects _ m.checks).symm

/-- A text that was built as an address of mail and then took a pattern and two formats. -/
def formattedText : Node :=
  { kind := .string (some "email")
    checks := [.regex (some "a+"), .stringFormat "cuid" .null, .stringFormat "url" .null,
      .named "lowercase"]
    description := .null }

/-- A text with the last of these formats only, the checks the other way round. -/
def plainText : Node :=
  { kind := .string none
    checks := [.named "lowercase", .stringFormat "url" .null, .regex (some "a+")]
    description := .null }

theorem lastCheck?_eq_none {n : Node} {member : String}
    (h : ∀ c ∈ n.checks, (n.effectOf c).value? member = none) : n.lastCheck? member = none := by
  rw [Node.lastCheck?, List.filter_eq_nil_iff.2 fun c hc => by simp [h c hc], List.getLast?_nil]

theorem agrees_plainText : formattedText.Agrees plainText := by
  refine ⟨fun member => ?_, (nomatch ·), rfl⟩
  by_cases hpattern : "pattern" = member
  · subst hpattern
    rfl
  by_cases hformat : "format" = member
  · subst hformat
    rfl
  rw [lastCheck?_eq_none (n := formattedText), lastCheck?_eq_none (n := plainText)]
  · rintro c (_ | ⟨_, _ | ⟨_, _ | ⟨_, ⟨⟩⟩⟩⟩)
    exacts [rfl, if_neg hformat, if_neg hpattern]
  · rintro c (_ | ⟨_, _ | ⟨_, _ | ⟨_, _ | ⟨_, ⟨⟩⟩⟩⟩⟩)
    exacts [if_neg hpattern, if_neg hformat, if_neg hformat, rfl]

/-- In the text the pattern and the first format may change places, and the text without what later
checks cover has the same constraints. -/
theorem constraints_checkOrder_formattedText :
    formattedText.constraints =
        (.valid { pattern := some "a+", format := some .url }, ["lowercase"]) ∧
      ({ formattedText with
          checks := [.stringFormat "cuid" .null, .regex (some "a+"), .stringFormat "url" .null,
            .named "lowercase"] } : Node).constraints = formattedText.constraints ∧
      formattedText.constraints = plainText.constraints :=
  ⟨rfl, (constraints_checkOrder formattedText).1 [] [.stringFormat "url" .null, .named "lowercase"]
      _ _ rfl fun h => absurd (show "pattern" = "format" from h) (by decide),
    (constraints_checkOrder formattedText).2 plainText agrees_plainText⟩

end FormSchema
