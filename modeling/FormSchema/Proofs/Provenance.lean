import FormSchema.Proofs.Building
import FormSchema.Proofs.Restoring

/-!
# Where constraints come from

A member of the constraints of a node is set by one of its checks (`Check.Sets`), or by the
format it was built with; of several checks that set it the last one counts (`lookup_membersSet`).
A sound node has only checks of its kind, so its constraints are those
that the expression of the kind can write (`Node.constraints_fits`). Their numbers are read from
what the checks were given (`Node.constraints_numbers`), their pattern is that of a check
(`Node.constraints_pattern`).
-/

namespace FormSchema

/-! ## What a check sets -/

/-- The datum is a number that the check was given for a bound or a length. -/
def Check.Gives (c : Check) (d : Datum) : Prop :=
  (∃ n ∈ c.minimum, d = .number n) ∨ (∃ n ∈ c.maximum, d = .number n) ∨
    (c.name ≠ "string_format" ∧ d = c.value.scalar)

/-- The members that the checks of a kind set. -/
def Kind.constraintNames : Kind → List String
  | .string _ => ["min_length", "max_length", "pattern", "format"]
  | .number => ["min", "max", "step", "is_int"]
  | .array _ => ["min_items", "max_items"]
  | _ => []

theorem setsIf_eq_sets {member key : String} {o : Option Datum} {d : Datum}
    (h : Effect.setsIf member o = .sets key d) : member = key ∧ o = some d := by
  cases o with
  | none => cases h
  | some a =>
    cases h
    exact ⟨rfl, rfl⟩

/-- The ways in which a check sets a member. -/
inductive Check.Sets (collection : Bool) (c : Check) (key : String) (d : Datum) : Prop
  | minimum {n : Number} : c.name = "min_length" →
      key = (if collection then "min_items" else "min_length") → n ∈ c.minimum → d = .number n →
      c.Sets collection key d
  | maximum {n : Number} : c.name = "max_length" →
      key = (if collection then "max_items" else "max_length") → n ∈ c.maximum → d = .number n →
      c.Sets collection key d
  | value : (c.name, key) ∈ [("greater_than", "min"), ("less_than", "max"), ("multiple_of", "step")] →
      c.value ≠ .null → d = c.value.scalar → c.Sets collection key d
  | whole : c.name = "number_format" → key = "is_int" → d = .bool true → c.Sets collection key d
  | pattern {s : String} : c.name = "string_format" → key = "pattern" → s ∈ c.pattern →
      s.isEmpty = false → d = .text s → c.Sets collection key d
  | format {s : String} : c.name = "string_format" → key = "format" → s ∈ c.format →
      (StringFormat.ofName? s).isSome → d = .text s → c.Sets collection key d

theorem sets_of_formatEffect {c : Check} {key : String} {d : Datum} (collection : Bool)
    (hname : c.name = "string_format") (h : c.formatEffect = .sets key d) :
    c.Sets collection key d := by
  unfold Check.formatEffect at h
  split at h
  · rename_i s _ hpattern
    split at h
    · cases h
    · rename_i hne
      cases h
      exact .pattern hname rfl hpattern (Bool.eq_false_iff.2 hne) rfl
  · rename_i s hformat _
    split at h
    · rename_i hknown
      cases h
      exact .format hname rfl hformat hknown rfl
    · cases h
  · cases h

theorem sets_of_effect {collection : Bool} {c : Check} {key : String} {d : Datum}
    (h : c.effect collection = .sets key d) : c.Sets collection key d := by
  have hvalue {member : String}
      (hname : (c.name, member) ∈
        [("greater_than", "min"), ("less_than", "max"), ("multiple_of", "step")])
      (hset : Effect.setsIf member c.scalarValue? = .sets key d) : c.Sets collection key d := by
    obtain ⟨rfl, hd⟩ := setsIf_eq_sets hset
    unfold Check.scalarValue? at hd
    split at hd
    · cases hd
    · rename_i hne
      exact .value hname hne (Option.some.inj hd).symm
  unfold Check.effect at h
  split at h
  · rename_i hname
    obtain ⟨rfl, hd⟩ := setsIf_eq_sets h
    obtain ⟨n, hn, rfl⟩ := Option.map_eq_some_iff.1 hd
    exact .minimum hname rfl hn rfl
  · rename_i hname
    obtain ⟨rfl, hd⟩ := setsIf_eq_sets h
    obtain ⟨n, hn, rfl⟩ := Option.map_eq_some_iff.1 hd
    exact .maximum hname rfl hn rfl
  · rename_i hname
    exact sets_of_formatEffect collection hname h
  · rename_i hname
    exact hvalue (by simp [hname]) h
  · rename_i hname
    exact hvalue (by simp [hname]) h
  · rename_i hname
    split at h
    · cases h
      exact .whole hname rfl rfl
    · cases h
  · rename_i hname
    exact hvalue (by simp [hname]) h
  · cases h

namespace Check.Sets

variable {collection : Bool} {c : Check} {d : Datum}

theorem eq_true (h : c.Sets collection "is_int" d) : d = .bool true := by
  cases h with
  | minimum _ hkey => cases collection <;> simp at hkey
  | maximum _ hkey => cases collection <;> simp at hkey
  | value hkey => simp at hkey
  | whole _ _ hd => exact hd
  | pattern _ hkey => simp at hkey
  | format _ hkey => simp at hkey

theorem eq_pattern (h : c.Sets collection "pattern" d) :
    ∃ s ∈ c.pattern, s.isEmpty = false ∧ d = .text s := by
  cases h with
  | minimum _ hkey => cases collection <;> simp at hkey
  | maximum _ hkey => cases collection <;> simp at hkey
  | value hkey => simp at hkey
  | whole _ hkey => simp at hkey
  | pattern _ _ hs hne hd => exact ⟨_, hs, hne, hd⟩
  | format _ hkey => simp at hkey

/-- A bound is set by a check that is named for it. -/
theorem eq_bound {key : String} (h : c.Sets collection key d) (hkey : key = "min" ∨ key = "max") :
    (c.name = "greater_than" ∨ c.name = "less_than") ∧ d = c.value.scalar := by
  cases h with
  | minimum _ heq => cases collection <;> simp [heq] at hkey
  | maximum _ heq => cases collection <;> simp [heq] at hkey
  | value hname _ hd =>
    refine ⟨?_, hd⟩
    rcases hkey with rfl | rfl
    · exact .inl (by simpa using hname)
    · exact .inr (by simpa using hname)
  | whole _ heq | pattern _ heq | format _ heq => simp [heq] at hkey

end Check.Sets

/-- A check of a kind sets a member of the kind. -/
theorem key_mem_constraintNames {kind : Kind} {c : Check} {key : String} {d : Datum}
    (hname : c.name ∈ kind.checkNames)
    (h : c.effect (isCollectionTag kind.tag) = .sets key d) : key ∈ kind.constraintNames := by
  cases sets_of_effect h with
  | minimum hc hkey | maximum hc hkey =>
    rw [hc] at hname
    rw [hkey]
    cases kind <;> simp_all [Kind.checkNames, Kind.constraintNames, isCollectionTag, Kind.tag]
  | value hpair =>
    simp only [List.mem_cons, Prod.mk.injEq, List.not_mem_nil, or_false] at hpair
    rcases hpair with ⟨hc, rfl⟩ | ⟨hc, rfl⟩ | ⟨hc, rfl⟩ <;> rw [hc] at hname
    all_goals cases kind <;> simp_all [Kind.checkNames, Kind.constraintNames]
  | whole hc hkey | pattern hc hkey | format hc hkey =>
    rw [hc] at hname
    rw [hkey]
    cases kind <;> simp_all [Kind.checkNames, Kind.constraintNames]

/-! ## What a node sets -/

/-- The value that an effect sets a member to. -/
def Effect.value? (member : String) : Effect → Option Datum
  | .sets key d => if key = member then some d else none
  | _ => none

/-- The last value that effects set a member to. -/
def lastSet (member : String) (effects : List Effect) : Option Datum :=
  (effects.filterMap (Effect.value? member)).getLast?

/-- What is found under a member is the last value it was set to, or what was there before. -/
theorem lookup_membersSet (start : Entries) (effects : List Effect) (member : String) :
    (membersSet start effects).lookup member =
      (lastSet member effects).or (start.lookup member) := by
  induction effects generalizing start with
  | nil => rfl
  | cons e rest ih =>
    rw [membersSet, List.foldl_cons, ← membersSet, ih]
    unfold lastSet
    cases e with
    | sets key d =>
      dsimp only
      rw [lookup_putEntry]
      by_cases hkey : key = member
      · rw [List.filterMap_cons_some (b := d) (by rw [Effect.value?, if_pos hkey]), if_pos hkey.symm,
          List.getLast?_cons]
        cases (rest.filterMap (Effect.value? member)).getLast? <;> rfl
      · rw [List.filterMap_cons_none (by rw [Effect.value?, if_neg hkey]), if_neg (Ne.symm hkey)]
    | nothing => rfl
    | unknown name => rfl

theorem exists_effect_of_lastSet {member : String} {effects : List Effect} {d : Datum}
    (h : lastSet member effects = some d) : .sets member d ∈ effects := by
  obtain ⟨e, he, hvalue⟩ := List.mem_filterMap.1 (List.mem_of_getLast? h)
  unfold Effect.value? at hvalue
  split at hvalue
  · split at hvalue
    · rename_i hkey
      obtain rfl := Option.some.inj hvalue
      exact hkey ▸ he
    · cases hvalue
  · cases hvalue

theorem of_lookup_membersSet {start : Entries} {effects : List Effect} {key : String} {d : Datum}
    (h : (membersSet start effects).lookup key = some d) :
    start.lookup key = some d ∨ .sets key d ∈ effects := by
  rw [lookup_membersSet] at h
  cases hlast : lastSet key effects with
  | none =>
    rw [hlast, Option.none_or] at h
    exact .inl h
  | some e =>
    rw [hlast, Option.some_or] at h
    exact .inr (Option.some.inj h ▸ exists_effect_of_lastSet hlast)

/-- The members that a node sets by itself and by its checks. -/
def Node.members (n : Node) : Entries :=
  membersSet n.ownMembers n.effects

theorem Node.of_lookup_members {n : Node} {key : String} {d : Datum}
    (h : n.members.lookup key = some d) :
    (key = "format" ∧ ∃ format, n.kind = .string (some format)) ∨
      ∃ c ∈ n.checks, c.effect (isCollectionTag n.kind.tag) = .sets key d := by
  rcases of_lookup_membersSet h with hown | hset
  · left
    unfold Node.ownMembers at hown
    split at hown
    · rename_i format hkind
      split at hown
      · rw [lookup_entry] at hown
        split at hown
        · exact ⟨‹_›, format, hkind⟩
        · cases hown
      · cases hown
    · cases hown
  · obtain ⟨c, hc, heffect⟩ := List.mem_map.1 hset
    exact .inr ⟨c, hc, heffect⟩

/-- A node of a kind with checks of that kind sets members of the kind only. -/
theorem Node.mem_constraintNames {n : Node} {key : String} {d : Datum}
    (hchecks : ∀ c ∈ n.checks, c.name ∈ n.kind.checkNames)
    (h : n.members.lookup key = some d) : key ∈ n.kind.constraintNames := by
  rcases Node.of_lookup_members h with ⟨rfl, format, hkind⟩ | ⟨c, hc, heffect⟩
  · simp [hkind, Kind.constraintNames]
  · exact key_mem_constraintNames (hchecks c hc) heffect

/-! ## What is read -/

/-- Each constraint is read from a member. -/
structure Constraints.ReadFrom (c : Constraints) (es : Entries) : Prop where
  minLength : ∀ a ∈ c.minLength, ∃ d, es.lookup "min_length" = some d ∧ d.integer? = some a
  maxLength : ∀ a ∈ c.maxLength, ∃ d, es.lookup "max_length" = some d ∧ d.integer? = some a
  pattern : ∀ a ∈ c.pattern, ∃ d, es.lookup "pattern" = some d ∧ d.text? = some a
  format : ∀ a ∈ c.format, ∃ d, es.lookup "format" = some d ∧
    (d.text? >>= StringFormat.ofName?) = some a
  min : ∀ a ∈ c.min, ∃ d, es.lookup "min" = some d ∧ d.number? = some a
  max : ∀ a ∈ c.max, ∃ d, es.lookup "max" = some d ∧ d.number? = some a
  step : ∀ a ∈ c.step, ∃ d, es.lookup "step" = some d ∧ d.number? = some a
  isInt : ∀ a ∈ c.isInt, ∃ d, es.lookup "is_int" = some d ∧ d.truth? = some a
  minItems : ∀ a ∈ c.minItems, ∃ d, es.lookup "min_items" = some d ∧ d.integer? = some a
  maxItems : ∀ a ∈ c.maxItems, ∃ d, es.lookup "max_items" = some d ∧ d.integer? = some a

/-- Each constraint is what the record has under its name. -/
structure Constraints.IsRecord (c : Constraints) (es : Entries) : Prop where
  minLength : es.nullable "min_length" Datum.integer? = .valid c.minLength
  maxLength : es.nullable "max_length" Datum.integer? = .valid c.maxLength
  pattern : es.nullable "pattern" Datum.text? = .valid c.pattern
  format : es.nullable "format" (fun d => d.text? >>= StringFormat.ofName?) = .valid c.format
  min : es.nullable "min" Datum.number? = .valid c.min
  max : es.nullable "max" Datum.number? = .valid c.max
  step : es.nullable "step" Datum.number? = .valid c.step
  isInt : es.nullable "is_int" Datum.truth? = .valid c.isInt
  minItems : es.nullable "min_items" Datum.integer? = .valid c.minItems
  maxItems : es.nullable "max_items" Datum.integer? = .valid c.maxItems

theorem Constraints.isRecord_of_read {es : Entries} {c : Constraints}
    (h : Constraints.read es = .valid c) : c.IsRecord es := by
  simp only [Constraints.read, Checked.and_eq_valid] at h
  obtain ⟨_, _, ⟨_, _, ⟨_, _, ⟨_, _, ⟨_, _, ⟨_, _, ⟨_, _, ⟨_, _, ⟨_, _, ⟨_, _, hnew, hminLength, rfl⟩,
    hmaxLength, rfl⟩, hpattern, rfl⟩, hformat, rfl⟩, hmin, rfl⟩, hmax, rfl⟩, hstep, rfl⟩, hisInt,
    rfl⟩, hminItems, rfl⟩, hmaxItems, rfl⟩ := h
  cases hnew
  exact ⟨hminLength, hmaxLength, hpattern, hformat, nullable_of_nullableNumber hmin,
    nullable_of_nullableNumber hmax, nullable_of_nullableNumber hstep, hisInt, hminItems, hmaxItems⟩

theorem Constraints.readFrom_of_read {es : Entries} {c : Constraints}
    (h : Constraints.read es = .valid c) : c.ReadFrom es := by
  have hrecord := isRecord_of_read h
  exact ⟨nullable_eq_valid hrecord.minLength, nullable_eq_valid hrecord.maxLength,
    nullable_eq_valid hrecord.pattern, nullable_eq_valid hrecord.format,
    nullable_eq_valid hrecord.min, nullable_eq_valid hrecord.max, nullable_eq_valid hrecord.step,
    nullable_eq_valid hrecord.isInt, nullable_eq_valid hrecord.minItems,
    nullable_eq_valid hrecord.maxItems⟩

/-! ## Constraints of a kind -/

/-- The members of the constraints of a content. -/
def Content.constraintNames : Content → List String
  | .string => ["min_length", "max_length", "pattern", "format"]
  | .number => ["min", "max", "step", "is_int"]
  | .array _ => ["min_items", "max_items"]
  | _ => []

/-- Constraints that are read from members of the content can be written. -/
theorem Constraints.ReadFrom.fits {c : Constraints} {es : Entries} {content : Content}
    (h : c.ReadFrom es) (hkeys : ∀ key d, es.lookup key = some d → key ∈ content.constraintNames)
    (hint : ∀ d, es.lookup "is_int" = some d → d = .bool true) : content.Fits c := by
  have hnone {α : Type} {key : String} {R : Datum → α → Prop} {o : Option α}
      (ho : ∀ a ∈ o, ∃ d, es.lookup key = some d ∧ R d a) (hkey : key ∉ content.constraintNames) :
      o = none := by
    cases o with
    | none => rfl
    | some a =>
      obtain ⟨d, hd, -⟩ := ho a rfl
      exact absurd (hkeys key d hd) hkey
  have hall (hempty : content.constraintNames = []) : c = {} := by
    obtain ⟨_, _, _, _, _, _, _, _, _, _⟩ := c
    simp only [Constraints.mk.injEq]
    exact ⟨hnone h.minLength (by simp [hempty]), hnone h.maxLength (by simp [hempty]),
      hnone h.pattern (by simp [hempty]), hnone h.format (by simp [hempty]),
      hnone h.min (by simp [hempty]), hnone h.max (by simp [hempty]),
      hnone h.step (by simp [hempty]), hnone h.isInt (by simp [hempty]),
      hnone h.minItems (by simp [hempty]), hnone h.maxItems (by simp [hempty])⟩
  cases content with
  | string =>
    obtain ⟨_, _, _, _, _, _, _, _, _, _⟩ := c
    simp only [Content.Fits, Constraints.mk.injEq, true_and]
    exact ⟨hnone h.min (by decide), hnone h.max (by decide), hnone h.step (by decide),
      hnone h.isInt (by decide), hnone h.minItems (by decide), hnone h.maxItems (by decide)⟩
  | number =>
    refine ⟨?_, fun hfalse => ?_⟩
    · obtain ⟨_, _, _, _, _, _, _, _, _, _⟩ := c
      simp only [Constraints.mk.injEq, true_and]
      exact ⟨hnone h.minLength (by decide), hnone h.maxLength (by decide),
        hnone h.pattern (by decide), hnone h.format (by decide), hnone h.minItems (by decide),
        hnone h.maxItems (by decide)⟩
    · obtain ⟨d, hd, htruth⟩ := h.isInt false hfalse
      rw [hint d hd] at htruth
      cases htruth
  | array element =>
    obtain ⟨_, _, _, _, _, _, _, _, _, _⟩ := c
    simp only [Content.Fits, Constraints.mk.injEq, and_true]
    have hother {key : String} (h : key ∉ ["min_items", "max_items"]) :
        key ∉ (Content.array element).constraintNames := h
    exact ⟨hnone h.minLength (hother (by decide)), hnone h.maxLength (hother (by decide)),
      hnone h.pattern (hother (by decide)), hnone h.format (hother (by decide)),
      hnone h.min (hother (by decide)), hnone h.max (hother (by decide)),
      hnone h.step (hother (by decide)), hnone h.isInt (hother (by decide))⟩
  | _ => exact hall rfl

theorem fits_empty (content : Content) : content.Fits {} := by
  cases content <;> simp [Content.Fits]

/-- The content that a node has by its plan has the members of its kind. -/
theorem constraintNames_of_plan {n : Node} {plan : Plan} {path : String} {content : Content}
    {warnings : List String} (hplan : n.plan = .ok plan)
    (hread : (plan.read path).run = .ok (content, warnings)) (hfixed : n.isFixed = false)
    (hbare : ∀ tag, n.kind ≠ .bare tag) : n.kind.constraintNames = content.constraintNames := by
  obtain ⟨kind, checks, description⟩ := n
  cases kind with
  | string | number | boolean | date =>
    cases hplan
    cases hread
    rfl
  | enum entries =>
    cases hplan
    cases entries with
    | nil => cases hread
    | cons =>
      cases hread
      rfl
  | literal values =>
    obtain rfl : values = [] := by simpa [Node.isFixed] using hfixed
    cases hplan
    cases hread
  | object | array | tuple | record | union =>
    cases hplan
    obtain ⟨a, -, rfl⟩ := Warned.of_return hread
    rfl
  | intersection left right =>
    obtain ⟨shape, -, rfl⟩ | ⟨-, rfl⟩ := plan_intersection hplan
    · obtain ⟨a, -, rfl⟩ := Warned.of_return hread
      rfl
    · cases hread
  | bare tag => exact absurd rfl (hbare tag)
  | _ =>
    cases hplan
    cases hread

/-! ## Constraints of a node -/

theorem of_fieldConstraints {n : Node} {path : String} {c : Constraints} {warnings : List String}
    (h : (n.fieldConstraints path).run = .ok (c, warnings)) :
    (n.isFixed = true ∧ c = {}) ∨ (n.isFixed = false ∧ c.ReadFrom n.members) := by
  unfold Node.fieldConstraints at h
  split at h
  · rename_i hfixed
    cases h
    exact .inl ⟨hfixed, rfl⟩
  · rename_i hfixed
    right
    refine ⟨by simpa using hfixed, Constraints.readFrom_of_read ?_⟩
    simp only [Warned.run_bind, Warned.run_ofResult] at h
    obtain ⟨constraints, _, _, ⟨hvalid, -⟩, ⟨_, _, _, -, hpure, -⟩, -⟩ := h
    cases hpure
    show n.constraints.1 = _
    cases hread : n.constraints.1 with
    | valid a => simpa [hread, Checked.toResult] using hvalid
    | invalid e => simp [hread, Checked.toResult] at hvalid

/-- The constraints of a node are those that the expression of its content can write. -/
theorem Node.constraints_fits {n : Node} {plan : Plan} {path : String} {content : Content}
    {c : Constraints} {first second : List String}
    (hbare : ∀ tag, n.kind = .bare tag → n.checks = [])
    (hchecks : (∃ tag, n.kind = .bare tag) ∨ ∀ check ∈ n.checks, check.name ∈ n.kind.checkNames)
    (hplan : n.plan = .ok plan) (hread : (plan.read path).run = .ok (content, first))
    (hc : (n.fieldConstraints path).run = .ok (c, second)) : content.Fits c := by
  rcases of_fieldConstraints hc with ⟨-, rfl⟩ | ⟨hfixed, hfrom⟩
  · exact fits_empty content
  · refine hfrom.fits (fun key d hd => ?_) fun d hd => ?_
    · rcases hchecks with ⟨tag, htag⟩ | hchecks
      · rcases Node.of_lookup_members hd with ⟨-, format, hkind⟩ | ⟨check, hcheck, -⟩
        · rw [htag] at hkind
          cases hkind
        · rw [hbare tag htag] at hcheck
          cases hcheck
      · by_cases htag : ∃ tag, n.kind = .bare tag
        · obtain ⟨tag, htag⟩ := htag
          have hmem := Node.mem_constraintNames hchecks hd
          rw [htag] at hmem
          cases hmem
        · rw [← constraintNames_of_plan hplan hread hfixed fun tag ht => htag ⟨tag, ht⟩]
          exact Node.mem_constraintNames hchecks hd
    · rcases Node.of_lookup_members hd with ⟨hkey, -⟩ | ⟨check, -, heffect⟩
      · simp at hkey
      · rw [(sets_of_effect heffect).eq_true]

/-- The number is read from the datum, as an integer or as a number. -/
def Datum.Reads (d : Datum) (k : Number) : Prop :=
  d.number? = some k ∨ ∃ i, d.integer? = some i ∧ k = .int i

theorem gives_of_sets {collection : Bool} {c : Check} {key : String} {d : Datum}
    (h : c.effect collection = .sets key d) (hkey : key ∉ ["is_int", "pattern", "format"]) :
    c.Gives d := by
  cases sets_of_effect h with
  | minimum _ _ hn hd => exact .inl ⟨_, hn, hd⟩
  | maximum _ _ hn hd => exact .inr (.inl ⟨_, hn, hd⟩)
  | value hname _ hd =>
    refine .inr (.inr ⟨fun hformat => ?_, hd⟩)
    rw [hformat] at hname
    simp at hname
  | whole _ heq | pattern _ heq | format _ heq => simp [heq] at hkey

/-- The numbers of the constraints are read from what checks were given. -/
theorem Node.constraints_numbers {n : Node} {c : Constraints} (h : c.ReadFrom n.members)
    (content : Content) :
    ∀ k ∈ content.numbers c, ∃ check ∈ n.checks, ∃ d, check.Gives d ∧ d.Reads k := by
  have hgiven {key : String} {d : Datum} (hd : n.members.lookup key = some d)
      (hkey : key ∉ ["is_int", "pattern", "format"]) : ∃ check ∈ n.checks, check.Gives d := by
    rcases Node.of_lookup_members hd with ⟨rfl, -⟩ | ⟨check, hcheck, heffect⟩
    · simp at hkey
    · exact ⟨check, hcheck, gives_of_sets heffect hkey⟩
  have hinteger {key : String} {o : Option Int}
      (ho : ∀ a ∈ o, ∃ d, n.members.lookup key = some d ∧ d.integer? = some a)
      (hkey : key ∉ ["is_int", "pattern", "format"]) :
      ∀ a ∈ o, ∃ check ∈ n.checks, ∃ d, check.Gives d ∧ d.Reads (.int a) := by
    intro a ha
    obtain ⟨d, hd, hread⟩ := ho a ha
    obtain ⟨check, hcheck, hgives⟩ := hgiven hd hkey
    exact ⟨check, hcheck, d, hgives, .inr ⟨a, hread, rfl⟩⟩
  have hnumber {key : String} {o : Option Number}
      (ho : ∀ a ∈ o, ∃ d, n.members.lookup key = some d ∧ d.number? = some a)
      (hkey : key ∉ ["is_int", "pattern", "format"]) :
      ∀ a ∈ o, ∃ check ∈ n.checks, ∃ d, check.Gives d ∧ d.Reads a := by
    intro a ha
    obtain ⟨d, hd, hread⟩ := ho a ha
    obtain ⟨check, hcheck, hgives⟩ := hgiven hd hkey
    exact ⟨check, hcheck, d, hgives, .inl hread⟩
  intro k hk
  cases content with
  | string =>
    simp only [Content.numbers, List.mem_map, List.mem_append, Option.mem_toList] at hk
    obtain ⟨a, ha | ha, rfl⟩ := hk
    · exact hinteger h.minLength (by decide) a ha
    · exact hinteger h.maxLength (by decide) a ha
  | number =>
    simp only [Content.numbers, List.mem_append, Option.mem_toList] at hk
    rcases hk with (hk | hk) | hk
    · exact hnumber h.min (by decide) k hk
    · exact hnumber h.max (by decide) k hk
    · exact hnumber h.step (by decide) k hk
  | array element =>
    simp only [Content.numbers, List.mem_map, List.mem_append, Option.mem_toList] at hk
    obtain ⟨a, ha | ha, rfl⟩ := hk
    · exact hinteger h.minItems (by decide) a ha
    · exact hinteger h.maxItems (by decide) a ha
  | _ => cases hk

/-- The pattern of the constraints is that of a check. -/
theorem Node.constraints_pattern {n : Node} {c : Constraints} (h : c.ReadFrom n.members) :
    ∀ s ∈ c.pattern, s.isEmpty = false ∧ ∃ check ∈ n.checks, check.pattern = some s := by
  intro s hs
  obtain ⟨d, hd, htext⟩ := h.pattern s hs
  rcases Node.of_lookup_members hd with ⟨hkey, -⟩ | ⟨check, hcheck, heffect⟩
  · simp at hkey
  · obtain ⟨t, ht, hne, rfl⟩ := (sets_of_effect heffect).eq_pattern
    cases htext
    exact ⟨hne, check, hcheck, ht⟩

/-- The pattern of a field is not empty, and satisfies what those of the checks do. -/
theorem pattern_of_fieldConstraints {P : String → Prop} {n : Node} {path : String} {c : Constraints}
    {warnings : List String} (h : ∀ check ∈ n.checks, ∀ s ∈ check.pattern, P s)
    (hc : (n.fieldConstraints path).run = .ok (c, warnings)) :
    ∀ s ∈ c.pattern, s.isEmpty = false ∧ P s := by
  rcases of_fieldConstraints hc with ⟨-, rfl⟩ | ⟨-, hfrom⟩
  · rintro _ ⟨⟩
  · intro s hs
    obtain ⟨hne, check, hcheck, hsame⟩ := Node.constraints_pattern hfrom s hs
    exact ⟨hne, h check hcheck s hsame⟩

end FormSchema
