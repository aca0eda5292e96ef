import FormSchema.Proofs.Origin
import FormSchema.Proofs.Provenance

/-!
# When constraints can be read

The constraints of a node are read from what its checks set, and of several checks that set one
member the last one counts (`lookup_membersSet`). A check may be given more than a member takes: a
length may be a number that is no integer, and a bound may be anything. So reading may fail, and
it does so exactly if the last length or the last bound of some kind does not fit; the failure names
the members that do not (`Node.constraints_failsAt`). The other members are only set to what they
take (`takes_of_sets`).

A node that is shown at any depth of a form became a field of its own (`exists_field_of_shows`), so
one whose constraints cannot be read makes the whole walk fail.
-/

namespace FormSchema

/-! ## Records that are read -/

namespace Checked

variable {α β : Type}

/-- Nothing failed. -/
def IsValid (c : Checked α) : Prop :=
  ∃ a, c = .valid a

/-- The names of the members that failed. -/
def failed : Checked α → List String
  | .valid _ => []
  | .invalid members => members

/-- The members that satisfy the predicate are those that fail, and nothing else fails. -/
structure FailsAt (c : Checked α) (P : String → Prop) : Prop where
  isValid_iff : c.IsValid ↔ ∀ member, ¬P member
  mem_failed_iff : ∀ member, member ∈ c.failed ↔ P member

theorem failsAt_valid (a : α) : (valid a).FailsAt fun _ => False :=
  ⟨by simp [IsValid], by simp [failed]⟩

theorem FailsAt.and {f : Checked (α → β)} {a : Checked α} {P Q : String → Prop}
    (hf : f.FailsAt P) (ha : a.FailsAt Q) :
    (f.and a).FailsAt fun member => P member ∨ Q member := by
  constructor
  · have hboth : (f.and a).IsValid ↔ f.IsValid ∧ a.IsValid := by
      cases f <;> cases a <;> simp [IsValid, Checked.and]
    rw [hboth, hf.isValid_iff, ha.isValid_iff, ← forall_and]
    simp only [not_or]
  · intro member
    have hboth : (f.and a).failed = f.failed ++ a.failed := by
      cases f <;> cases a <;> simp [failed, Checked.and]
    rw [hboth, List.mem_append, hf.mem_failed_iff, ha.mem_failed_iff]

theorem FailsAt.congr {c : Checked α} {P Q : String → Prop} (h : c.FailsAt P)
    (hiff : ∀ member, P member ↔ Q member) : c.FailsAt Q := by
  obtain rfl : P = Q := funext fun member => propext (hiff member)
  exact h

end Checked

/-- What the entries have under a name can be read, if they have anything there. -/
def Entries.Allow {α : Type} (es : Entries) (name : String) (read : Datum → Option α) : Prop :=
  ∀ d, es.lookup name = some d → d = .null ∨ (read d).isSome

theorem nullable_cases {α : Type} (es : Entries) (name : String) (read : Datum → Option α) :
    (es.Allow name read ∧ ∃ o, es.nullable name read = .valid o) ∨
      (¬es.Allow name read ∧ es.nullable name read = .invalid [name]) := by
  unfold Entries.nullable Entries.Allow
  split
  · rename_i h
    simp [h]
  · rename_i h
    simp [h]
  · rename_i d hnull h
    cases hread : read d with
    | none => exact .inr ⟨by simpa [h, hread] using hnull, by simp [Checked.ofOption, Checked.map]⟩
    | some a => simp [h, hread, Checked.ofOption, Checked.map]

/-- A member that may be missing fails under its own name, and only if it cannot be read. -/
theorem failsAt_nullable {α : Type} (es : Entries) (name : String) (read : Datum → Option α) :
    (es.nullable name read).FailsAt fun member => member = name ∧ ¬es.Allow name read := by
  rcases nullable_cases es name read with ⟨hallow, o, h⟩ | ⟨hallow, h⟩
  · exact ⟨by simp [h, hallow, Checked.IsValid], by simp [h, hallow, Checked.failed]⟩
  · exact ⟨by simp [h, hallow, Checked.IsValid], by simp [h, hallow, Checked.failed]⟩

theorem failsAt_nullableNumber (es : Entries) (name : String) :
    (es.nullableNumber name).FailsAt fun member =>
      member = name ∧ ¬es.Allow name Datum.number? := by
  unfold Entries.nullableNumber
  rcases nullable_cases es name Datum.number? with ⟨hallow, o, h⟩ | ⟨hallow, h⟩
  · exact ⟨by simp [h, hallow, Checked.IsValid], by simp [h, hallow, Checked.failed]⟩
  · exact ⟨by simp [h, hallow, Checked.IsValid], by simp [h, hallow, Checked.failed]⟩

/-! ## The members of constraints -/

/-- The members that hold lengths. -/
def lengthNames : List String :=
  ["min_length", "max_length", "min_items", "max_items"]

/-- The members that hold bounds and the step between them. -/
def boundNames : List String :=
  ["min", "max", "step"]

/-- Whether a member of constraints takes a datum that is not null. -/
def Constraints.takes (member : String) (d : Datum) : Bool :=
  match member with
  | "min_length" | "max_length" | "min_items" | "max_items" => d.integer?.isSome
  | "min" | "max" | "step" => d.number?.isSome
  | "pattern" => d.text?.isSome
  | "format" => (d.text? >>= StringFormat.ofName?).isSome
  | "is_int" => d.truth?.isSome
  | _ => true

/-- Constraints are read from entries unless a member has what it does not take. -/
theorem Constraints.read_failsAt (es : Entries) :
    (Constraints.read es).FailsAt fun member =>
      ∃ d, es.lookup member = some d ∧ d ≠ .null ∧ takes member d = false := by
  have hread := ((((((((((Checked.failsAt_valid Constraints.mk).and
    (failsAt_nullable es "min_length" Datum.integer?)).and
    (failsAt_nullable es "max_length" Datum.integer?)).and
    (failsAt_nullable es "pattern" Datum.text?)).and
    (failsAt_nullable es "format" fun d => d.text? >>= StringFormat.ofName?)).and
    (failsAt_nullableNumber es "min")).and
    (failsAt_nullableNumber es "max")).and
    (failsAt_nullableNumber es "step")).and
    (failsAt_nullable es "is_int" Datum.truth?)).and
    (failsAt_nullable es "min_items" Datum.integer?)).and
    (failsAt_nullable es "max_items" Datum.integer?)
  have hdeny {α : Type} {name : String} {read : Datum → Option α} : ¬es.Allow name read ↔
      ∃ d, es.lookup name = some d ∧ d ≠ .null ∧ (read d).isSome = false := by
    simp [Entries.Allow]
  refine hread.congr fun member => ?_
  simp only [hdeny, false_or]
  constructor
  · rintro (((((((((⟨rfl, h⟩ | ⟨rfl, h⟩) | ⟨rfl, h⟩) | ⟨rfl, h⟩) | ⟨rfl, h⟩) | ⟨rfl, h⟩) |
      ⟨rfl, h⟩) | ⟨rfl, h⟩) | ⟨rfl, h⟩) | ⟨rfl, h⟩) <;> exact h
  · rintro ⟨d, hd, hnull, htakes⟩
    unfold takes at htakes
    split at htakes
    all_goals first
      | cases htakes
      | simp only [true_and, String.reduceEq, false_and, or_false, false_or]
        exact ⟨d, hd, hnull, htakes⟩

/-! ## What checks set -/

theorem scalar_ne_null {v : Value} (h : v ≠ .null) : v.scalar ≠ .null := by
  cases v <;> simp_all [Value.scalar]

/-- A check sets no member to nothing, and a member that is neither a length nor a bound only to
what it takes. -/
theorem takes_of_sets {collection : Bool} {c : Check} {member : String} {d : Datum}
    (h : c.effect collection = .sets member d) :
    d ≠ .null ∧ (member ∉ lengthNames → member ∉ boundNames →
      Constraints.takes member d = true) := by
  cases sets_of_effect h with
  | minimum _ hkey _ hd | maximum _ hkey _ hd =>
    rw [hkey, hd]
    exact ⟨by simp, fun hlength => absurd (by cases collection <;> decide) hlength⟩
  | value hname hnull hd =>
    rw [hd]
    refine ⟨scalar_ne_null hnull, fun _ hno => absurd ?_ hno⟩
    simp only [List.mem_cons, Prod.mk.injEq, List.not_mem_nil, or_false] at hname
    rcases hname with ⟨-, rfl⟩ | ⟨-, rfl⟩ | ⟨-, rfl⟩ <;> decide
  | whole _ hkey hd =>
    rw [hkey, hd]
    exact ⟨by simp, fun _ _ => rfl⟩
  | pattern _ hkey _ _ hd =>
    rw [hkey, hd]
    exact ⟨by simp, fun _ _ => rfl⟩
  | format _ hkey _ hknown hd =>
    rw [hkey, hd]
    exact ⟨by simp, fun _ _ => hknown⟩

/-- A node sets a member by itself only to what the member takes. -/
theorem takes_of_ownMembers {n : Node} {member : String} {d : Datum}
    (h : n.ownMembers.lookup member = some d) : Constraints.takes member d = true := by
  unfold Node.ownMembers at h
  split at h
  · split at h
    · rename_i hknown
      rw [lookup_entry] at h
      split at h
      · rename_i hmember
        obtain rfl := Option.some.inj h
        rw [hmember]
        exact hknown
      · cases h
    · cases h
  · cases h

/-! ## The constraints of a node -/

/-- The last value that the checks of a node set a member to does not fit: a length that is no
integer, or a bound that is no number. -/
def Node.Misfits (n : Node) (member : String) : Prop :=
  ∃ d, lastSet member n.effects = some d ∧
    ((member ∈ lengthNames ∧ d.integer? = none) ∨ (member ∈ boundNames ∧ d.number? = none))

theorem takes_length {member : String} (h : member ∈ lengthNames) (d : Datum) :
    Constraints.takes member d = d.integer?.isSome := by
  simp only [lengthNames, List.mem_cons, List.not_mem_nil, or_false] at h
  rcases h with rfl | rfl | rfl | rfl <;> rfl

theorem takes_bound {member : String} (h : member ∈ boundNames) (d : Datum) :
    Constraints.takes member d = d.number?.isSome := by
  simp only [boundNames, List.mem_cons, List.not_mem_nil, or_false] at h
  rcases h with rfl | rfl | rfl <;> rfl

/-- The constraints of a node fail at the members whose last value does not fit. -/
theorem Node.constraints_failsAt (n : Node) : n.constraints.1.FailsAt n.Misfits := by
  refine (Constraints.read_failsAt _).congr fun member => ?_
  rw [lookup_membersSet]
  constructor
  · rintro ⟨d, hd, -, htakes⟩
    cases hlast : lastSet member n.effects with
    | none =>
      rw [hlast, Option.none_or] at hd
      rw [takes_of_ownMembers hd] at htakes
      cases htakes
    | some e =>
      rw [hlast, Option.some_or] at hd
      obtain rfl := Option.some.inj hd
      refine ⟨e, hlast, ?_⟩
      by_cases hlength : member ∈ lengthNames
      · rw [takes_length hlength] at htakes
        exact .inl ⟨hlength, by simpa using htakes⟩
      · by_cases hbound : member ∈ boundNames
        · rw [takes_bound hbound] at htakes
          exact .inr ⟨hbound, by simpa using htakes⟩
        · obtain ⟨c, -, heffect⟩ := List.mem_map.1 (exists_effect_of_lastSet hlast)
          rw [(takes_of_sets heffect).2 hlength hbound] at htakes
          cases htakes
  · rintro ⟨d, hlast, hmisfit⟩
    obtain ⟨c, -, heffect⟩ := List.mem_map.1 (exists_effect_of_lastSet hlast)
    refine ⟨d, by rw [hlast, Option.some_or], (takes_of_sets heffect).1, ?_⟩
    rcases hmisfit with ⟨hlength, hread⟩ | ⟨hbound, hread⟩
    · rw [takes_length hlength, hread]
      rfl
    · rw [takes_bound hbound, hread]
      rfl

/-- What the last check sets counts, whatever was checked before. -/
theorem lastSet_withCheck {n : Node} {c : Check} {member : String} {d : Datum}
    (h : c.effect (isCollectionTag n.tag) = .sets member d) :
    lastSet member (n.withCheck c).effects = some d := by
  have heffects : (n.withCheck c).effects = n.effects ++ [.sets member d] := by
    rw [Node.effects, Node.withCheck, List.map_append, List.map_singleton]
    exact congrArg (fun e => n.effects ++ [e]) h
  rw [lastSet, heffects, List.filterMap_append]
  simp [Effect.value?]

/-- The least length of a text may be any number, so it may be one that does not fit. -/
theorem exists_misfit_of_min {n : Node} {format : Option String} {k : Number}
    (hn : n.kind = .string format) (hk : (Datum.number k).integer? = none) :
    ∃ m, Method.call n .min [.number k] = .ok (.node m) ∧ m.Misfits "min_length" := by
  obtain ⟨kind, checks, description⟩ := n
  obtain rfl : kind = .string format := hn
  exact ⟨_, rfl, .number k, lastSet_withCheck rfl, .inl ⟨by decide, hk⟩⟩

/-- The least number may be any value, so it may be one that does not fit. -/
theorem exists_misfit_of_min_number {n : Node} {v : Value} (hn : n.kind = .number)
    (hv : v ≠ .null) (hread : v.scalar.number? = none) :
    ∃ m, Method.call n .min [v] = .ok (.node m) ∧ m.Misfits "min" := by
  obtain ⟨kind, checks, description⟩ := n
  obtain rfl : kind = .number := hn
  refine ⟨_, rfl, v.scalar, lastSet_withCheck ?_, .inr ⟨by decide, hread⟩⟩
  have hvalue : (Check.valued "greater_than" v true).scalarValue? = some v.scalar := by
    cases v <;> first | rfl | exact absurd rfl hv
  exact congrArg (Effect.setsIf "min") hvalue

/-! ## Nodes that are shown -/

/-- Some step of the walk makes a field of the value. -/
def Value.BecomesField (v : Value) : Prop :=
  ∃ path name f warnings, (fieldOf path name v).run = .ok (f, warnings)

/-- The values of the fields that a member of a union becomes. -/
def variantValues (discriminator : Option String) (v : Value) : List Value :=
  match taggedShape? discriminator v with
  | .ok (some shape) => shape.map Prod.snd
  | _ => [v]

/-- The values of the fields right below that of a node with the plan. -/
def Plan.fieldValues : Plan → List Value
  | .union discriminator options => options.flatMap (variantValues discriminator)
  | plan => plan.values

/-- The members of a shape are smaller than the shape. -/
theorem member_size {shape : Shape} {v : Value} (h : v ∈ shape.map Prod.snd) :
    sizeOf v < sizeOf shape := by
  obtain ⟨⟨key, w⟩, he, rfl⟩ := List.mem_map.1 h
  have hlt := List.sizeOf_lt_of_mem he
  rw [Prod.mk.sizeOf_spec] at hlt
  show sizeOf w < _
  omega

theorem variantValues_size {discriminator : Option String} {o v : Value}
    (h : v ∈ variantValues discriminator o) : sizeOf v ≤ sizeOf o := by
  unfold variantValues at h
  split at h
  · rename_i hshape
    exact Nat.le_of_lt ((member_size h).trans (taggedShape_size hshape))
  · exact Nat.le_of_eq (congrArg sizeOf (List.mem_singleton.1 h))

theorem variantValues_inside {discriminator : Option String} {o v : Value}
    (h : v ∈ variantValues discriminator o) : v.Inside o := by
  unfold variantValues at h
  split at h
  · rename_i hshape
    obtain ⟨e, he, rfl⟩ := List.mem_map.1 h
    exact (inside_of_taggedShape hshape).members e he
  · obtain rfl := List.mem_singleton.1 h
    exact .self v

/-- The fields right below that of a value are made of smaller values inside it. -/
theorem fieldValues_below {v : Value} {p : Peeled} {plan : Plan} (hp : v.peel = .ok p)
    (hplan : p.node.plan = .ok plan) :
    ∀ w ∈ plan.fieldValues, sizeOf w < sizeOf v ∧ w.Inside v := by
  have hwithin := plan_within hplan
  have hsmaller := peel_size hp
  have hinside : ∀ w ∈ plan.values, w.Inside v := fun w hw =>
    (inside_of_plan hplan w hw).trans (inside_of_peel hp).1
  intro w hw
  cases plan with
  | object shape =>
    exact ⟨((member_size hw).le.trans hwithin).trans_lt hsmaller, hinside w hw⟩
  | array element =>
    obtain rfl := List.mem_singleton.1 hw
    exact ⟨hwithin.trans_lt hsmaller, hinside w hw⟩
  | tuple items =>
    exact ⟨((List.sizeOf_lt_of_mem hw).le.trans hwithin).trans_lt hsmaller, hinside w hw⟩
  | record value =>
    obtain rfl := List.mem_singleton.1 hw
    exact ⟨hwithin.trans_lt hsmaller, hinside w hw⟩
  | union discriminator options =>
    obtain ⟨o, ho, hw⟩ := List.mem_flatMap.1 hw
    have hoption := (variantValues_size hw).trans (List.sizeOf_lt_of_mem ho).le
    exact ⟨(hoption.trans hwithin).trans_lt hsmaller, (variantValues_inside hw).trans (hinside o ho)⟩
  | leaf | hollow | refused => cases hw

/-- The node stands at the end of the wrappers and pipes of the value, or at that of a value below
it that becomes a field of its own. -/
inductive Value.Shows : Value → Node → Prop
  | self {v : Value} {p : Peeled} (hp : v.peel = .ok p) : v.Shows p.node
  | deeper {v w : Value} {p : Peeled} {plan : Plan} {n : Node} (hp : v.peel = .ok p)
      (hplan : p.node.plan = .ok plan) (hw : w ∈ plan.fieldValues) (h : w.Shows n) : v.Shows n

/-- The node is shown by a member of the root. -/
def Value.ShowsBelow (schema : Value) (n : Node) : Prop :=
  ∃ shape, schema.shape? = .ok (some shape) ∧ ∃ e ∈ shape, e.2.Shows n

theorem fieldsOf_becomeFields {path : String} : ∀ {shape : Shape} {fields : List Field}
    {warnings : List String}, (fieldsOf path shape).run = .ok (fields, warnings) →
      ∀ e ∈ shape, e.2.BecomesField
  | [], _, _, _ => by simp
  | (name, v) :: rest, _, _, h => by
    obtain ⟨f, first, others, more, hf, hothers, -, -⟩ := fieldsOf_cons.1 h
    exact List.forall_mem_cons.2 ⟨⟨_, _, f, first, hf⟩, fieldsOf_becomeFields hothers⟩

theorem elementsOf_becomeFields {path : String} : ∀ {items : List Value} {index : Nat}
    {fields : List Field} {warnings : List String},
    (elementsOf path index items).run = .ok (fields, warnings) → ∀ v ∈ items, v.BecomesField
  | [], _, _, _, _ => by simp
  | v :: rest, _, _, _, h => by
    obtain ⟨f, first, others, more, hf, hothers, -⟩ := elementsOf_cons h
    exact List.forall_mem_cons.2 ⟨⟨_, _, f, first, hf⟩, elementsOf_becomeFields hothers⟩

theorem variantOf_becomeFields {path : String} {discriminator : Option String} {index : Nat}
    {v : Value} {variant : Variant} {warnings : List String}
    (h : (variantOf path discriminator index v).run = .ok (variant, warnings)) :
    ∀ w ∈ variantValues discriminator v, w.BecomesField := by
  unfold variantValues
  rcases variantOf_cases h with ⟨shape, _, _, hshape, -, hfields, -⟩ | ⟨f, more, hnone, hf, -⟩
  · rw [hshape]
    exact List.forall_mem_map.2 (fieldsOf_becomeFields hfields)
  · rw [hnone]
    exact List.forall_mem_singleton.2 ⟨_, _, f, more, hf⟩

theorem variantsOf_becomeFields {path : String} {discriminator : Option String} :
    ∀ {options : List Value} {index : Nat} {variants : List Variant} {warnings : List String},
      (variantsOf path discriminator index options).run = .ok (variants, warnings) →
        ∀ v ∈ options, ∀ w ∈ variantValues discriminator v, w.BecomesField
  | [], _, _, _, _ => by simp
  | v :: rest, _, _, _, h => by
    obtain ⟨variant, first, others, more, hv, hothers, -⟩ := variantsOf_cons h
    exact List.forall_mem_cons.2 ⟨variantOf_becomeFields hv, variantsOf_becomeFields hothers⟩

/-- What is read by a plan made fields of all the values that the plan has for them. -/
theorem Plan.fieldValues_becomeFields {path : String} {plan : Plan} {content : Content}
    {warnings : List String} (h : (plan.read path).run = .ok (content, warnings)) :
    ∀ v ∈ plan.fieldValues, v.BecomesField := by
  cases Plan.makes_of_read h with
  | leaf => simp [Plan.fieldValues, Plan.values]
  | object hfields => exact List.forall_mem_map.2 (fieldsOf_becomeFields hfields)
  | array hf => exact List.forall_mem_singleton.2 ⟨_, _, _, _, hf⟩
  | tuple hfields => exact elementsOf_becomeFields hfields
  | record hf => exact List.forall_mem_singleton.2 ⟨_, _, _, _, hf⟩
  | union hvariants =>
    intro w hw
    obtain ⟨v, hv, hw⟩ := List.mem_flatMap.1 hw
    exact variantsOf_becomeFields hvariants v hv w hw

/-- Unless its plan is refused, a node that becomes a field has its constraints and its content
read. -/
theorem reads_of_becomesField {v : Value} {p : Peeled} {plan : Plan} (h : v.BecomesField)
    (hp : v.peel = .ok p) (hplan : p.node.plan = .ok plan) :
    (∃ reason, plan = .refused reason) ∨ ∃ path c content first second,
      (p.node.fieldConstraints path).run = .ok (c, first) ∧
        (plan.read path).run = .ok (content, second) := by
  obtain ⟨path, name, f, warnings, hf⟩ := h
  rw [fieldOf_of_plan hp hplan] at hf
  cases Peeled.becomes_of_read hf with
  | refused => exact .inl ⟨_, rfl⟩
  | read _ hc hread => exact .inr ⟨path, _, _, _, _, hc, hread⟩

/-- If a value becomes a field, then so does the value with the node it shows. -/
theorem exists_field_of_shows {v : Value} {n : Node} (hn : v.Shows n) (h : v.BecomesField) :
    ∃ (w : Value) (p : Peeled), w.BecomesField ∧ w.peel = .ok p ∧ p.node = n := by
  induction hn with
  | self hp => exact ⟨_, _, h, hp, rfl⟩
  | deeper hp hplan hw _ ih =>
    rcases reads_of_becomesField h hp hplan with ⟨reason, rfl⟩ | ⟨_, _, _, _, _, -, hread⟩
    · cases hw
    · exact ih (Plan.fieldValues_becomeFields hread _ hw)

/-- The checks of the node are read: it is no literal with values, and its plan is not refused. -/
def Node.ReadsChecks (n : Node) : Prop :=
  n.isFixed = false ∧ ∀ reason, n.plan ≠ .ok (.refused reason)

/-- The constraints of a node were read if it became a field, unless its checks do not count. -/
theorem isValid_of_becomesField {v : Value} {p : Peeled} (h : v.BecomesField)
    (hp : v.peel = .ok p) (hreads : p.node.ReadsChecks) : p.node.constraints.1.IsValid := by
  obtain ⟨hfixed, hrefused⟩ := hreads
  have ⟨_, _, _, _, hf⟩ := h
  obtain ⟨q, plan, hq, hplan, -⟩ := exists_plan_of_fieldOf hf
  obtain rfl : p = q := Except.ok.inj (hp.symm.trans hq)
  rcases reads_of_becomesField h hp hplan with ⟨reason, rfl⟩ | ⟨_, c, _, _, _, hc, -⟩
  · exact absurd hplan (hrefused reason)
  · unfold Node.fieldConstraints at hc
    rw [if_neg (by simp [hfixed])] at hc
    simp only [Warned.run_bind, Warned.run_ofResult] at hc
    obtain ⟨constraints, _, _, ⟨hvalid, -⟩, -, -⟩ := hc
    cases hread : p.node.constraints.1 with
    | valid a => exact ⟨a, rfl⟩
    | invalid members => simp [hread, Checked.toResult] at hvalid

/-- The constraints of a node are read exactly if the last length and the last bound of each kind
fit, whatever else its checks say, and the failure names those that do not. Such a node below the
root, at any depth, makes the whole walk fail. -/
theorem Node.constraints_isValid_iff (n : Node) :
    (n.constraints.1.IsValid ↔ ∀ member, ¬n.Misfits member) ∧
      (∀ member, member ∈ n.constraints.1.failed ↔ n.Misfits member) ∧
        ((∃ member, n.Misfits member) → n.ReadsChecks → ∀ schema : Value, schema.ShowsBelow n →
          ∀ naming steps, ∃ e, introspect schema naming steps = .error e) := by
  have hfails := n.constraints_failsAt
  refine ⟨hfails.isValid_iff, hfails.mem_failed_iff, ?_⟩
  rintro ⟨member, hmisfit⟩ hreads schema ⟨shape, hshape, e, he, hshows⟩ naming steps
  cases hform : introspect schema naming steps with
  | error e => exact ⟨e, rfl⟩
  | ok form =>
    obtain ⟨shape', hshape', hfields, -⟩ := fieldsOf_of_introspect hform
    obtain rfl : shape = shape' := Option.some.inj (Except.ok.inj (hshape.symm.trans hshape'))
    obtain ⟨w, p, hw, hp, rfl⟩ :=
      exists_field_of_shows hshows (fieldsOf_becomeFields hfields e he)
    exact absurd hmisfit (hfails.isValid_iff.1 (isValid_of_becomesField hw hp hreads) member)

/-- A text that is to have at least one and a half characters. -/
def fractionalText : Node :=
  (Node.plain (.string none)).withCheck
    (.minLength (some (.double (.finite false ⟨4609434218613702656, by decide⟩))))

theorem misfits_fractionalText : fractionalText.Misfits "min_length" :=
  ⟨_, lastSet_withCheck rfl, .inl ⟨by decide, by decide +kernel⟩⟩

theorem readsChecks_fractionalText : fractionalText.ReadsChecks :=
  ⟨rfl, fun reason h => by cases h⟩

theorem peel_fractionalText :
    (Value.node fractionalText).peel = .ok ⟨fractionalText, false, false, .null⟩ := by
  rw [Value.peel, peelFrom_of_unwrap (u := ⟨fractionalText, false, false⟩)
    (by simp [fractionalText, Node.unwrap, Node.plain, Node.withCheck])]
  rfl

/-- The constraints of such a text cannot be read, and no form can be made of an object with it. -/
theorem not_isValid_fractionalText :
    ¬fractionalText.constraints.1.IsValid ∧ "min_length" ∈ fractionalText.constraints.1.failed ∧
      ∃ e, introspect (.node (.plain (.object [("a", .node fractionalText)]))) ⟨"F", "./s", "s"⟩
        .null = .error e := by
  obtain ⟨hvalid, hfailed, hfails⟩ := Node.constraints_isValid_iff fractionalText
  have hbelow : (Value.node (.plain (.object [("a", .node fractionalText)]))).ShowsBelow
      fractionalText :=
    ⟨[("a", .node fractionalText)], by simp [Node.plain, Value.shape?], _, List.mem_cons_self,
      .self peel_fractionalText⟩
  exact ⟨fun h => hvalid.1 h _ misfits_fractionalText, (hfailed _).2 misfits_fractionalText,
    hfails ⟨_, misfits_fractionalText⟩ readsChecks_fractionalText _ hbelow _ _⟩

end FormSchema
