import FormSchema.Proofs.Arrangement
import FormSchema.Proofs.Extraction
import FormSchema.Proofs.Merging
import FormSchema.Proofs.Warnings

/-!
# Schemas that always have a form

A value is well formed if it is a node of a known kind, so are all children at every depth, the
lengths and the bounds of the checks are integers, and the descriptions are texts. A well-formed
value becomes a field wherever it stands (`isShowable`): each step of the walk gives a result, and
what a form cannot show is only warned of. Just one thing ends the walk, a member of a union with an
integer at the discriminator that is too long to be written as its tag (`Visit.IsTaggable`).

`Value.Gathers` says of which entries an object, or an intersection of objects, is made. A root that
gathers entries has a form, with a field for each key, if all tags can be written, and any other
root is reported as a fault of structure (`introspect_of_isWellFormed`).
-/

namespace FormSchema

/-! ## Well-formed values -/

/-- The lengths and the bounds that the check was given are integers. -/
structure Check.HasIntegers (c : Check) : Prop where
  minimum : ∀ k ∈ c.minimum, ∃ i, k = .int i
  maximum : ∀ k ∈ c.maximum, ∃ i, k = .int i
  value : c.name ∈ ["greater_than", "less_than", "multiple_of"] →
    c.value = .null ∨ ∃ i, c.value = .int i

/-- A node of a known kind with nodes for children, with integers in its checks, and with a text for
its description, if it has one. -/
structure Node.IsWellFormed (n : Node) : Prop where
  known : ∀ tag, n.kind ≠ .bare tag
  children : ∀ v ∈ n.kind.values, ∃ m, v = .node m
  keys : n.kind.keys.Nodup
  checks : ∀ c ∈ n.checks, c.HasIntegers
  description : n.description = .null ∨ ∃ s, n.description = .text s

/-- The value is a node, and it and all nodes inside it are well formed. -/
def Value.IsWellFormed (v : Value) : Prop :=
  (∃ n, v = .node n) ∧ ∀ n : Node, (Value.node n).Inside v → n.IsWellFormed

theorem Value.IsWellFormed.node {n : Node} (h : (Value.node n).IsWellFormed) : n.IsWellFormed :=
  h.2 n (.self _)

/-- Every value inside a well-formed one is well-formed. -/
theorem Value.IsWellFormed.of_inside {u v : Value} (h : v.IsWellFormed) (hu : u.Inside v) :
    u.IsWellFormed := by
  induction hu with
  | self => exact h
  | deeper hw _ ih =>
    obtain ⟨⟨n, rfl⟩, hall⟩ := h
    exact ih ⟨(hall n (.self _)).children _ hw, fun m hm => hall m (.deeper hw hm)⟩

theorem Value.IsWellFormed.of_mem {n : Node} {v : Value} (h : (Value.node n).IsWellFormed)
    (hv : v ∈ n.kind.values) : v.IsWellFormed :=
  h.of_inside (.deeper hv (.self v))

/-- A node is well-formed throughout if it is itself and its values are. -/
theorem isWellFormed_of_values {n : Node} (hn : n.IsWellFormed)
    (h : ∀ v ∈ n.kind.values, v.IsWellFormed) : (Value.node n).IsWellFormed :=
  ⟨⟨n, rfl⟩, forall_inside_node hn fun v hv => (h v hv).2⟩

/-- A node without checks. -/
theorem plain_isWellFormed {kind : Kind} (hknown : ∀ tag, kind ≠ .bare tag)
    (hkeys : kind.keys.Nodup) (h : ∀ v ∈ kind.values, v.IsWellFormed) :
    (Value.node (.plain kind)).IsWellFormed :=
  isWellFormed_of_values ⟨hknown, fun v hv => (h v hv).1, hkeys, by rintro _ ⟨⟩, .inl rfl⟩ h

/-! ## Results with warnings -/

/-- There is a result if the condition holds, and if not, an integer is too long to be written. -/
structure Warned.SucceedsIf {α : Type} (condition : Prop) (w : Warned α) : Prop where
  result : condition → ∃ r, w.run = .ok r
  failure : ¬condition → w.run = .error .longInteger

namespace Warned.SucceedsIf

variable {α β : Type} {condition other : Prop} {w : Warned α} {f : α → Warned β}

theorem of_run {r : α × List String} (h : w.run = .ok r) : w.SucceedsIf True :=
  ⟨fun _ => ⟨r, h⟩, fun hnot => absurd trivial hnot⟩

theorem of_pure (a : α) : (pure a : Warned α).SucceedsIf True :=
  of_run (run_pure a)

theorem ofResult {r : Result α} (h : ∃ a, r = .ok a) : (ofResult r).SucceedsIf True := by
  obtain ⟨a, ha⟩ := h
  exact of_run ((run_ofResult r a []).2 ⟨ha, rfl⟩)

/-- The condition of a success may be said in another way. -/
theorem congr (h : w.SucceedsIf condition) (hiff : condition ↔ other) : w.SucceedsIf other :=
  ⟨fun hother => h.result (hiff.2 hother), fun hnot => h.failure (mt hiff.1 hnot)⟩

/-- Two steps give a result if both conditions hold. -/
theorem bind (hw : w.SucceedsIf condition)
    (hf : ∀ a warnings, w.run = .ok (a, warnings) → (f a).SucceedsIf other) :
    (w >>= f).SucceedsIf (condition ∧ other) := by
  by_cases hcondition : condition
  · obtain ⟨⟨a, warnings⟩, ha⟩ := hw.result hcondition
    have hrest := hf a warnings ha
    constructor
    · rintro ⟨-, hother⟩
      obtain ⟨r, hr⟩ := hrest.result hother
      exact ⟨_, by rw [run_bind_of_ok ha, hr]; rfl⟩
    · intro hnot
      rw [run_bind_of_ok ha, hrest.failure fun hother => hnot ⟨hcondition, hother⟩]
      rfl
  · exact ⟨fun h => absurd h.1 hcondition,
      fun _ => run_bind_of_error (hw.failure hcondition) f⟩

/-- What follows the steps that decide only hands on their result. -/
theorem bind_pure (hw : w.SucceedsIf condition) (g : α → β) :
    (w >>= fun a => pure (g a)).SucceedsIf condition :=
  (hw.bind fun a _ _ => of_pure (g a)).congr (and_iff_left trivial)

end Warned.SucceedsIf

/-! ## Tags -/

/-- The tag of a member can be written: there is no integer that is too long in the first value of
the literal at the discriminator. -/
def Visit.IsTaggable : Visit → Prop
  | .field _ _ => True
  | .member _ key _ shape => ∀ first ∈ shape.literalAt? key, ∀ k ∈ first.numbers, k.isShort = true

/-- The tags at a stop and at all stops below it can be written. -/
def Visit.AllTaggable (s : Visit) : Prop :=
  ∀ t ∈ s.walk, t.IsTaggable

/-- All that a walk visits can be tagged just if the value and all below it can. -/
theorem allTaggable_iff (s : Visit) :
    s.AllTaggable ↔ s.IsTaggable ∧ ∀ t ∈ s.next, t.AllTaggable := by
  rw [Visit.AllTaggable, walk_eq, List.forall_mem_cons, List.forall_mem_flatMap]
  rfl

/-! ## Peeling -/

/-- The wrappers of a well-formed node can be taken off. -/
theorem unwrap_succeeds {n : Node} (h : (Value.node n).IsWellFormed) : ∃ u, n.unwrap = .ok u := by
  fun_induction Node.unwrap n with
  | case1 checks description m e hm ih =>
    obtain ⟨u, hu⟩ := ih (h.of_mem List.mem_cons_self)
    rw [hu] at hm
    cases hm
  | case2 => exact ⟨_, rfl⟩
  | case3 checks description m e hm ih =>
    obtain ⟨u, hu⟩ := ih (h.of_mem List.mem_cons_self)
    rw [hu] at hm
    cases hm
  | case4 => exact ⟨_, rfl⟩
  | case5 v _ _ hv =>
    obtain ⟨m, rfl⟩ := h.node.children v List.mem_cons_self
    exact absurd rfl (hv m)
  | case6 v _ _ hv =>
    obtain ⟨m, rfl⟩ := h.node.children v List.mem_cons_self
    exact absurd rfl (hv m)
  | case7 => exact absurd rfl (h.node.known _)
  | case8 => exact absurd rfl (h.node.known _)
  | case9 => exact ⟨_, rfl⟩

theorem unwrap_value_succeeds {v : Value} (h : v.IsWellFormed) : ∃ u, v.unwrap = .ok u := by
  obtain ⟨n, rfl⟩ := h.1
  exact unwrap_succeeds h

/-- The wrappers of a well-formed value can be peeled off. -/
theorem peelFrom_succeeds {isOptional isNullable : Bool} {d v : Value} (h : v.IsWellFormed) :
    ∃ p, peelFrom isOptional isNullable d v = .ok p := by
  fun_induction peelFrom isOptional isNullable d v with
  | case1 _ _ _ n e hu =>
    obtain ⟨u, hok⟩ := unwrap_succeeds h
    rw [hok] at hu
    cases hu
  | case2 _ _ _ n inner _ _ hu _ input output hk ih =>
    refine ih (h.of_inside (.trans (.deeper ?_ (.self input)) (inside_of_unwrap hu)))
    rw [Value.values, hk]
    exact List.mem_cons_self
  | case3 _ _ _ n inner _ _ hu hk =>
    exact absurd hk ((h.of_inside (inside_of_unwrap hu)).node.known _)
  | case4 => exact ⟨_, rfl⟩
  | case5 _ _ _ v hv =>
    obtain ⟨n, rfl⟩ := h.1
    exact absurd rfl (hv n)

/-- The description that counts is a text, or there is none. -/
theorem descriptionText_succeeds {v : Value} {p : Peeled} (h : v.IsWellFormed)
    (hp : v.peel = .ok p) : ∃ description, descriptionText p.description = .ok description := by
  have htext : p.description = .null ∨ ∃ s, p.description = .text s := by
    rcases (inside_of_peel hp).2 with hnull | ⟨m, hm, hd⟩
    · exact .inl hnull
    · rw [hd]
      exact (h.2 m hm).description
  unfold descriptionText
  split
  · rename_i htruthy
    rcases htext with hnull | ⟨s, hs⟩
    · rw [hnull] at htruthy
      cases htruthy
    · exact ⟨some s, by rw [hs]⟩
  · exact ⟨none, rfl⟩

/-! ## Shapes -/

/-- The entries of which an object is made, or an intersection of objects, the left ones first. -/
inductive Value.Gathers : Value → Shape → Prop
  | object {shape : Shape} {checks : List Check} {description : Value} :
      Gathers (.node ⟨.object shape, checks, description⟩) shape
  | intersection {left right : Value} {a b : Shape} {checks : List Check} {description : Value}
      (hleft : left.Gathers a) (hright : right.Gathers b) :
      Gathers (.node ⟨.intersection left right, checks, description⟩) (a ++ b)

/-- The shape of a value merges the entries that the value is made of. -/
theorem Value.Gathers.isMerge {v : Value} {entries : Shape} (h : v.Gathers entries)
    (hv : v.HasDistinctKeys) : ∃ shape, v.shape? = .ok (some shape) ∧ IsMerge shape entries := by
  induction h with
  | @object shape _ _ => exact ⟨shape, by rw [Value.shape?], isMerge_self (hv _ (.self _))⟩
  | @intersection left right a b _ _ _ _ ihleft ihright =>
    have hright : right ∈ (Kind.intersection left right).values :=
      List.mem_cons_of_mem _ List.mem_cons_self
    obtain ⟨l, hl, hla⟩ := ihleft (hv.of_inside (.deeper List.mem_cons_self (.self left)))
    obtain ⟨r, hr, hrb⟩ := ihright (hv.of_inside (.deeper hright (.self right)))
    exact ⟨putEntries l r, by rw [Value.shape?, hl, hr], hla.put hrb⟩

/-- A well-formed value that gathers entries has a shape, in which later entries win. -/
theorem Value.Gathers.shape {v : Value} {entries : Shape} (h : v.Gathers entries)
    (hv : v.IsWellFormed) : ∃ shape, v.shape? = .ok (some shape) ∧ IsMerge shape entries :=
  h.isMerge fun n hn => (hv.2 n hn).keys

/-- A well-formed value either has a shape or is known to have none, and it has one if there are
entries that it is made of. -/
theorem shape_succeeds {v : Value} (h : v.IsWellFormed) :
    ∃ shape, v.shape? = .ok shape ∧ (shape.isSome ↔ ∃ entries, v.Gathers entries) := by
  have hright {left right : Value} : right ∈ (Kind.intersection left right).values :=
    List.mem_cons_of_mem _ List.mem_cons_self
  fun_induction Value.shape? v with
  | case1 shape => exact ⟨some shape, rfl, by simpa using ⟨shape, .object⟩⟩
  | case2 left right _ _ e hl ih =>
    obtain ⟨shape, hshape, -⟩ := ih (h.of_mem List.mem_cons_self)
    rw [hshape] at hl
    cases hl
  | case3 left right _ _ _ _ e hr _ ih =>
    obtain ⟨shape, hshape, -⟩ := ih (h.of_mem hright)
    rw [hshape] at hr
    cases hr
  | case4 left right _ _ l r hl hr ihl ihr =>
    obtain ⟨_, hl', hleft⟩ := ihl (h.of_mem List.mem_cons_self)
    obtain ⟨_, hr', hright⟩ := ihr (h.of_mem hright)
    cases hl.symm.trans hl'
    cases hr.symm.trans hr'
    obtain ⟨a, ha⟩ := hleft.1 rfl
    obtain ⟨b, hb⟩ := hright.1 rfl
    exact ⟨some (putEntries l r), rfl, by simpa using ⟨a ++ b, .intersection ha hb⟩⟩
  | case5 left right _ _ l hl r hr hnot ihl ihr =>
    obtain ⟨_, hl', hleft⟩ := ihl (h.of_mem List.mem_cons_self)
    obtain ⟨_, hr', hright⟩ := ihr (h.of_mem hright)
    cases hl.symm.trans hl'
    cases hr.symm.trans hr'
    refine ⟨none, rfl, iff_of_false (by simp) ?_⟩
    rintro ⟨_, hgathers⟩
    cases hgathers with
    | intersection ha hb =>
      obtain ⟨l', rfl⟩ := Option.isSome_iff_exists.1 (hleft.2 ⟨_, ha⟩)
      obtain ⟨r', rfl⟩ := Option.isSome_iff_exists.1 (hright.2 ⟨_, hb⟩)
      exact hnot l' r' rfl rfl
  | case6 => exact absurd rfl (h.node.known _)
  | case7 => exact absurd rfl (h.node.known _)
  | case8 v hobject hintersection =>
    refine ⟨none, rfl, iff_of_false (by simp) ?_⟩
    rintro ⟨_, ⟨⟩⟩
    · exact hobject _ _ _ rfl
    · exact hintersection _ _ _ _ rfl

/-! ## Constraints -/

/-- The last length and the last bound of each kind are integers, so they fit. -/
theorem constraints_succeed {n : Node} (h : ∀ c ∈ n.checks, c.HasIntegers) :
    ∃ c, n.constraints.1 = .valid c := by
  refine n.constraints_failsAt.isValid_iff.2 ?_
  rintro member ⟨d, hlast, hmisfit⟩
  obtain ⟨c, hc, heffect⟩ := List.mem_map.1 (exists_effect_of_lastSet hlast)
  have hnot : member ∉ ["is_int", "pattern", "format"] := fun hmem => by
    simp only [List.mem_cons, List.not_mem_nil, or_false] at hmem
    rcases hmem with rfl | rfl | rfl <;> simp [lengthNames, boundNames] at hmisfit
  obtain ⟨i, rfl⟩ : ∃ i, d = .int i := by
    cases sets_of_effect heffect with
    | minimum _ _ hk hd =>
      obtain ⟨i, rfl⟩ := (h c hc).minimum _ hk
      exact ⟨i, hd⟩
    | maximum _ _ hk hd =>
      obtain ⟨i, rfl⟩ := (h c hc).maximum _ hk
      exact ⟨i, hd⟩
    | value hname hvalue hd =>
      have hbound : c.name ∈ ["greater_than", "less_than", "multiple_of"] :=
        List.mem_map_of_mem (f := Prod.fst) hname
      obtain hnull | ⟨i, hi⟩ := (h c hc).value hbound
      · exact absurd hnull hvalue
      · exact ⟨i, by rw [hd, hi]; rfl⟩
    | whole _ hkey | pattern _ hkey | format _ hkey =>
      exact absurd (by rw [hkey]; decide) hnot
  rcases hmisfit with ⟨-, hread⟩ | ⟨-, hread⟩ <;> cases hread

/-- The checks of a node are read, if the lengths and bounds in them are integers. -/
theorem fieldConstraints_succeeds {n : Node} (h : ∀ c ∈ n.checks, c.HasIntegers) (path : String) :
    (n.fieldConstraints path).SucceedsIf True := by
  obtain ⟨c, hc⟩ := constraints_succeed h
  unfold Node.fieldConstraints
  split
  · exact .of_pure _
  · rw [hc]
    exact .of_run rfl

/-! ## Plans -/

/-- A well-formed node has a plan, and never one without a first value. -/
theorem plan_succeeds {n : Node} (h : (Value.node n).IsWellFormed) :
    ∃ plan, n.plan = .ok plan ∧ plan ≠ .hollow := by
  have hknown := h.node.known
  obtain ⟨shape, hshape, -⟩ := shape_succeeds h
  obtain ⟨kind, checks, description⟩ := n
  cases kind with
  | intersection left right =>
    cases shape with
    | none => exact ⟨.refused (.unsupported "intersection"), by rw [Node.plan, hshape], by simp⟩
    | some shape => exact ⟨.object shape, by rw [Node.plan, hshape], by simp⟩
  | enum entries =>
    refine ⟨_, rfl, ?_⟩
    cases entries <;> rintro ⟨⟩
  | literal values =>
    refine ⟨_, rfl, ?_⟩
    unfold literalPlan
    repeat' split
    all_goals simp
  | bare tag => exact absurd rfl (hknown tag)
  | _ => exact ⟨_, rfl, by simp⟩

/-! ## Fields -/

/-- The value becomes a field at every path and under every name if all tags in it can be written. -/
def Value.IsShowable (v : Value) : Prop :=
  ∀ path name, (fieldOf path name v).SucceedsIf (Visit.field path v).AllTaggable

/-- The members of a shape are read just if all that is visited below them can be tagged. -/
theorem fieldsOf_succeeds {path : String} : ∀ {shape : Shape},
    (∀ v ∈ shape.map Prod.snd, v.IsShowable) →
      (fieldsOf path shape).SucceedsIf (∀ t ∈ memberVisits path shape, t.AllTaggable)
  | [], _ => by
    rw [fieldsOf]
    exact (Warned.SucceedsIf.of_pure _).congr (by simp [memberVisits])
  | (name, v) :: rest, h => by
    obtain ⟨hv, hrest⟩ := List.forall_mem_cons.1 h
    rw [fieldsOf]
    refine ((hv _ _).bind fun f _ _ => (fieldsOf_succeeds hrest).bind_pure (f :: ·)).congr ?_
    simp [memberVisits]

/-- The items of a tuple are read just if all that is visited below them can be tagged. -/
theorem elementsOf_succeeds {path : String} : ∀ {items : List Value} {index : Nat},
    (∀ v ∈ items, v.IsShowable) → (elementsOf path index items).SucceedsIf
      (∀ t ∈ (items.zipIdx index).map fun (v, index) => Visit.field (below path (natText index)) v,
        t.AllTaggable)
  | [], _, _ => by
    rw [elementsOf]
    exact (Warned.SucceedsIf.of_pure _).congr (by simp)
  | v :: rest, index, h => by
    obtain ⟨hv, hrest⟩ := List.forall_mem_cons.1 h
    rw [elementsOf]
    refine ((hv _ _).bind fun f _ _ => (elementsOf_succeeds hrest).bind_pure (f :: ·)).congr ?_
    rw [List.zipIdx_cons, List.map_cons, List.forall_mem_cons]

/-- A well-formed option of a union has a shape or none. -/
theorem taggedShape_succeeds (discriminator : Option String) {v : Value} (h : v.IsWellFormed) :
    ∃ shape, taggedShape? discriminator v = .ok shape := by
  unfold taggedShape?
  split
  · exact ⟨none, rfl⟩
  · split
    · exact ⟨none, rfl⟩
    · obtain ⟨u, hu⟩ := unwrap_value_succeeds h
      obtain ⟨shape, hshape, -⟩ := shape_succeeds (h.of_inside (inside_of_value_unwrap hu))
      exact ⟨shape, by rw [hu]; exact hshape⟩

/-- The first value of the literal at the discriminator is written as the tag. -/
theorem tag?_of_literalAt? {shape : Shape} {key : String} {first : Value}
    (h : shape.literalAt? key = some first) :
    tag? shape key = writing .longInteger first.numbers (some first.display) := by
  unfold Shape.literalAt? at h
  split at h
  · cases h
  · rename_i v hv
    split at h
    · cases h
    · rename_i u hu
      have hnull : v ≠ .null := by
        rintro rfl
        cases hu
      split at h
      · rename_i hkind
        cases h
        rw [tag?_of_lookup hv hnull, hu]
        show u.inner.literalTag? = _
        rw [Node.literalTag?, hkind]
      · cases h

/-- Without a literal at the discriminator a well-formed member has no tag of its own. -/
theorem tag?_of_no_literal {shape : Shape} {key : String}
    (h : ∀ v ∈ shape.map Prod.snd, v.IsWellFormed) (hnone : shape.literalAt? key = none) :
    tag? shape key = .ok none := by
  cases hv : shape.lookup key with
  | none => rw [tag?, hv]
  | some v =>
    have hwell := h v (List.mem_map_of_mem (mem_of_lookup hv))
    obtain ⟨u, hu⟩ := unwrap_value_succeeds hwell
    have hnull : v ≠ .null := by
      obtain ⟨n, rfl⟩ := hwell.1
      simp
    rw [tag?_of_lookup hv hnull, hu]
    show u.inner.literalTag? = _
    simp only [Shape.literalAt?, hv, hu] at hnone
    unfold Node.literalTag?
    split
    · rename_i first rest hkind
      simp only [hkind] at hnone
      cases hnone
    · rfl

/-- The tag of a member is there unless an integer in it is too long. -/
theorem tagOf_succeeds {shape : Shape} (h : ∀ v ∈ shape.map Prod.snd, v.IsWellFormed)
    (path key : String) (index : Nat) :
    (tagOf path key index shape).SucceedsIf (Visit.member path key index shape).IsTaggable := by
  have hgiven {tag : Option String} (htag : tag? shape key = .ok tag) :
      ∃ r, (tagOf path key index shape).run = .ok r := by
    rw [tagOf, htag]
    cases tag <;> exact ⟨_, rfl⟩
  cases hfirst : shape.literalAt? key with
  | none =>
    exact ⟨fun _ => hgiven (tag?_of_no_literal h hfirst),
      fun hnot => absurd (by simp [Visit.IsTaggable, hfirst]) hnot⟩
  | some first =>
    have hiff : (Visit.member path key index shape).IsTaggable ↔
        ∀ k ∈ first.numbers, k.isShort = true := by
      simp [Visit.IsTaggable, hfirst]
    rw [tagOf, tag?_of_literalAt? hfirst]
    constructor
    · intro hshort
      rw [writing_of_short (hiff.1 hshort)]
      exact ⟨_, rfl⟩
    · intro hlong
      rw [writing_eq_error.2 ⟨mt hiff.2 hlong, rfl⟩]
      rfl

/-- An option of a union is read just if all that is visited in it can be tagged. -/
theorem variantOf_succeeds {path : String} {discriminator : Option String} {index : Nat} {v : Value}
    (h : v.IsWellFormed) (hshow : ∀ w ∈ variantValues discriminator v, w.IsShowable) :
    (variantOf path discriminator index v).SucceedsIf
      (optionVisit path discriminator index v).AllTaggable := by
  obtain ⟨shape?, hshape⟩ := taggedShape_succeeds discriminator h
  rw [optionVisit, hshape]
  cases shape? with
  | none =>
    rw [variantValues, hshape] at hshow
    rw [variantOf_of_none hshape]
    exact (hshow v List.mem_cons_self _ _).bind_pure _
  | some shape =>
    rw [variantValues, hshape] at hshow
    have hmembers : ∀ w ∈ shape.map Prod.snd, w.IsWellFormed :=
      List.forall_mem_map.2 fun e he => h.of_inside ((inside_of_taggedShape hshape).members e he)
    cases discriminator with
    | none => cases hshape
    | some key =>
      rw [variantOf_of_shape hshape]
      refine ((tagOf_succeeds hmembers path key index).bind fun tag _ htag => ?_).congr
        (allTaggable_iff _).symm
      obtain ⟨rfl, -⟩ := told_tagOf htag
      exact (fieldsOf_succeeds hshow).bind_pure _

/-- The options of a union are read just if all that is visited in them can be tagged. -/
theorem variantsOf_succeeds {path : String} {discriminator : Option String} :
    ∀ {options : List Value} {index : Nat}, (∀ v ∈ options, v.IsWellFormed) →
      (∀ v ∈ options, ∀ w ∈ variantValues discriminator v, w.IsShowable) →
        (variantsOf path discriminator index options).SucceedsIf
          (∀ t ∈ (options.zipIdx index).map fun (v, index) =>
            optionVisit path discriminator index v, t.AllTaggable)
  | [], _, _, _ => by
    rw [variantsOf]
    exact (Warned.SucceedsIf.of_pure _).congr (by simp)
  | v :: rest, index, h, hshow => by
    obtain ⟨hv, hrest⟩ := List.forall_mem_cons.1 h
    obtain ⟨hfirst, hothers⟩ := List.forall_mem_cons.1 hshow
    rw [variantsOf]
    refine ((variantOf_succeeds hv hfirst).bind fun variant _ _ =>
      (variantsOf_succeeds hrest hothers).bind_pure (variant :: ·)).congr ?_
    rw [List.zipIdx_cons, List.map_cons, List.forall_mem_cons]

/-- A plan is read if all values are showable that the plan has for the fields right below. -/
theorem Plan.read_succeeds {plan : Plan} (path : String) (hrefused : ∀ reason, plan ≠ .refused reason)
    (hhollow : plan ≠ .hollow) (h : ∀ v ∈ plan.values, v.IsWellFormed)
    (hshow : ∀ v ∈ plan.fieldValues, v.IsShowable) :
    (plan.read path).SucceedsIf (∀ t ∈ plan.visits path, t.AllTaggable) := by
  cases plan with
  | leaf content => exact (Warned.SucceedsIf.of_pure content).congr (by simp [Plan.visits])
  | object shape => exact (fieldsOf_succeeds hshow).bind_pure _
  | array element =>
    exact ((hshow element List.mem_cons_self _ _).bind_pure _).congr List.forall_mem_singleton.symm
  | tuple items => exact (elementsOf_succeeds hshow).bind_pure _
  | record value =>
    exact ((hshow value List.mem_cons_self _ _).bind_pure _).congr List.forall_mem_singleton.symm
  | union discriminator options =>
    have hoptions : ∀ v ∈ options, ∀ w ∈ variantValues discriminator v, w.IsShowable :=
      fun v hv w hw => hshow w (List.mem_flatMap.2 ⟨v, hv, hw⟩)
    exact (variantsOf_succeeds h hoptions).bind_pure _
  | hollow => exact absurd rfl hhollow
  | refused reason => exact absurd rfl (hrefused reason)

/-- A field comes up if its description is a text. -/
theorem Peeled.field_succeeds {p : Peeled} (name : String) (c : Constraints) (content : Content)
    (h : ∃ description, descriptionText p.description = .ok description) :
    ∃ f, p.field name c content = .ok f := by
  obtain ⟨description, hd⟩ := h
  exact ⟨_, by rw [Peeled.field, hd]⟩

/-- The stops below the one of a value are those of the plan of its node, if it is not refused. -/
theorem next_of_plan {v : Value} {p : Peeled} {plan : Plan} (hp : v.peel = .ok p)
    (hplan : p.node.plan = .ok plan) (path : String) :
    (Visit.field path v).next = if plan.reason?.isSome then [] else plan.visits path := by
  rw [Visit.next, hp]
  dsimp only
  rw [refusal?_of_plan hplan, visitsBelow_of_plan hplan]

/-- A well-formed value becomes a field wherever it stands. -/
theorem isShowable {v : Value} (h : v.IsWellFormed) : v.IsShowable := by
  intro path name
  obtain ⟨p, hp⟩ : ∃ p, v.peel = .ok p := peelFrom_succeeds h
  have hnode : (Value.node p.node).IsWellFormed := h.of_inside (inside_of_peel hp).1
  obtain ⟨plan, hplan, hhollow⟩ := plan_succeeds hnode
  have hfield (c : Constraints) (content : Content) :
      (Warned.ofResult (p.field name c content)).SucceedsIf True :=
    .ofResult (Peeled.field_succeeds name c content (descriptionText_succeeds h hp))
  have hbelow : (Visit.field path v).AllTaggable ↔ ∀ t ∈ (Visit.field path v).next, t.AllTaggable :=
    (allTaggable_iff _).trans (and_iff_right trivial)
  rw [fieldOf_of_plan hp hplan]
  rw [next_of_plan hp hplan] at hbelow
  unfold Peeled.read
  split
  · exact ((Warned.SucceedsIf.of_run rfl).bind fun _ _ _ => hfield _ _).congr (by
      simp [hbelow, Plan.reason?])
  · rename_i hrefused
    have hread : (plan.read path).SucceedsIf (∀ t ∈ plan.visits path, t.AllTaggable) := by
      refine Plan.read_succeeds path (fun reason => hrefused reason) hhollow
        (fun w hw => hnode.of_inside (inside_of_plan hplan w hw)) fun w hw => ?_
      obtain ⟨hsmaller, hinside⟩ := fieldValues_below hp hplan w hw
      exact isShowable (h.of_inside hinside)
    have hreason : plan.reason? = none := by
      cases plan with
      | refused reason => exact absurd rfl (hrefused reason)
      | _ => rfl
    refine ((fieldConstraints_succeeds hnode.node.checks path).bind fun _ _ _ =>
      hread.bind fun _ _ _ => hfield _ _).congr ?_
    simp [hbelow, hreason]
termination_by sizeOf v

/-! ## Forms -/

/-- The form has one field for each key of the entries, in the order in which the keys come first,
made of the value that the key has last. -/
structure Form.IsMadeOf (form : Form) (entries : Shape) : Prop where
  names : form.fieldNames = (entries.map Prod.fst).eraseDups
  made : ∀ f ∈ form.fields, ∃ v, entries.reverse.lookup f.name = some v ∧ f.IsMadeOf v

/-- The fields of a form are made of the entries that its root gathers. -/
theorem isMadeOf_of_fieldsOf {form : Form} {shape entries : Shape} {path : String}
    {warnings : List String} (h : (fieldsOf path shape).run = .ok (form.fields, warnings))
    (hmerge : IsMerge shape entries) : form.IsMadeOf entries where
  names := (fieldsOf_names h).trans hmerge.keys
  made := by
    intro f hf
    obtain ⟨e, he, path', more, hfield⟩ := exists_member_of_fieldsOf h f hf
    have hname := fieldOf_name hfield
    exact ⟨e.2, by rw [hname, ← hmerge.values, lookup_of_mem hmerge.nodup he], path', more,
      hname ▸ hfield⟩

/-- A well-formed root that no entries make up is reported as a fault of structure. A root that
gathers entries has a form, with a field for each key, as long as the tags can be written of all
members that the walk comes to, and if one of them cannot, that is the failure. -/
theorem introspect_of_isWellFormed {n : Node} (h : (Value.node n).IsWellFormed) (naming : Naming) :
    ((∀ entries, ¬(Value.node n).Gathers entries) →
        ∃ e r, introspect (.node n) naming .null = .error e ∧ e.report? = some r ∧
          r.family = .structural) ∧
      ∀ entries, (Value.node n).Gathers entries →
        ((∀ s ∈ (Value.node n).visits, s.IsTaggable) →
          ∃ form, introspect (.node n) naming .null = .ok form ∧ form.IsMadeOf entries) ∧
        ((∃ s ∈ (Value.node n).visits, ¬s.IsTaggable) →
          introspect (.node n) naming .null = .error .longInteger) := by
  constructor
  · intro hnone
    obtain ⟨shape, hshape, hgathers⟩ := shape_succeeds h
    cases shape with
    | none => exact ⟨.rootNotObject n.tag, _, by rw [introspect, rootShape, hshape], rfl, rfl⟩
    | some shape =>
      obtain ⟨entries, hentries⟩ := hgathers.1 rfl
      exact absurd hentries (hnone entries)
  intro entries hgathers
  obtain ⟨shape, hshape, hmerge⟩ := hgathers.shape h
  have hmembers : ∀ v ∈ shape.map Prod.snd, v.IsShowable := List.forall_mem_map.2 fun e he =>
    isShowable (h.of_inside ((inside_of_shape hshape).members e he))
  have hfields : (fieldsOf "" shape).SucceedsIf (∀ s ∈ (Value.node n).visits, s.IsTaggable) := by
    refine (fieldsOf_succeeds hmembers).congr ?_
    rw [Value.visits, hshape]
    exact List.forall_mem_flatMap.symm
  constructor
  · intro htags
    obtain ⟨⟨fields, warnings⟩, hrun⟩ := hfields.result htags
    refine ⟨⟨naming, fields, warnings, none⟩, ?_, isMadeOf_of_fieldsOf hrun hmerge⟩
    rw [introspect, rootShape, hshape]
    dsimp only
    rw [hrun]
    rfl
  · rintro ⟨s, hs, htag⟩
    rw [introspect, rootShape, hshape]
    dsimp only
    rw [hfields.failure fun htags => htag (htags s hs)]

/-! ## A root with parts that no form can show -/

/-- A member that is an object, behind a transformation. -/
def changedMember : Value :=
  .node (.plain (.pipe (.node (.plain (.object [("k", .node (.plain (.literal [.text "x"])))])))
    (.node (.plain .transform))))

/-- A member whose literal at the discriminator has no value. -/
def emptyMember : Value :=
  .node (.plain (.object [("k", .node (.plain (.literal [])))]))

/-- Two objects that share a key: a set, and a tagged union in the place of a number. -/
def oddRoot : Node :=
  .plain (.intersection
    (.node (.plain (.object [("a", .node (.plain (.set (.node (.plain (.string none)))))),
      ("b", .node (.plain .number))])))
    (.node (.plain (.object
      [("b", .node (.plain (.union [changedMember, emptyMember] (some "k"))))]))))

theorem isWellFormed_oddRoot : (Value.node oddRoot).IsWellFormed := by
  have hleaf {kind : Kind} (hknown : ∀ tag, kind ≠ .bare tag) (hkeys : kind.keys = [])
      (hvalues : kind.values = []) : (Value.node (.plain kind)).IsWellFormed :=
    plain_isWellFormed hknown (by simp [hkeys]) (by simp [hvalues])
  have hpair {u v : Value} (hu : u.IsWellFormed) (hv : v.IsWellFormed) :
      ∀ w ∈ [u, v], w.IsWellFormed := List.forall_mem_cons.2 ⟨hu, List.forall_mem_singleton.2 hv⟩
  have hliteral (values : List Value) : (Value.node (.plain (.literal values))).IsWellFormed :=
    hleaf (by simp) rfl rfl
  have hobject (values : List Value) :
      (Value.node (.plain (.object [("k", .node (.plain (.literal values)))]))).IsWellFormed :=
    plain_isWellFormed (by simp) (List.nodup_singleton _)
      (List.forall_mem_singleton.2 (hliteral values))
  have hchanged : changedMember.IsWellFormed :=
    plain_isWellFormed (by simp) List.nodup_nil (hpair (hobject _) (hleaf (by simp) rfl rfl))
  have hset : (Value.node (.plain (.set (.node (.plain (.string none)))))).IsWellFormed :=
    plain_isWellFormed (by simp) List.nodup_nil (List.forall_mem_singleton.2 (hleaf (by simp) rfl rfl))
  have hunion :
      (Value.node (.plain (.union [changedMember, emptyMember] (some "k")))).IsWellFormed :=
    plain_isWellFormed (by simp) List.nodup_nil (hpair hchanged (hobject _))
  refine plain_isWellFormed (by simp) List.nodup_nil (hpair ?_ ?_)
  · exact plain_isWellFormed (by simp) (by decide) (hpair hset (hleaf (by simp) rfl rfl))
  · exact plain_isWellFormed (by simp) (List.nodup_singleton _) (List.forall_mem_singleton.2 hunion)

/-- The shape of a member with a literal at the discriminator. -/
def literalShape (values : List Value) : Shape :=
  [("k", .node (.plain (.literal values)))]

theorem literalAt?_literalShape (values : List Value) :
    (literalShape values).literalAt? "k" = values.head? := by
  have hlookup : (literalShape values).lookup "k" = some (.node (.plain (.literal values))) :=
    List.lookup_cons_self
  have hunwrap : (Value.node (.plain (.literal values))).unwrap =
      .ok ⟨.plain (.literal values), false, false⟩ := unwrap_of_isCore rfl
  rw [Shape.literalAt?, hlookup]
  dsimp only
  rw [hunwrap]
  cases values <;> rfl

/-- The tags in a value can be written if those below it can. -/
theorem allTaggable_of_peel {v : Value} {p : Peeled} {plan : Plan} (hp : v.peel = .ok p)
    (hplan : p.node.plan = .ok plan) {path : String} (h : ∀ t ∈ plan.visits path, t.AllTaggable) :
    (Visit.field path v).AllTaggable := by
  refine (allTaggable_iff _).2 ⟨trivial, ?_⟩
  rw [next_of_plan hp hplan]
  split
  · simp
  · exact h

theorem allTaggable_literal (values : List Value) (path : String) :
    (Visit.field path (.node (.plain (.literal values)))).AllTaggable :=
  allTaggable_of_peel (peel_of_isCore rfl rfl) rfl
    (by simp [(literalPlan_isChildless values).visits_eq])

/-- A member with a literal can be tagged just if the first value can be shown. -/
theorem allTaggable_literalShape {values : List Value} {path : String} {index : Nat} :
    (Visit.member path "k" index (literalShape values)).AllTaggable ↔
      ∀ first ∈ values.head?, ∀ k ∈ first.numbers, k.isShort = true := by
  have hnext : ∀ t ∈ (Visit.member path "k" index (literalShape values)).next, t.AllTaggable :=
    List.forall_mem_singleton.2 (allTaggable_literal _ _)
  rw [allTaggable_iff, and_iff_left hnext, Visit.IsTaggable, literalAt?_literalShape]

/-- No member of the union has a tag that cannot be written: one has no shape, and the literal of
the other one has no value. -/
theorem isTaggable_oddRoot : ∀ s ∈ (Value.node oddRoot).visits, s.IsTaggable := by
  have hshape : (Value.node oddRoot).shape? =
      .ok (some [("a", .node (.plain (.set (.node (.plain (.string none)))))),
        ("b", .node (.plain (.union [changedMember, emptyMember] (some "k"))))]) := by
    simp [oddRoot, Node.plain, Value.shape?, putEntries, putEntry]
  have hset (path : String) :
      (Visit.field path (.node (.plain (.set (.node (.plain (.string none))))))).AllTaggable :=
    allTaggable_of_peel (peel_of_isCore rfl rfl) rfl (by simp [Plan.visits])
  have hchanged (path : String) :
      (optionVisit path (some "k") 0 changedMember).AllTaggable := by
    have hpeel : changedMember.peel =
        .ok ⟨.plain (.object (literalShape [.text "x"])), false, false, .null⟩ := by
      rw [changedMember, Value.peel, peelFrom_of_unwrap (u := ⟨_, false, false⟩) (by cbv)]
      exact peel_of_isCore (n := .plain (.object (literalShape [.text "x"]))) rfl rfl
    have hnone : taggedShape? (some "k") changedMember = .ok none := by cbv
    rw [optionVisit, hnone]
    exact allTaggable_of_peel hpeel rfl (List.forall_mem_singleton.2 (allTaggable_literal _ _))
  have hempty (path : String) : (optionVisit path (some "k") 1 emptyMember).AllTaggable := by
    rw [optionVisit, emptyMember, taggedShape?_object (by decide)]
    exact allTaggable_literalShape.2 (by simp)
  have hunion (path : String) : (Visit.field path
      (.node (.plain (.union [changedMember, emptyMember] (some "k"))))).AllTaggable := by
    refine allTaggable_of_peel (peel_of_isCore rfl rfl) rfl ?_
    show ∀ t ∈ [optionVisit path _ 0 changedMember, optionVisit path _ 1 emptyMember], _
    exact List.forall_mem_cons.2 ⟨hchanged path, List.forall_mem_singleton.2 (hempty path)⟩
  rw [Value.visits, hshape]
  exact List.forall_mem_flatMap.2
    (List.forall_mem_cons.2 ⟨hset _, List.forall_mem_singleton.2 (hunion _)⟩)

/-- There is a form of such a root, with the key that both objects have in its first place. -/
theorem introspect_oddRoot :
    (Value.node oddRoot).IsWellFormed ∧ ∃ form,
      introspect (.node oddRoot) ⟨"F", "./s", "s"⟩ .null = .ok form ∧
        form.fieldNames = ["a", "b"] := by
  obtain ⟨-, hform⟩ := introspect_of_isWellFormed isWellFormed_oddRoot ⟨"F", "./s", "s"⟩
  obtain ⟨form, hok, hmade⟩ := (hform _ (.intersection .object .object)).1 isTaggable_oddRoot
  exact ⟨isWellFormed_oddRoot, form, hok, hmade.names⟩

/-! ## A root with a tag that is too long -/

/-- A union whose only member has a long integer at the discriminator. -/
def longTagUnion : Node :=
  .plain (.union [.node (.plain (.object (literalShape [.number (.int leastLong)])))] (some "k"))

/-- An object with such a union. -/
def longTagRoot : Node :=
  .plain (.object [("a", .node longTagUnion)])

theorem isWellFormed_longTagUnion : (Value.node longTagUnion).IsWellFormed := by
  have hliteral : (Value.node (.plain (.literal [.number (.int leastLong)]))).IsWellFormed :=
    plain_isWellFormed (by simp) List.nodup_nil (by rintro _ ⟨⟩)
  have hmember : (Value.node (.plain (.object
      (literalShape [.number (.int leastLong)])))).IsWellFormed :=
    plain_isWellFormed (by simp) (List.nodup_singleton _) (List.forall_mem_singleton.2 hliteral)
  exact plain_isWellFormed (by simp) List.nodup_nil (List.forall_mem_singleton.2 hmember)

theorem not_allTaggable_longTagUnion (path : String) :
    ¬(Visit.field path (.node longTagUnion)).AllTaggable := by
  rw [allTaggable_iff, next_of_plan (peel_of_isCore rfl rfl) rfl, if_neg (by decide)]
  rintro ⟨-, hall⟩
  have hmember : (optionVisit path (some "k") 0
      (.node (.plain (.object (literalShape [.number (.int leastLong)]))))).AllTaggable :=
    hall _ (List.mem_singleton_self _)
  rw [optionVisit, taggedShape?_object (by decide)] at hmember
  exact leastLong_not_isShort (allTaggable_literalShape.1 hmember _ rfl _
    (by rw [Value.numbers]; exact List.mem_singleton_self _))

/-- The root is an object, but there is no form of it, and the failure is no fault of structure. -/
theorem not_introspect_longTagRoot :
    (Value.node longTagRoot).IsWellFormed ∧ (∃ entries, (Value.node longTagRoot).Gathers entries) ∧
      introspect (.node longTagRoot) ⟨"F", "./s", "s"⟩ .null = .error .longInteger ∧
        Failure.longInteger.report? = none := by
  have hshape : (Value.node longTagRoot).shape? = .ok (some [("a", .node longTagUnion)]) := by
    rw [longTagRoot, Node.plain, Value.shape?]
  have hfield : (fieldOf (memberPath "" "a") "a" (.node longTagUnion)).run = .error .longInteger :=
    (isShowable isWellFormed_longTagUnion _ _).failure (not_allTaggable_longTagUnion _)
  refine ⟨plain_isWellFormed (by simp) (List.nodup_singleton _)
    (List.forall_mem_singleton.2 isWellFormed_longTagUnion), ⟨_, .object⟩, ?_, rfl⟩
  rw [introspect, rootShape, hshape]
  dsimp only
  rw [fieldsOf, Warned.run_bind_of_error hfield]

end FormSchema
