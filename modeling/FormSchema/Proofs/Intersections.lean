import FormSchema.Proofs.Layers
import FormSchema.Proofs.Tolerance

/-!
# Intersections of objects

Of an object or an intersection only the shape is shown: nodes that hold the same shape have the
same form as roots, the same field at every path and under all layers, and are the same members of
unions (`Node.ShownAs`, `shownAs_of_holds`). The shape of an intersection merges the entries of its
sides (`intersect_holds`). Since merging is associative, so are intersections (`intersect_assoc`),
and to extend a plain object is to intersect it (`intersect_shownAs_extend`).
-/

namespace FormSchema

/-- The intersection of two nodes. -/
def Node.intersect (m n : Node) : Node :=
  .plain (.intersection (.node m) (.node n))

/-- It is what the method gives. -/
theorem call_intersect (m n : Node) :
    Method.intersect.call m [.node n] = .ok (.node (m.intersect n)) := rfl

/-- The two nodes are shown alike: as the root of a schema, as a field, and as a member of a
union, the latter two under any layers. -/
structure Node.ShownAs (m n : Node) : Prop where
  root : ∀ naming steps, introspect (.node m) naming steps = introspect (.node n) naming steps
  field : ∀ layers path name,
    fieldOf path name (.node (m.under layers)) = fieldOf path name (.node (n.under layers))
  member : ∀ layers path discriminator index,
    variantOf path discriminator index (.node (m.under layers)) =
      variantOf path discriminator index (.node (n.under layers))

/-! ## Nodes with a shape -/

/-- The node has the shape, and nothing else is said about it. -/
structure Node.Holds (n : Node) (shape : Shape) : Prop where
  checks : n.checks = []
  description : n.description = .null
  shape : (Value.node n).shape? = .ok (some shape)

theorem holds_object (shape : Shape) : (Node.plain (.object shape)).Holds shape :=
  ⟨rfl, rfl, by rw [Node.plain, Value.shape?]⟩

/-- An intersection holds the shapes of its sides, the right one put into the left one. -/
theorem holds_intersect {m n : Node} {left right : Shape}
    (hm : (Value.node m).shape? = .ok (some left)) (hn : (Value.node n).shape? = .ok (some right)) :
    (m.intersect n).Holds (putEntries left right) :=
  ⟨rfl, rfl, by rw [Node.intersect, Node.plain, Value.shape?, hm, hn]⟩

/-- Only objects and intersections have a shape. -/
theorem kind_of_shape {n : Node} {shape : Shape} (h : (Value.node n).shape? = .ok (some shape)) :
    n.kind = .object shape ∨ ∃ left right, n.kind = .intersection left right := by
  obtain ⟨kind, checks, description⟩ := n
  rw [Value.shape?.eq_def] at h
  split at h
  · rename_i heq
    cases heq
    cases h
    exact .inl rfl
  · rename_i heq
    cases heq
    exact .inr ⟨_, _, rfl⟩
  · cases h
  · cases h
  · cases h

namespace Node.Holds

variable {n : Node} {shape : Shape} (h : n.Holds shape)

include h

theorem isBase : n.IsBase := by
  rcases kind_of_shape h.shape with hkind | ⟨left, right, hkind⟩
  all_goals simp [Node.IsBase, Node.tag, hkind, Kind.tag]

theorem plan : n.plan = .ok (.object shape) := by
  rcases kind_of_shape h.shape with hkind | ⟨left, right, hkind⟩
  · rw [Node.plan, hkind]
  · rw [Node.plan, hkind]
    dsimp only
    rw [h.shape]

theorem constraints (path : String) : (n.fieldConstraints path).run = .ok ({}, []) := by
  obtain ⟨kind, checks, description⟩ := n
  obtain rfl : checks = [] := h.checks
  rcases kind_of_shape h.shape with hkind | ⟨left, right, hkind⟩
  all_goals
    obtain rfl : kind = _ := hkind
    rfl

end Node.Holds

/-- Nodes that hold the same shape become the same field. -/
theorem fieldOf_of_holds {m n : Node} {shape : Shape} (hm : m.Holds shape) (hn : n.Holds shape)
    (layers : List Layer) (path name : String) :
    fieldOf path name (.node (m.under layers)) = fieldOf path name (.node (n.under layers)) := by
  have hconstraints : m.fieldConstraints path = n.fieldConstraints path :=
    congrArg Warned.mk ((hm.constraints path).trans (hn.constraints path).symm)
  have hbare : fieldOf path name (.node m) = fieldOf path name (.node n) := by
    rw [fieldOf_of_plan (peel_of_isBase hm.isBase) hm.plan,
      fieldOf_of_plan (peel_of_isBase hn.isBase) hn.plan]
    simp only [Peeled.read, hconstraints, hm.description, hn.description, Peeled.field]
  refine congrArg Warned.mk ?_
  rw [fieldOf_under hm.isBase, fieldOf_under hn.isBase, hbare]

/-- A pipe has no shape. -/
theorem shape_of_pipe {l : Layer} (h : l.isWrapper = false) (n : Node) :
    (Value.node (l.around n)).shape? = .ok none := by
  obtain ⟨wrap, checks, description⟩ := l
  cases wrap with
  | pipe output =>
    rw [Layer.around, Wrap.kind, Value.shape?.eq_def]
  | optional => cases h
  | nullable => cases h

/-- A member of a union shows its shape if there are only wrappers around it. -/
theorem taggedShape?_of_holds {n : Node} {shape : Shape} (h : n.Holds shape) (layers : List Layer)
    (discriminator : Option String) :
    taggedShape? discriminator (.node (n.under layers)) =
      .ok (if (discriminator.getD "").isEmpty || !layers.all Layer.isWrapper then none
        else some shape) := by
  have hunwrap : (Value.node (n.under layers)).unwrap = _ := unwrap_under h.isBase layers
  have hinner : (Value.node (n.under (layers.dropWhile Layer.isWrapper))).shape? =
      .ok (if !layers.all Layer.isWrapper then none else some shape) := by
    cases hrest : layers.dropWhile Layer.isWrapper with
    | nil =>
      have hall : layers.all Layer.isWrapper = true :=
        List.all_eq_true.2 (List.dropWhile_eq_nil_iff.1 hrest)
      rw [hall]
      exact h.shape
    | cons l rest =>
      have hpipe : l.isWrapper = false := by
        have hhead := List.head?_dropWhile_not Layer.isWrapper layers
        simpa [hrest] using hhead
      have hall : layers.all Layer.isWrapper = false := by
        rw [Bool.eq_false_iff]
        intro hall
        rw [List.dropWhile_eq_nil_iff.2 (List.all_eq_true.1 hall)] at hrest
        cases hrest
      rw [hall]
      exact shape_of_pipe hpipe _
  unfold taggedShape?
  cases discriminator with
  | none => rfl
  | some key =>
    dsimp only [Option.getD_some]
    rw [hunwrap]
    by_cases hkey : key.isEmpty = true
    · simp only [hkey, Bool.true_or, ↓reduceIte]
    · rw [if_neg hkey]
      simp only [hkey, Bool.false_or]
      exact hinner

theorem variantOf_congr {u v : Value} {path : String} {discriminator : Option String} {index : Nat}
    {shape : Option Shape} (hu : taggedShape? discriminator u = .ok shape)
    (hv : taggedShape? discriminator v = .ok shape)
    (h : ∀ path name, fieldOf path name u = fieldOf path name v) :
    variantOf path discriminator index u = variantOf path discriminator index v := by
  cases shape with
  | none => rw [variantOf_of_none hu, variantOf_of_none hv, h]
  | some shape =>
    cases discriminator with
    | none => cases hu
    | some key => rw [variantOf_of_shape hu, variantOf_of_shape hv]

/-- Nodes that hold the same shape are shown alike. -/
theorem shownAs_of_holds {m n : Node} {shape : Shape} (hm : m.Holds shape) (hn : n.Holds shape) :
    m.ShownAs n where
  root := fun naming steps => by
    simp only [introspect, rootShape, hm.shape, hn.shape]
  field := fieldOf_of_holds hm hn
  member := fun layers _ discriminator _ =>
    variantOf_congr (taggedShape?_of_holds hm layers discriminator)
      (taggedShape?_of_holds hn layers discriminator) (fieldOf_of_holds hm hn layers)

/-! ## Intersections -/

/-- The intersection of nodes that are made of entries holds the merge of all the entries. -/
theorem intersect_holds {m n : Node} {a b : Shape} (hm : (Value.node m).Gathers a)
    (hn : (Value.node n).Gathers b) (hmkeys : (Value.node m).HasDistinctKeys)
    (hnkeys : (Value.node n).HasDistinctKeys) :
    ∃ shape, IsMerge shape (a ++ b) ∧ (m.intersect n).Holds shape := by
  obtain ⟨left, hleft, ha⟩ := hm.isMerge hmkeys
  obtain ⟨right, hright, hb⟩ := hn.isMerge hnkeys
  exact ⟨_, ha.put hb, holds_intersect hleft hright⟩

/-- It does not matter which two of three nodes come together first: the entries are the same, one
after the other. -/
theorem intersect_assoc {l m n : Node} {a b c : Shape} (hl : (Value.node l).Gathers a)
    (hm : (Value.node m).Gathers b) (hn : (Value.node n).Gathers c)
    (hlkeys : (Value.node l).HasDistinctKeys) (hmkeys : (Value.node m).HasDistinctKeys)
    (hnkeys : (Value.node n).HasDistinctKeys) :
    ((l.intersect m).intersect n).ShownAs (l.intersect (m.intersect n)) := by
  obtain ⟨left, hleft, hla⟩ := hl.isMerge hlkeys
  obtain ⟨right, hright, hnc⟩ := hn.isMerge hnkeys
  obtain ⟨first, hab, hfirst⟩ := intersect_holds hl hm hlkeys hmkeys
  obtain ⟨last, hbc, hlast⟩ := intersect_holds hm hn hmkeys hnkeys
  have hsame : putEntries first right = putEntries left last := by
    have habc := hab.put hnc
    rw [List.append_assoc] at habc
    exact habc.unique (hla.put hbc)
  have hheld : ((l.intersect m).intersect n).Holds (putEntries left last) :=
    hsame ▸ holds_intersect hfirst.shape hright
  exact shownAs_of_holds hheld (holds_intersect hleft hlast.shape)

/-- To extend a plain object by the shape of a node comes to its intersection with the node. -/
theorem intersect_shownAs_extend {shape added : Shape} {m : Node}
    (hm : (Value.node m).shape? = .ok (some added)) :
    ∃ extended,
      Method.extend.call (.plain (.object shape)) [.record added] = .ok (.node extended) ∧
        ((Node.plain (.object shape)).intersect m).ShownAs extended :=
  ⟨_, rfl, shownAs_of_holds (holds_intersect (holds_object shape).shape hm)
    (holds_object (putEntries shape added))⟩

/-- Intersections are associative: of three nodes made of entries, it does not matter which two come
together first. The intersection of a plain object with a node is shown as the object extended by
the shape of the node. In an intersection a key stands where it came first in the entries of the
two sides, with the node that it has last. -/
theorem intersect_shownAs {l m n : Node} {a b c : Shape} (hl : (Value.node l).Gathers a)
    (hm : (Value.node m).Gathers b) (hn : (Value.node n).Gathers c)
    (hlkeys : (Value.node l).HasDistinctKeys) (hmkeys : (Value.node m).HasDistinctKeys)
    (hnkeys : (Value.node n).HasDistinctKeys) :
    ((l.intersect m).intersect n).ShownAs (l.intersect (m.intersect n)) ∧
      (∀ shape added, l = .plain (.object shape) → (Value.node m).shape? = .ok (some added) →
        ∃ extended, Method.extend.call l [.record added] = .ok (.node extended) ∧
          (l.intersect m).ShownAs extended) ∧
      ∃ shape, IsMerge shape (a ++ b) ∧ (l.intersect m).ShownAs (.plain (.object shape)) := by
  refine ⟨intersect_assoc hl hm hn hlkeys hmkeys hnkeys, ?_, ?_⟩
  · rintro shape added rfl hadded
    exact intersect_shownAs_extend hadded
  · obtain ⟨shape, hmerge, hholds⟩ := intersect_holds hl hm hlkeys hmkeys
    exact ⟨shape, hmerge, shownAs_of_holds hholds (holds_object shape)⟩

/-- A plain object whose fields are leaves. -/
def leafObject (leaves : List (String × Kind)) : Node :=
  .plain (.object (leaves.map fun leaf => (leaf.1, .node (.plain leaf.2))))

theorem hasDistinctKeys_leafObject {leaves : List (String × Kind)}
    (hkeys : (leaves.map Prod.fst).Nodup)
    (hleaves : ∀ leaf ∈ leaves, leaf.2.keys = [] ∧ leaf.2.values = []) :
    (Value.node (leafObject leaves)).HasDistinctKeys := by
  have hobject : (Value.node (leafObject leaves)).AllSound fun _ => True := by
    refine plain_allSound ?_ ?_
    · simpa [leafObject, Kind.keys, Function.comp_def] using hkeys
    · intro v hv
      obtain ⟨leaf, hleaf, rfl⟩ : ∃ leaf ∈ leaves, Value.node (.plain leaf.2) = v := by
        simpa [leafObject, Kind.values] using hv
      obtain ⟨hnone, hvalues⟩ := hleaves leaf hleaf
      exact plain_allSound (by simp [hnone]) (by simp [hvalues])
  exact hobject.hasDistinctKeys

/-- Three objects that share keys: the second has a key of the first and one of its own, and the
third has one of each. -/
theorem intersect_shownAs_leaves :
    ∃ l m n, l = leafObject [("x", .string none), ("y", .number)] ∧
      m = leafObject [("z", .string none), ("y", .boolean)] ∧
      n = leafObject [("z", .number), ("x", .date)] ∧
      ((l.intersect m).intersect n).ShownAs (l.intersect (m.intersect n)) ∧
      ∃ extended, Method.extend.call l [.record [("z", .node (.plain (.string none))),
        ("y", .node (.plain .boolean))]] = .ok (.node extended) ∧
          (l.intersect m).ShownAs extended := by
  have hkeys (leaves : List (String × Kind)) (hnames : (leaves.map Prod.fst).Nodup)
      (hleaves : ∀ leaf ∈ leaves, leaf.2.keys = [] ∧ leaf.2.values = []) :=
    hasDistinctKeys_leafObject hnames hleaves
  obtain ⟨hassoc, hextend, -⟩ := intersect_shownAs .object .object .object
    (hkeys [("x", .string none), ("y", .number)] (by decide) (by simp [Kind.keys, Kind.values]))
    (hkeys [("z", .string none), ("y", .boolean)] (by decide) (by simp [Kind.keys, Kind.values]))
    (hkeys [("z", .number), ("x", .date)] (by decide) (by simp [Kind.keys, Kind.values]))
  exact ⟨_, _, _, rfl, rfl, rfl, hassoc, hextend _ _ rfl (holds_object _).shape⟩

end FormSchema
