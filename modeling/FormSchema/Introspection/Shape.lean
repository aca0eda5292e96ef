import FormSchema.Failure
import FormSchema.Schema.Node

/-!
# Shapes

An object has a shape, a list of named members. An intersection of objects has one, too: the
members of both sides, the left ones first. A name of both sides keeps its place on the left and
has the member on the right. A shape is smaller than the value it is of (`shape_size`).
-/

namespace FormSchema

/-- The members of an object. -/
abbrev Shape := List (String × Value)

/-- The shape of a value, if it is an object or an intersection of objects. -/
def Value.shape? (v : Value) : Result (Option Shape) :=
  match v with
  | .node ⟨.object shape, _, _⟩ => .ok (some shape)
  | .node ⟨.intersection left right, _, _⟩ =>
    match left.shape? with
    | .error e => .error e
    | .ok l =>
      match right.shape? with
      | .error e => .error e
      | .ok r =>
        match l, r with
        | some l, some r => .ok (some (putEntries l r))
        | _, _ => .ok none
  | .node ⟨.bare "object", _, _⟩ => .error .missingPart
  | .node ⟨.bare "intersection", _, _⟩ => .error .missingPart
  | _ => .ok none
termination_by sizeOf v

theorem sizeOf_putEntry_le {α : Type} [SizeOf α] (es : List (String × α)) (k : String) (v : α) :
    sizeOf (putEntry es k v) ≤ sizeOf es + sizeOf k + sizeOf v + 2 := by
  induction es with
  | nil => simp only [putEntry, List.cons.sizeOf_spec, Prod.mk.sizeOf_spec]; omega
  | cons e rest ih =>
    obtain ⟨k', v'⟩ := e
    unfold putEntry
    split <;> simp only [List.cons.sizeOf_spec, Prod.mk.sizeOf_spec] <;> omega

/-- Merged entries are no greater than the entries of both. -/
theorem sizeOf_putEntries_le {α : Type} [SizeOf α] (es updates : List (String × α)) :
    sizeOf (putEntries es updates) ≤ sizeOf es + sizeOf updates := by
  induction updates generalizing es with
  | nil => simp only [putEntries, List.foldl_nil]; omega
  | cons u rest ih =>
    obtain ⟨k, v⟩ := u
    have step := ih (putEntry es k v)
    have put := sizeOf_putEntry_le es k v
    simp only [putEntries, List.foldl_cons] at step ⊢
    simp only [List.cons.sizeOf_spec, Prod.mk.sizeOf_spec]
    omega

/-- A shape is smaller than the value it is of. -/
theorem shape_size {v : Value} {shape : Shape} (h : v.shape? = .ok (some shape)) :
    sizeOf shape < sizeOf v := by
  fun_induction Value.shape? v generalizing shape with
  | case1 shape' checks description =>
    simp only [Except.ok.injEq, Option.some.injEq] at h
    subst h
    simp only [Value.node.sizeOf_spec, Node.mk.sizeOf_spec, Kind.object.sizeOf_spec]
    omega
  | case2 => simp at h
  | case3 => simp at h
  | case4 =>
    rename_i l r hl hr ihl ihr
    simp only [Except.ok.injEq, Option.some.injEq] at h
    subst h
    have := sizeOf_putEntries_le l r
    have := ihl hl
    have := ihr hr
    simp only [Value.node.sizeOf_spec, Node.mk.sizeOf_spec, Kind.intersection.sizeOf_spec]
    omega
  | case5 => simp at h
  | case6 => simp at h
  | case7 => simp at h
  | case8 => simp at h

end FormSchema
