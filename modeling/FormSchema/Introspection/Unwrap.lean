import FormSchema.Failure
import FormSchema.Schema.Node

/-!
# Wrappers and pipes

A field may be wrapped as optional or nullable any number of times, and it may be piped into
other nodes. `Node.unwrap` takes the wrappers off, down to the first node that is none.
`Value.peel` goes on through pipes, on their input side, and notes the description nearest to the
node it ends at. Both end at a smaller node than they start from (`unwrap_size`, `peel_size`).
-/

namespace FormSchema

/-- A node without its wrappers, and which wrappers there were. -/
structure Unwrapped where
  inner : Node
  isOptional : Bool
  isNullable : Bool

/-- Takes the wrappers off a node. -/
def Node.unwrap (n : Node) : Result Unwrapped :=
  match n with
  | ⟨.optional (.node m), _, _⟩ =>
    match m.unwrap with
    | .error e => .error e
    | .ok u => .ok { u with isOptional := true }
  | ⟨.nullable (.node m), _, _⟩ =>
    match m.unwrap with
    | .error e => .error e
    | .ok u => .ok { u with isNullable := true }
  | ⟨.optional v, _, _⟩ => .error (.holdsNoNode v.typeName)
  | ⟨.nullable v, _, _⟩ => .error (.holdsNoNode v.typeName)
  | ⟨.bare "optional", _, _⟩ => .error (.hollowWrapper "optional")
  | ⟨.bare "nullable", _, _⟩ => .error (.hollowWrapper "nullable")
  | n => .ok ⟨n, false, false⟩
termination_by sizeOf n

/-- Takes the wrappers off a value, which has to be a node. -/
def Value.unwrap : Value → Result Unwrapped
  | .node n => n.unwrap
  | v => .error (.notANode v.typeName)

/-- Unwrapping does not go to a greater node. -/
theorem unwrap_size {n : Node} {u : Unwrapped} (h : n.unwrap = .ok u) :
    sizeOf u.inner ≤ sizeOf n := by
  fun_induction Node.unwrap n generalizing u with
  | case1 => simp at h
  | case2 checks description m u' hm ih =>
    have := ih hm
    simp only [Except.ok.injEq] at h
    rw [← h]
    simp only [Node.mk.sizeOf_spec, Kind.optional.sizeOf_spec, Value.node.sizeOf_spec] at *
    omega
  | case3 => simp at h
  | case4 checks description m u' hm ih =>
    have := ih hm
    simp only [Except.ok.injEq] at h
    rw [← h]
    simp only [Node.mk.sizeOf_spec, Kind.nullable.sizeOf_spec, Value.node.sizeOf_spec] at *
    omega
  | case5 => simp at h
  | case6 => simp at h
  | case7 => simp at h
  | case8 => simp at h
  | case9 => simp only [Except.ok.injEq] at h; simp [← h]

theorem unwrap_value_size {v : Value} {u : Unwrapped} (h : v.unwrap = .ok u) :
    sizeOf u.inner < sizeOf v := by
  cases v with
  | node n => have := unwrap_size h; simp only [Value.node.sizeOf_spec]; omega
  | _ => simp [Value.unwrap] at h

/-- The node at the end of the wrappers and pipes of a value. -/
structure Peeled where
  node : Node
  isOptional : Bool
  isNullable : Bool
  /-- The description that counts, `null` if there is none. -/
  description : Value

/-- Of two descriptions the one further inside, if it says something. -/
def nearer (outer inner : Value) : Value :=
  if inner.truthy then inner else outer

/-- Takes wrappers and pipes off a value. The flags and the description of what has been taken
off before are handed on. -/
def peelFrom (isOptional isNullable : Bool) (description : Value) (v : Value) : Result Peeled :=
  match v with
  | .node n =>
    match _h : n.unwrap with
    | .error e => .error e
    | .ok ⟨inner, opt, nul⟩ =>
      let found := nearer (nearer description n.description) inner.description
      match _k : inner.kind with
      | .pipe input _ => peelFrom (isOptional || opt) (isNullable || nul) found input
      | .bare "pipe" => .error .missingPart
      | _ => .ok ⟨inner, isOptional || opt, isNullable || nul, found⟩
  | v => .error (.notANode v.typeName)
termination_by sizeOf v
decreasing_by
  have := unwrap_size _h
  obtain ⟨kind, checks, d⟩ := inner
  simp only at _k
  subst _k
  simp only [Node.mk.sizeOf_spec, Kind.pipe.sizeOf_spec, Value.node.sizeOf_spec] at *
  omega

/-- Takes wrappers and pipes off a value. -/
def Value.peel (v : Value) : Result Peeled :=
  peelFrom false false .null v

/-- Peeling goes to a smaller node. -/
theorem peelFrom_size {a b : Bool} {d v : Value} {p : Peeled} (h : peelFrom a b d v = .ok p) :
    sizeOf p.node < sizeOf v := by
  fun_induction peelFrom a b d v generalizing p with
  | case1 => simp at h
  | case2 =>
    rename_i inner _ _ hu _ _ _ hk ih
    have := ih h
    have := unwrap_size hu
    obtain ⟨kind, checks, d⟩ := inner
    simp only at hk
    subst hk
    simp only [Node.mk.sizeOf_spec, Kind.pipe.sizeOf_spec, Value.node.sizeOf_spec] at *
    omega
  | case3 => simp at h
  | case4 =>
    rename_i hu _ _ _
    have := unwrap_size hu
    simp only [Except.ok.injEq] at h
    rw [← h]
    simp only [Value.node.sizeOf_spec] at *
    omega
  | case5 => simp at h

/-- What is peeled is smaller than what it is peeled from. -/
theorem peel_size {v : Value} {p : Peeled} (h : v.peel = .ok p) : sizeOf p.node < sizeOf v :=
  peelFrom_size h

end FormSchema
