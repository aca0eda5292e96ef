import FormSchema.Proofs.Origin

/-!
# Layers around a node

A node may stand under any layers, each of them optional, nullable, or a pipe that takes what is
in it as its input. The walk sees through all of them: the field is that of the node, and the layers
only say whether it may be missing or null and describe it if the node does not
(`fieldOf_under`).

Descriptions are not looked for on all layers. The wrappers that follow each other are taken off in
one go, and only the outermost of them is asked for its description (`seen`); pipes are always asked.
Layers that say nothing change the two flags only, so neither their order nor their number matters
(`fieldOf_under_of_silent`).
-/

namespace FormSchema

/-! ## Layers -/

/-- What a layer is. -/
inductive Wrap
  | optional
  | nullable
  | pipe (output : Value)

/-- The kind of node that holds a value as the layer does. -/
def Wrap.kind (inner : Value) : Wrap → Kind
  | optional => .optional inner
  | nullable => .nullable inner
  | pipe output => .pipe inner output

/-- A layer around a node. -/
structure Layer where
  wrap : Wrap
  checks : List Check
  description : Option String

namespace Layer

/-- Whether the layer is optional. -/
def isOptional (l : Layer) : Bool :=
  match l.wrap with
  | .optional => true
  | _ => false

/-- Whether the layer is nullable. -/
def isNullable (l : Layer) : Bool :=
  match l.wrap with
  | .nullable => true
  | _ => false

/-- Whether the layer is optional or nullable. -/
def isWrapper (l : Layer) : Bool :=
  l.isOptional || l.isNullable

/-- The description of the layer, unless it is empty. -/
def told? (l : Layer) : Option String :=
  l.description.filter fun s => !s.isEmpty

/-- The node in the layer. -/
def around (l : Layer) (n : Node) : Node :=
  ⟨l.wrap.kind (.node n), l.checks, Value.ofText? l.description⟩

end Layer

/-- The node under layers, the outermost first. -/
def Node.under (n : Node) (layers : List Layer) : Node :=
  layers.foldr Layer.around n

/-- The node is neither a wrapper nor a pipe. -/
def Node.IsBase (n : Node) : Prop :=
  n.tag ∉ ["optional", "nullable", "pipe"]

instance (n : Node) : Decidable n.IsBase :=
  inferInstanceAs (Decidable (n.tag ∉ ["optional", "nullable", "pipe"]))

theorem unwrap_of_no_wrapper {n : Node} (h : n.tag ∉ ["optional", "nullable"]) :
    n.unwrap = .ok ⟨n, false, false⟩ := by
  obtain ⟨kind, checks, d⟩ := n
  rw [Node.unwrap]
  all_goals
    intros
    simp_all [Node.tag, Kind.tag]

/-- Unwrapping takes off the wrappers down to the first pipe. -/
theorem unwrap_under {n : Node} (hn : n.IsBase) : ∀ layers : List Layer,
    (n.under layers).unwrap = .ok ⟨n.under (layers.dropWhile Layer.isWrapper),
      (layers.takeWhile Layer.isWrapper).any Layer.isOptional,
      (layers.takeWhile Layer.isWrapper).any Layer.isNullable⟩
  | [] => unwrap_of_no_wrapper fun h => hn (List.mem_of_mem_take (i := 2) h)
  | ⟨.optional, checks, d⟩ :: rest => by
    show Node.unwrap ⟨.optional (.node (n.under rest)), checks, Value.ofText? d⟩ = _
    rw [Node.unwrap, unwrap_under hn rest]
    rfl
  | ⟨.nullable, checks, d⟩ :: rest => by
    show Node.unwrap ⟨.nullable (.node (n.under rest)), checks, Value.ofText? d⟩ = _
    rw [Node.unwrap, unwrap_under hn rest]
    rfl
  | ⟨.pipe output, checks, d⟩ :: rest =>
    unwrap_of_no_wrapper (by
      show "pipe" ∉ ["optional", "nullable"]
      decide)

/-! ## Descriptions -/

/-- The layers that are asked for their description. A wrapper right inside another one is not;
`above` says whether there is a wrapper right outside all of them. -/
def seen (above : Bool) : List Layer → List Layer
  | [] => []
  | l :: rest =>
    if above && l.isWrapper then seen true rest else l :: seen l.isWrapper rest

/-- The description that is nearest after all layers were asked, the outermost first. -/
def nearest (description : Value) (layers : List Layer) : Value :=
  layers.foldl (fun d l => nearer d (Value.ofText? l.description)) description

/-- Inside a wrapper the wrappers that follow at once are not seen. -/
theorem seen_true : ∀ layers : List Layer,
    seen true layers = seen false (layers.dropWhile Layer.isWrapper)
  | [] => rfl
  | l :: rest => by
    rw [seen, List.dropWhile_cons]
    cases hl : l.isWrapper with
    | true => simpa using seen_true rest
    | false => simp [seen, hl]

/-- Of the wrappers at the top only the first one is asked. -/
theorem seen_false (layers : List Layer) :
    seen false layers = (layers.takeWhile Layer.isWrapper).take 1 ++
      seen false (layers.dropWhile Layer.isWrapper) := by
  cases layers with
  | nil => rfl
  | cons l rest =>
    rw [List.takeWhile_cons, List.dropWhile_cons]
    cases hl : l.isWrapper with
    | true => simp [seen, hl, seen_true]
    | false => simp [seen, hl]

theorem nearer_nearer (d e : Value) : nearer (nearer d e) e = nearer d e := by
  unfold nearer
  split <;> rfl

/-- The nearest description is found from outside to inside. -/
theorem nearest_append (d : Value) (a b : List Layer) :
    nearest d (a ++ b) = nearest (nearest d a) b :=
  List.foldl_append

/-- Before a run of wrappers is taken off and after, the first wrapper and what is in the run are
asked. -/
theorem nearer_run (n : Node) (d : Value) (layers : List Layer) :
    nearer (nearer d (n.under layers).description)
        (n.under (layers.dropWhile Layer.isWrapper)).description =
      nearer (nearest d ((layers.takeWhile Layer.isWrapper).take 1))
        (n.under (layers.dropWhile Layer.isWrapper)).description := by
  cases layers with
  | nil => exact nearer_nearer d _
  | cons l rest =>
    rw [List.takeWhile_cons, List.dropWhile_cons]
    cases l.isWrapper with
    | true => rfl
    | false => exact nearer_nearer d _

/-! ## Peeling -/

/-- Peeling ends at a node that is neither a wrapper nor a pipe. -/
theorem peelFrom_of_isBase {m : Node} {u : Unwrapped} {isOptional isNullable : Bool} {d : Value}
    (hu : m.unwrap = .ok u) (hn : u.inner.IsBase) : peelFrom isOptional isNullable d (.node m) =
      .ok ⟨u.inner, isOptional || u.isOptional, isNullable || u.isNullable,
        nearer (nearer d m.description) u.inner.description⟩ := by
  rw [peelFrom_of_unwrap hu]
  have htag {kind : Kind} (hkind : u.inner.kind = kind) : kind.tag ≠ "pipe" := by
    intro h
    exact hn (by simp [Node.tag, hkind, h])
  split
  · rename_i hkind
    exact absurd rfl (htag hkind)
  · rename_i hkind
    exact absurd rfl (htag hkind)
  · rfl

theorem any_run (layers : List Layer) (is : Layer → Bool) (flag : Bool) :
    (flag || layers.any is) = ((flag || (layers.takeWhile Layer.isWrapper).any is) ||
      (layers.dropWhile Layer.isWrapper).any is) := by
  rw [Bool.or_assoc, ← List.any_append, List.takeWhile_append_dropWhile]

/-- A node under layers is peeled to the node. The flags are those of all layers, but only the
layers that are seen are asked for a description. -/
theorem peelFrom_under {n : Node} (hn : n.IsBase) (layers : List Layer)
    (isOptional isNullable : Bool) (d : Value) :
    peelFrom isOptional isNullable d (.node (n.under layers)) =
      .ok ⟨n, isOptional || layers.any Layer.isOptional, isNullable || layers.any Layer.isNullable,
        nearer (nearest d (seen false layers)) n.description⟩ := by
  have hunwrap := unwrap_under hn layers
  have hrun := nearer_run n d layers
  rw [seen_false, any_run layers Layer.isOptional, any_run layers Layer.isNullable]
  cases hrest : layers.dropWhile Layer.isWrapper with
  | nil =>
    rw [hrest] at hunwrap hrun
    rw [peelFrom_of_isBase hunwrap hn]
    simp only [List.any_nil, Bool.or_false, seen, List.append_nil]
    exact congrArg (fun d => Except.ok (Peeled.mk n _ _ d)) hrun
  | cons l rest =>
    -- Below the wrappers stands a pipe, and its input is under fewer layers.
    have hpipe : l.isWrapper = false := by
      have hhead := List.head?_dropWhile_not Layer.isWrapper layers
      simpa [hrest] using hhead
    have hless : rest.length < layers.length := by
      have hle := (List.dropWhile_sublist (l := layers) Layer.isWrapper).length_le
      rw [hrest, List.length_cons] at hle
      omega
    obtain ⟨wrap, checks, description⟩ := l
    cases wrap with
    | optional => cases hpipe
    | nullable => cases hpipe
    | pipe output =>
      rw [hrest] at hunwrap hrun
      rw [peelFrom_of_unwrap hunwrap]
      dsimp only
      rw [hrun, nearest_append]
      exact peelFrom_under hn rest _ _ _
termination_by layers.length

/-- A node that is neither a wrapper nor a pipe is peeled to itself. -/
theorem peel_of_isBase {n : Node} (hn : n.IsBase) :
    (Value.node n).peel = .ok ⟨n, false, false, nearer .null n.description⟩ :=
  peelFrom_under hn [] false false .null

/-! ## Fields -/

/-- The innermost description of layers. -/
def told (layers : List Layer) : Option String :=
  (layers.filterMap Layer.told?).getLast?

/-- Inner layers tell before outer ones. -/
theorem told_append (a b : List Layer) : told (a ++ b) = (told b).or (told a) := by
  rw [told, List.filterMap_append, List.getLast?_append]
  rfl

theorem told_cons (l : Layer) (rest : List Layer) :
    told (l :: rest) = (told rest).or l.told? := by
  rw [← List.singleton_append, told_append]
  cases h : l.told? <;> simp [told, h]

theorem nearer_description (d : Value) (l : Layer) :
    nearer d (Value.ofText? l.description) = (l.told?.map Value.text).getD d := by
  obtain ⟨wrap, checks, description⟩ := l
  cases description with
  | none => rfl
  | some s =>
    cases hs : s.isEmpty <;>
      simp [nearer, Layer.told?, Value.ofText?, Value.truthy, Option.filter, hs]

/-- The nearest description is the one that is told, or the one before all layers. -/
theorem nearest_eq (d : Value) (layers : List Layer) :
    nearest d layers = ((told layers).map Value.text).getD d := by
  induction layers generalizing d with
  | nil => rfl
  | cons l rest ih =>
    show nearest (nearer d (Value.ofText? l.description)) rest = _
    rw [ih, nearer_description, told_cons]
    cases told rest <;> rfl

theorem nonempty_of_told {layers : List Layer} {s : String} (h : told layers = some s) :
    s.isEmpty = false := by
  obtain ⟨l, -, hl⟩ := List.mem_filterMap.1 (List.mem_of_getLast? h)
  simpa using (Option.filter_eq_some_iff.1 hl).2

/-- What the field of a node becomes when the node stands under layers. -/
def Field.under (f : Field) (layers : List Layer) : Field :=
  { f with
    description := f.description.or (told (seen false layers))
    isOptional := layers.any Layer.isOptional
    isNullable := layers.any Layer.isNullable }

/-- A description of the node itself counts, whatever the layers tell. -/
theorem descriptionText_nearer (layers : List Layer) (d : Value) :
    descriptionText (nearer (nearest .null layers) d) =
      (descriptionText (nearer .null d)).map fun o => o.or (told layers) := by
  rw [nearest_eq]
  unfold nearer
  split
  · -- The text is that of the node.
    rename_i hd
    cases d <;> simp [descriptionText, hd, Except.map]
  · cases h : told layers with
    | none => rfl
    | some s => simp [descriptionText, Value.truthy, nonempty_of_told h, Except.map]

section

variable {α β : Type} {change : β → β}

/-- Two steps that differ in their results by a change differ so when they are bound. -/
theorem Warned.run_bind_map (w : Warned α) {f g : α → Warned β}
    (h : ∀ a, (g a).run = (f a).run.map (Prod.map change id)) :
    (w >>= g).run = (w >>= f).run.map (Prod.map change id) := by
  show (bind w g).run = (bind w f).run.map _
  unfold bind
  dsimp only
  cases w.run with
  | error e => rfl
  | ok a =>
    dsimp only
    rw [h]
    cases (f a.1).run <;> rfl

theorem Warned.run_ofResult_map {r s : Result β} (h : s = r.map change) :
    (ofResult s).run = (ofResult r).run.map (Prod.map change id) := by
  subst h
  cases r <;> rfl

end

/-- If the fields of two peelings of one node differ by a change, then so does what is read. -/
theorem Peeled.read_map {p q : Peeled} {name : String} {change : Field → Field}
    (hnode : q.node = p.node)
    (h : ∀ c content, q.field name c content = (p.field name c content).map change)
    (path : String) (plan : Plan) :
    (q.read path name plan).run = (p.read path name plan).run.map (Prod.map change id) := by
  unfold Peeled.read
  rw [hnode]
  cases plan with
  | refused reason =>
    exact Warned.run_bind_map _ fun _ => Warned.run_ofResult_map (h _ _)
  | _ =>
    exact Warned.run_bind_map _ fun c => Warned.run_bind_map _ fun content =>
      Warned.run_ofResult_map (h c content)

/-- A node under layers becomes the field that the node becomes, with what the layers say. -/
theorem fieldOf_under {n : Node} (hn : n.IsBase) (layers : List Layer) (path name : String) :
    (fieldOf path name (.node (n.under layers))).run =
      (fieldOf path name (.node n)).run.map (Prod.map (fun f => f.under layers) id) := by
  have hbase := peel_of_isBase hn
  have hunder : (Value.node (n.under layers)).peel = .ok ⟨n, layers.any Layer.isOptional,
      layers.any Layer.isNullable, nearer (nearest .null (seen false layers)) n.description⟩ :=
    peelFrom_under hn layers false false .null
  cases hplan : n.plan with
  | error e =>
    rw [fieldOf_of_plan_error hbase hplan, fieldOf_of_plan_error hunder hplan]
    rfl
  | ok plan =>
    rw [fieldOf_of_plan hbase hplan, fieldOf_of_plan hunder hplan]
    refine Peeled.read_map (by rfl) (fun c content => ?_) path plan
    unfold Peeled.field
    dsimp only
    rw [descriptionText_nearer]
    cases descriptionText (nearer .null n.description) <;> rfl

/-! ## The innermost description -/

/-- Nothing is told just if no layer tells anything. -/
theorem told_eq_none_iff {layers : List Layer} :
    told layers = none ↔ ∀ l ∈ layers, l.told? = none := by
  rw [told, List.getLast?_eq_none_iff, List.filterMap_eq_nil_iff]

/-- What layers tell is the description of the innermost layer that has one. -/
theorem told_eq_some_iff {layers : List Layer} {s : String} :
    told layers = some s ↔ ∃ outer l inner, layers = outer ++ l :: inner ∧ l.told? = some s ∧
      ∀ m ∈ inner, m.told? = none := by
  constructor
  · intro h
    obtain ⟨texts, htexts⟩ := List.getLast?_eq_some_iff.1 h
    obtain ⟨front, back, rfl, -, hback⟩ := List.filterMap_eq_append_iff.1 htexts
    obtain ⟨silent, l, inner, rfl, -, hl, hinner⟩ := List.filterMap_eq_cons_iff.1 hback
    exact ⟨front ++ silent, l, inner, (List.append_assoc _ _ _).symm, hl,
      List.filterMap_eq_nil_iff.1 hinner⟩
  · rintro ⟨outer, l, inner, rfl, hl, hinner⟩
    rw [told_append, told_cons, told_eq_none_iff.2 hinner, hl]
    rfl

/-- The layers that are seen are among the layers, in order. -/
theorem seen_sublist (above : Bool) (layers : List Layer) : (seen above layers).Sublist layers := by
  induction layers generalizing above with
  | nil => exact .slnil
  | cons l rest ih =>
    rw [seen]
    split
    · exact (ih true).cons l
    · exact (ih l.isWrapper).cons_cons l

/-- Whether the innermost of the layers is a wrapper. -/
def endsInWrapper (above : Bool) (layers : List Layer) : Bool :=
  (layers.getLast?.map Layer.isWrapper).getD above

/-- Which inner layers are seen depends on whether the outer ones end in a wrapper. -/
theorem seen_append (above : Bool) (a b : List Layer) :
    seen above (a ++ b) = seen above a ++ seen (endsInWrapper above a) b := by
  induction a generalizing above with
  | nil => rfl
  | cons l rest ih =>
    have hends : endsInWrapper above (l :: rest) = endsInWrapper l.isWrapper rest := by
      rw [endsInWrapper, List.getLast?_cons]
      cases h : rest.getLast? <;> simp [endsInWrapper, h]
    rw [hends, List.cons_append, seen, seen]
    split
    · rename_i habove
      rw [ih, (Bool.and_eq_true_iff.1 habove).2]
    · rw [ih, List.cons_append]

/-- The innermost layer with a description is no wrapper right inside another one, or else what is
seen outside it tells the same. -/
def InnermostIsSeen (layers : List Layer) : Prop :=
  ∀ outer l inner, layers = outer ++ l :: inner → l.told?.isSome → (∀ m ∈ inner, m.told? = none) →
    ¬(l.isWrapper ∧ endsInWrapper false outer) ∨ told (seen false outer) = l.told?

/-- A description is told from the layers that are seen just if its layer is seen or one outside
tells the same. -/
theorem told_seen_iff {outer inner : List Layer} {l : Layer} {s : String} (hl : l.told? = some s)
    (hinner : ∀ m ∈ inner, m.told? = none) :
    told (seen false (outer ++ l :: inner)) = some s ↔
      ¬(l.isWrapper ∧ endsInWrapper false outer) ∨ told (seen false outer) = some s := by
  have hsilent (above : Bool) : told (seen above inner) = none :=
    told_eq_none_iff.2 fun m hm => hinner m ((seen_sublist above inner).mem hm)
  rw [seen_append, told_append, seen]
  split
  · rename_i hhidden
    rw [hsilent, Option.none_or]
    simp_all
  · rename_i hseen
    have hone : told (l :: seen l.isWrapper inner) = some s := by
      rw [told_cons, hsilent, Option.none_or, hl]
    rw [hone, Option.some_or]
    exact iff_of_true rfl (.inl fun h => hseen (Bool.and_eq_true_iff.2 h.symm))

/-- The layers that are seen tell what all layers tell just if the innermost description is seen. -/
theorem told_seen_eq_iff (layers : List Layer) :
    told (seen false layers) = told layers ↔ InnermostIsSeen layers := by
  cases htold : told layers with
  | none =>
    have hsilent := told_eq_none_iff.1 htold
    refine iff_of_true
      (told_eq_none_iff.2 fun m hm => hsilent m ((seen_sublist false layers).mem hm)) ?_
    rintro outer l inner rfl hl -
    rw [hsilent l (by simp)] at hl
    cases hl
  | some s =>
    constructor
    · rintro hseen outer l inner rfl hl hinner
      obtain ⟨t, hl⟩ := Option.isSome_iff_exists.1 hl
      obtain rfl : s = t :=
        Option.some.inj (htold.symm.trans (told_eq_some_iff.2 ⟨outer, l, inner, rfl, hl, hinner⟩))
      rw [hl]
      exact (told_seen_iff hl hinner).1 hseen
    · intro hinnermost
      obtain ⟨outer, l, inner, rfl, hl, hinner⟩ := told_eq_some_iff.1 htold
      have hcase := hinnermost outer l inner rfl (by simp [hl]) hinner
      rw [hl] at hcase
      exact (told_seen_iff hl hinner).2 hcase

theorem descriptionText_nearer_null (d : Value) :
    descriptionText (nearer .null d) = descriptionText d := by
  unfold nearer
  split
  · rfl
  · rename_i hd
    have hnone : descriptionText d = .ok none := if_neg hd
    exact hnone.symm

/-- The field of a node that is neither a wrapper nor a pipe has the description of the node. -/
theorem descriptionText_of_isBase {n : Node} (hn : n.IsBase) {path name : String} {f : Field}
    {warnings : List String} (h : (fieldOf path name (.node n)).run = .ok (f, warnings)) :
    descriptionText n.description = .ok f.description := by
  obtain ⟨p, hp, description, hd, _, _, rfl, -⟩ := fieldOf_cases h
  obtain rfl := Except.ok.inj ((peel_of_isBase hn).symm.trans hp)
  exact (descriptionText_nearer_null _).symm.trans hd

/-- A node under layers becomes the field of the node with the flags of the layers. A description
of the node itself stays, and where there is none, the innermost one of the layers counts if and
only if it is seen. -/
theorem fieldOf_under_description {n : Node} (hn : n.IsBase) (layers : List Layer)
    (path name : String) :
    (fieldOf path name (.node (n.under layers))).run =
        (fieldOf path name (.node n)).run.map (Prod.map (fun f => f.under layers) id) ∧
      ∀ f warnings, (fieldOf path name (.node n)).run = .ok (f, warnings) →
        descriptionText n.description = .ok f.description ∧
          ((f.under layers).description = f.description.or (told layers) ↔
            f.description.isSome ∨ InnermostIsSeen layers) := by
  refine ⟨fieldOf_under hn layers path name, fun f warnings hf =>
    ⟨descriptionText_of_isBase hn hf, ?_⟩⟩
  rw [← told_seen_eq_iff]
  show f.description.or (told (seen false layers)) = f.description.or (told layers) ↔ _
  cases f.description <;> simp

/-- A text that may be missing or null, described where it is made optional. -/
def hiddenLayers : List Layer :=
  [⟨.nullable, [], none⟩, ⟨.optional, [], some "inner"⟩]

/-- The field of such a text has no description, though there is one, which is not seen. -/
theorem fieldOf_under_hiddenLayers :
    ∃ f, (fieldOf "a" "a" (.node ((Node.plain (.string none)).under hiddenLayers))).run =
        .ok (f, []) ∧ f.description = none ∧ told hiddenLayers = some "inner" ∧
          ¬InnermostIsSeen hiddenLayers := by
  have hbase : (Node.plain (.string none)).IsBase := by decide
  have htold : told hiddenLayers = some "inner" := by decide
  have hplain : (fieldOf "a" "a" (.node (.plain (.string none)))).run =
      .ok (⟨"a", Text.label "a", none, false, false, {}, .string, none⟩, []) :=
    fieldOf_of_read (peel_of_isBase hbase) rfl rfl rfl rfl
  obtain ⟨hrun, hdescription⟩ := fieldOf_under_description hbase hiddenLayers "a" "a"
  rw [hplain] at hrun
  refine ⟨_, hrun, by decide, htold, fun hseen => ?_⟩
  have hnearest := (hdescription _ _ hplain).2.2 (.inr hseen)
  rw [htold] at hnearest
  cases hnearest

/-! ## Layers without a description -/

/-- The field with other flags. -/
def Field.withFlags (f : Field) (isOptional isNullable : Bool) : Field :=
  { f with isOptional, isNullable }

/-- Silent layers tell nothing, seen or not. -/
theorem told_eq_none_of_silent {layers : List Layer} (h : ∀ l ∈ layers, l.told? = none)
    (above : Bool) : told (seen above layers) = none :=
  told_eq_none_iff.2 fun l hl => h l ((seen_sublist above layers).mem hl)

/-- Layers that tell nothing change only the flags. -/
theorem Field.under_of_silent {layers : List Layer} (h : ∀ l ∈ layers, l.told? = none)
    (f : Field) :
    f.under layers = f.withFlags (layers.any Layer.isOptional) (layers.any Layer.isNullable) := by
  rw [Field.under, told_eq_none_of_silent h, Option.or_none]
  rfl

theorem any_eq_any_of_iff {α : Type} {is : α → Bool} {a b : List α}
    (h : (∃ x ∈ a, is x = true) ↔ ∃ x ∈ b, is x = true) : a.any is = b.any is := by
  rw [Bool.eq_iff_iff, List.any_eq_true, List.any_eq_true]
  exact h

/-- A node under layers without a description becomes the field of the node, with the same warnings
or the same failure; it may be missing if some layer is optional and null if some layer is nullable.
So all layers that agree in this give the same field, in whatever order, number and mixture. -/
theorem fieldOf_under_of_silent {n : Node} (hn : n.IsBase) {layers : List Layer}
    (h : ∀ l ∈ layers, l.told? = none) (path name : String) :
    (fieldOf path name (.node (n.under layers))).run =
        (fieldOf path name (.node n)).run.map (Prod.map (fun f =>
          f.withFlags (layers.any Layer.isOptional) (layers.any Layer.isNullable)) id) ∧
      ∀ others : List Layer, (∀ l ∈ others, l.told? = none) →
        ((∃ l ∈ others, l.isOptional = true) ↔ ∃ l ∈ layers, l.isOptional = true) →
        ((∃ l ∈ others, l.isNullable = true) ↔ ∃ l ∈ layers, l.isNullable = true) →
          (fieldOf path name (.node (n.under others))).run =
            (fieldOf path name (.node (n.under layers))).run := by
  have hflags {layers : List Layer} (h : ∀ l ∈ layers, l.told? = none) :
      (fieldOf path name (.node (n.under layers))).run =
        (fieldOf path name (.node n)).run.map (Prod.map (fun f =>
          f.withFlags (layers.any Layer.isOptional) (layers.any Layer.isNullable)) id) := by
    rw [fieldOf_under hn]
    simp only [Field.under_of_silent h]
  refine ⟨hflags h, fun others hothers hoptional hnullable => ?_⟩
  rw [hflags hothers, hflags h, any_eq_any_of_iff hoptional, any_eq_any_of_iff hnullable]

/-- A wrapper, a transform and the other wrapper. -/
def mixedLayers : List Layer :=
  [⟨.nullable, [], none⟩, ⟨.pipe (.node (.plain .transform)), [], none⟩, ⟨.optional, [], some ""⟩]

/-- The wrappers in another order, some of them twice. -/
def repeatedLayers : List Layer :=
  [⟨.optional, [.named "custom"], none⟩, ⟨.optional, [], none⟩, ⟨.nullable, [], none⟩,
    ⟨.optional, [], none⟩]

/-- Under both the field of a text is the same: it may be missing and null. -/
theorem fieldOf_under_mixedLayers :
    (fieldOf "a" "a" (.node ((Node.plain (.string none)).under mixedLayers))).run =
        .ok (⟨"a", Text.label "a", none, true, true, {}, .string, none⟩, []) ∧
      (fieldOf "a" "a" (.node ((Node.plain (.string none)).under repeatedLayers))).run =
        .ok (⟨"a", Text.label "a", none, true, true, {}, .string, none⟩, []) := by
  have hbase : (Node.plain (.string none)).IsBase := by decide
  have hplain : (fieldOf "a" "a" (.node (.plain (.string none)))).run =
      .ok (⟨"a", Text.label "a", none, false, false, {}, .string, none⟩, []) :=
    fieldOf_of_read (peel_of_isBase hbase) rfl rfl rfl rfl
  have hsilent : ∀ l ∈ mixedLayers, l.told? = none := by decide
  obtain ⟨hmixed, hsame⟩ := fieldOf_under_of_silent hbase hsilent "a" "a"
  rw [hplain] at hmixed
  exact ⟨hmixed, (hsame repeatedLayers (by decide) (by decide) (by decide)).trans hmixed⟩

end FormSchema
