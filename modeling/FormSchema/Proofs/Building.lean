import FormSchema.Proofs.Bounds
import FormSchema.Proofs.Entries
import FormSchema.Failure
import FormSchema.Schema.Build

/-!
# Schemas that are built

`BuiltFrom P` says that a value is built by calls of the constructors and the methods, from plain
data whose numbers satisfy `P`. What a method gives is said once (`Node.Gives`, `gives_of_call`):
most methods put a node around their owner or attach a check to it. What is built is sound at every
depth (`BuiltFrom.allSound`): no two members of a shape and no two entries of an enum have the same
key, the checks of a node are such as its kind has methods for, and the numbers of the checks are
given numbers or bounded ones.

A record may stand for a node (`asChild`). Such a bare node has whatever checks the record lists.
-/

namespace FormSchema

/-! ## Reading members -/

/-- Two parts are valid together just if each one is. -/
theorem Checked.and_eq_valid {α β : Type} {f : Checked (α → β)} {a : Checked α} {b : β} :
    f.and a = .valid b ↔ ∃ g x, f = .valid g ∧ a = .valid x ∧ g x = b := by
  cases f <;> cases a <;> simp [Checked.and]

/-- A member that is read was there, with a value that reads so. -/
theorem nullable_eq_valid {α : Type} {es : Entries} {name : String} {read : Datum → Option α}
    {o : Option α} (h : es.nullable name read = .valid o) :
    ∀ a ∈ o, ∃ d, es.lookup name = some d ∧ read d = some a := by
  intro a ha
  obtain rfl : o = some a := ha
  unfold Entries.nullable at h
  split at h
  · cases h
  · cases h
  · rename_i d _ hd
    refine ⟨d, hd, ?_⟩
    cases hread : read d with
    | none => simp [hread, Checked.ofOption, Checked.map] at h
    | some b => simpa [hread, Checked.ofOption, Checked.map] using h

theorem nullable_of_nullableNumber {es : Entries} {name : String} {o : Option Number}
    (h : es.nullableNumber name = .valid o) : es.nullable name Datum.number? = .valid o := by
  unfold Entries.nullableNumber at h
  split at h
  · rename_i heq
    cases h
    exact heq
  · cases h

/-- A number that is read was there, with a value that is a number. -/
theorem nullableNumber_eq_valid {es : Entries} {name : String} {o : Option Number}
    (h : es.nullableNumber name = .valid o) :
    ∀ n ∈ o, ∃ d, es.lookup name = some d ∧ d.number? = some n :=
  nullable_eq_valid (nullable_of_nullableNumber h)

/-- The scalars of entries stand at the same keys. -/
theorem lookup_scalarEntries (entries : List (String × Value)) (key : String) :
    (scalarEntries entries).lookup key = (entries.lookup key).map Value.scalar := by
  induction entries with
  | nil => rfl
  | cons e rest ih =>
    obtain ⟨k, v⟩ := e
    show ((k, v.scalar) :: scalarEntries rest).lookup key = _
    rw [lookup_entry, lookup_entry, ih]
    split <;> rfl

/-! ## Built values -/

/-- A value that calls of constructors and methods give, with numbers that satisfy a predicate. -/
inductive BuiltFrom (P : Number → Prop) : Value → Prop
  | null : BuiltFrom P .null
  | bool (b : Bool) : BuiltFrom P (.bool b)
  | number {n : Number} (h : P n) : BuiltFrom P (.number n)
  | text (s : String) : BuiltFrom P (.text s)
  | list {items : List Value} (h : ∀ v ∈ items, BuiltFrom P v) : BuiltFrom P (.list items)
  | record {entries : List (String × Value)} (hkeys : (entries.map Prod.fst).Nodup)
      (h : ∀ e ∈ entries, BuiltFrom P e.2) : BuiltFrom P (.record entries)
  | constructors : BuiltFrom P .constructors
  | isoConstructors : BuiltFrom P .isoConstructors
  | builder (b : Builder) : BuiltFrom P (.builder b)
  | method {n : Node} {m : Method} (h : BuiltFrom P (.node n)) (hof : m.isOf n.kind = true) :
      BuiltFrom P (.method n m)
  | construct {b : Builder} {arguments : List Value} {v : Value}
      (h : ∀ a ∈ arguments, BuiltFrom P a) (hcall : b.call arguments = .ok v) : BuiltFrom P v
  | call {n : Node} {m : Method} {arguments : List Value} {v : Value} (hn : BuiltFrom P (.node n))
      (hof : m.isOf n.kind = true) (h : ∀ a ∈ arguments, BuiltFrom P a)
      (hcall : m.call n arguments = .ok v) : BuiltFrom P v

/-- The values of the children of a kind. -/
def Kind.values : Kind → List Value
  | .object shape => shape.map Prod.snd
  | .array element => [element]
  | .set element => [element]
  | .tuple items => items
  | .record key value => [key, value]
  | .union options _ => options
  | .intersection left right => [left, right]
  | .optional inner => [inner]
  | .nullable inner => [inner]
  | .pipe input output => [input, output]
  | _ => []

/-- The values right inside a value. -/
def Value.values : Value → List Value
  | .list items => items
  | .record entries => entries.map Prod.snd
  | .node n => n.kind.values
  | .method n _ => [.node n]
  | _ => []

/-- The first value lies inside the second one at some depth, or is the second one itself. -/
inductive Value.Inside : Value → Value → Prop
  | self (v : Value) : v.Inside v
  | deeper {u w v : Value} : w ∈ v.values → u.Inside w → u.Inside v

/-- The names of the checks that the methods of a kind attach. -/
def Kind.checkNames : Kind → List String
  | .string _ => ["min_length", "max_length", "string_format", "length_equals", "overwrite", "custom"]
  | .number => ["greater_than", "less_than", "number_format", "multiple_of", "custom"]
  | .array _ => ["min_length", "max_length", "length_equals", "custom"]
  | _ => ["custom"]

/-- The keys of a kind that has some. -/
def Kind.keys : Kind → List String
  | .object shape => shape.map Prod.fst
  | .enum entries => entries.map Prod.fst
  | _ => []

/-- The numbers that the arguments of a check are read as. -/
def Check.numbers (c : Check) : List Number :=
  c.minimum.toList ++ c.maximum.toList ++ (c.value.scalar.number?).toList

/-- A node with distinct keys and checks that fit. -/
structure Node.IsSound (P : Number → Prop) (n : Node) : Prop where
  checks : (∃ tag, n.kind = .bare tag) ∨ ∀ c ∈ n.checks, c.name ∈ n.kind.checkNames
  numbers : ∀ c ∈ n.checks, ∀ k ∈ c.numbers, P k ∨ k.IsBounded
  keys : n.kind.keys.Nodup

/-- What a single value has to satisfy. -/
def Value.IsSound (P : Number → Prop) : Value → Prop
  | .number n => P n
  | .record entries => (entries.map Prod.fst).Nodup
  | .node n => n.IsSound P
  | _ => True

/-- All values inside a value are sound. -/
def Value.AllSound (P : Number → Prop) (v : Value) : Prop :=
  ∀ u : Value, u.Inside v → u.IsSound P

variable {P : Number → Prop}

/-- What lies inside an inner value lies inside the outer one. -/
theorem Value.Inside.trans {u v w : Value} (h : u.Inside v) (h' : v.Inside w) : u.Inside w := by
  induction h' with
  | self => exact h
  | deeper hmem _ ih => exact .deeper hmem ih

/-- What holds of a node and of all nodes inside its parts holds of all nodes inside it. -/
theorem forall_inside_node {Q : Node → Prop} {n : Node} (hn : Q n)
    (h : ∀ v ∈ n.kind.values, ∀ m : Node, (Value.node m).Inside v → Q m) :
    ∀ m : Node, (Value.node m).Inside (.node n) → Q m := by
  intro m hm
  obtain - | ⟨hmem, hm⟩ := hm
  · exact hn
  · exact h _ hmem m hm

/-- A value is sound throughout just if it is itself and its parts are. -/
theorem allSound_iff {v : Value} :
    v.AllSound P ↔ v.IsSound P ∧ ∀ w ∈ v.values, w.AllSound P := by
  constructor
  · exact fun h => ⟨h v (.self v), fun w hw u hu => h u (.deeper hw hu)⟩
  · rintro ⟨hself, hvalues⟩ u hu
    cases hu with
    | self => exact hself
    | deeper hmem hinside => exact hvalues _ hmem u hinside

theorem Value.AllSound.of_mem {v w : Value} (h : v.AllSound P) (hw : w ∈ v.values) :
    w.AllSound P :=
  (allSound_iff.1 h).2 w hw

theorem Value.AllSound.node {n : Node} (h : (Value.node n).AllSound P) : n.IsSound P :=
  h _ (.self _)

theorem text_allSound (s : String) : (Value.text s).AllSound P :=
  allSound_iff.2 ⟨trivial, by simp [Value.values]⟩

/-- A node that is sound itself and whose children are sound. -/
theorem node_allSound {n : Node} (hn : n.IsSound P) (h : ∀ w ∈ n.kind.values, w.AllSound P) :
    (Value.node n).AllSound P :=
  allSound_iff.2 ⟨hn, h⟩

/-- A node without checks. -/
theorem plain_allSound {kind : Kind} (hkeys : kind.keys.Nodup)
    (h : ∀ w ∈ kind.values, w.AllSound P) : (Value.node (.plain kind)).AllSound P :=
  node_allSound ⟨.inr (by simp [Node.plain]), by simp [Node.plain], hkeys⟩ h

/-! ## Numbers of arguments -/

/-- A sound argument is read as a number that was given, or as a bounded one. -/
theorem Value.AllSound.number {v : Value} {k : Number} (h : v.AllSound P)
    (hk : v.scalar.number? = some k) : P k ∨ k.IsBounded := by
  refine (number?_isBounded hk).imp (fun heq => ?_) id
  have hself := h v (.self v)
  cases v with
  | number n =>
    obtain rfl : n = k := by simpa [Value.scalar] using heq
    exact hself
  | _ => simp [Value.scalar] at heq

/-- The numbers of a check that is read from a sound record. -/
theorem check_read_numbers {entries : List (String × Value)} {c : Check}
    (h : ∀ e ∈ entries, e.2.AllSound P) (hc : Check.read entries = .valid c) :
    ∀ k ∈ c.numbers, P k ∨ k.IsBounded := by
  have hlookup {key : String} {d : Datum} {k : Number}
      (hd : (scalarEntries entries).lookup key = some d) (hk : d.number? = some k) :
      P k ∨ k.IsBounded := by
    rw [lookup_scalarEntries, Option.map_eq_some_iff] at hd
    obtain ⟨v, hv, rfl⟩ := hd
    exact (h _ (mem_of_lookup hv)).number hk
  simp only [Check.read, Checked.and_eq_valid] at hc
  obtain ⟨_, _, ⟨_, _, ⟨_, _, ⟨_, _, ⟨_, maximum, ⟨_, minimum, ⟨_, name, hname, -, rfl⟩, hmin, rfl⟩,
    hmax, rfl⟩, -, rfl⟩, -, rfl⟩, -, rfl⟩, -, rfl⟩ := hc
  cases hname
  intro k hk
  simp only [Check.numbers, List.mem_append, Option.mem_toList] at hk
  rcases hk with (hk | hk) | hk
  · obtain ⟨d, hd, hdk⟩ := nullableNumber_eq_valid hmin k hk
    exact hlookup hd hdk
  · obtain ⟨d, hd, hdk⟩ := nullableNumber_eq_valid hmax k hk
    exact hlookup hd hdk
  · cases hv : entries.lookup "value" with
    | none => simp [hv, Value.scalar, Datum.number?] at hk
    | some v =>
      rw [hv, Option.getD_some] at hk
      exact (h _ (mem_of_lookup hv)).number hk

/-! ## Children -/

/-- The numbers of checks that are read stem from the items, or are bounded. -/
theorem readChecks_numbers : ∀ {items : List Value} {checks : List Check},
    (∀ v ∈ items, v.AllSound P) → readChecks items = some checks →
      ∀ c ∈ checks, ∀ k ∈ c.numbers, P k ∨ k.IsBounded
  | [], _, _, hchecks => by
    cases hchecks
    simp
  | v :: rest, checks, h, hchecks => by
    obtain ⟨hv, hrest⟩ := List.forall_mem_cons.1 h
    unfold readChecks at hchecks
    split at hchecks
    · rename_i heq
      cases heq
    · rename_i entries rest' heq
      cases heq
      split at hchecks
      · rename_i c cs hc hcs
        cases hchecks
        have hvalid : Check.read entries = .valid c := by
          cases hread : Check.read entries with
          | valid a => simpa [hread, Checked.toOption] using hc
          | invalid e => simp [hread, Checked.toOption] at hc
        have hentries : ∀ e ∈ entries, e.2.AllSound P := fun e he =>
          hv.of_mem (List.mem_map_of_mem he)
        exact List.forall_mem_cons.2
          ⟨check_read_numbers hentries hvalid, readChecks_numbers hrest hcs⟩
      · cases hchecks
    · cases hchecks

/-- A bare node of a sound record. -/
theorem ofRecord_allSound {entries : List (String × Value)} {n : Node}
    (h : (Value.record entries).AllSound P) (hn : Node.ofRecord? entries = some n) :
    (Value.node n).AllSound P := by
  have hentries : ∀ e ∈ entries, e.2.AllSound P := fun e he =>
    h.of_mem (List.mem_map_of_mem he)
  unfold Node.ofRecord? at hn
  obtain ⟨tag, -, hn⟩ := Option.bind_eq_some_iff.1 hn
  obtain ⟨description, -, hn⟩ := Option.bind_eq_some_iff.1 hn
  have hbare {checks : List Check} (h : ∀ c ∈ checks, ∀ k ∈ c.numbers, P k ∨ k.IsBounded) :
      (Value.node ⟨.bare tag, checks, Value.ofText? description⟩).AllSound P :=
    node_allSound ⟨.inl ⟨tag, rfl⟩, h, List.nodup_nil⟩ (by simp [Kind.values])
  dsimp only at hn
  split at hn
  · cases hn
    exact hbare (by simp)
  · rename_i items hitems
    obtain ⟨checks, hchecks, hn⟩ := Option.bind_eq_some_iff.1 hn
    cases hn
    refine hbare (readChecks_numbers (fun v hv => ?_) hchecks)
    exact (hentries _ (mem_of_lookup hitems)).of_mem hv
  · cases hn

/-- A child is a node, and it is sound if its argument is. -/
theorem asChild_allSound {v w : Value} (h : v.AllSound P) (hw : asChild v = .ok w) :
    w.AllSound P := by
  unfold asChild at hw
  split at hw
  · cases hw
    exact h
  · split at hw
    · rename_i n hn
      cases hw
      exact ofRecord_allSound h hn
    · cases hw
  · cases hw

/-- Items that become children stay sound. -/
theorem mapM_asChild_allSound : ∀ {vs ws : List Value}, (∀ v ∈ vs, v.AllSound P) →
    vs.mapM asChild = .ok ws → ∀ w ∈ ws, w.AllSound P
  | [], _, _, hws => by
    cases hws
    simp
  | v :: vs, ws, h, hws => by
    obtain ⟨hv, hvs⟩ := List.forall_mem_cons.1 h
    obtain ⟨w, rest, hw, hrest, rfl⟩ := mapM_cons_eq_ok.1 hws
    exact List.forall_mem_cons.2 ⟨asChild_allSound hv hw, mapM_asChild_allSound hvs hrest⟩

/-! ## Arguments that give several values -/

theorem characters_allSound (s : String) : ∀ v ∈ characters s, v.AllSound P := by
  intro v hv
  obtain ⟨c, -, rfl⟩ := List.mem_map.1 hv
  exact text_allSound _

/-- What a sound value is made of is sound. -/
theorem iterate_allSound {v : Value} {vs : List Value} (h : v.AllSound P)
    (hvs : iterate v = .ok vs) : ∀ w ∈ vs, w.AllSound P := by
  unfold iterate at hvs
  split at hvs
  · cases hvs
    exact fun w hw => h.of_mem hw
  · cases hvs
    exact characters_allSound _
  · cases hvs
    intro w hw
    obtain ⟨e, -, rfl⟩ := List.mem_map.1 hw
    exact text_allSound _
  · cases hvs
    intro w hw
    obtain ⟨e, -, rfl⟩ := List.mem_map.1 hw
    refine allSound_iff.2 ⟨trivial, ?_⟩
    simp only [Value.values, List.forall_mem_cons]
    exact ⟨text_allSound _, text_allSound _, by simp⟩
  · cases hvs

/-- A shape from sound entries has their keys and sound values. -/
theorem asShape_allSound : ∀ {entries shape : List (String × Value)},
    (∀ e ∈ entries, e.2.AllSound P) → asShape entries = .ok shape →
      shape.map Prod.fst = entries.map Prod.fst ∧ ∀ e ∈ shape, e.2.AllSound P
  | [], _, _, hshape => by
    cases hshape
    simp
  | (key, v) :: rest, shape, h, hshape => by
    obtain ⟨hv, hrest⟩ := List.forall_mem_cons.1 h
    simp only [asShape, bind_eq_ok] at hshape
    obtain ⟨child, hchild, others, hothers, hshape⟩ := hshape
    cases hshape
    obtain ⟨hkeys, hsound⟩ := asShape_allSound hrest hothers
    exact ⟨by rw [List.map_cons, List.map_cons, hkeys],
      List.forall_mem_cons.2 ⟨asChild_allSound hv hchild, hsound⟩⟩

/-- The second half of a sound pair is sound. -/
theorem asPair_allSound {v k w : Value} (h : v.AllSound P) (hpair : asPair v = .ok (k, w)) :
    w.AllSound P := by
  unfold asPair at hpair
  split at hpair
  · cases hpair
    exact h.of_mem (by simp [Value.values])
  · cases hpair
  · rename_i s
    split at hpair
    · rename_i hcharacters
      cases hpair
      exact characters_allSound s _ (by simp [hcharacters])
    · cases hpair
  · cases hpair
    exact text_allSound _
  all_goals cases hpair

theorem asPairs_allSound : ∀ {items : List Value} {pairs : List (Value × Value)},
    (∀ v ∈ items, v.AllSound P) → asPairs items = .ok pairs → ∀ e ∈ pairs, e.2.AllSound P
  | [], _, _, hpairs => by
    cases hpairs
    simp
  | item :: rest, pairs, h, hpairs => by
    obtain ⟨hitem, hrest⟩ := List.forall_mem_cons.1 h
    simp only [asPairs, bind_eq_ok] at hpairs
    obtain ⟨⟨k, v⟩, hpair, hpairs⟩ := hpairs
    split at hpairs
    · cases hpairs
    · simp only [bind_eq_ok] at hpairs
      obtain ⟨others, hothers, hpairs⟩ := hpairs
      cases hpairs
      exact List.forall_mem_cons.2
        ⟨asPair_allSound hitem hpair, asPairs_allSound hrest hothers⟩

/-- Pairs with texts for keys are entries of sound values. -/
theorem textKeys_allSound : ∀ {pairs : List (Value × Value)} {entries : List (String × Value)},
    (∀ e ∈ pairs, e.2.AllSound P) → textKeys pairs = .ok entries → ∀ e ∈ entries, e.2.AllSound P
  | [], _, _, hentries => by
    cases hentries
    simp
  | (.text k, v) :: rest, entries, h, hentries => by
    obtain ⟨hv, hrest⟩ := List.forall_mem_cons.1 h
    simp only [textKeys, bind_eq_ok] at hentries
    obtain ⟨others, hothers, hentries⟩ := hentries
    cases hentries
    exact List.forall_mem_cons.2 ⟨hv, textKeys_allSound hrest hothers⟩

/-- The shape of a sound argument has distinct keys and sound members. -/
theorem shapeOf_allSound {v : Value} {shape : List (String × Value)} (h : v.AllSound P)
    (hshape : shapeOf v = .ok shape) :
    (shape.map Prod.fst).Nodup ∧ ∀ e ∈ shape, e.2.AllSound P := by
  unfold shapeOf at hshape
  split at hshape
  · cases hshape
    simp
  · split at hshape
    · rename_i entries _
      have hentries : ∀ e ∈ entries, e.2.AllSound P := fun e he =>
        h.of_mem (List.mem_map_of_mem he)
      obtain ⟨hkeys, hsound⟩ := asShape_allSound hentries hshape
      refine ⟨?_, hsound⟩
      rw [hkeys]
      exact h _ (.self _)
    · rename_i items _
      simp only [bind_eq_ok] at hshape
      obtain ⟨pairs, hpairs, entries, hentries, hshape⟩ := hshape
      have hitems := asPairs_allSound (fun v hv => h.of_mem hv) hpairs
      have hempty : ∀ e ∈ ([] : List (String × Value)), e.2.AllSound P := by simp
      have hput := putEntries_forall (P := fun v : Value => v.AllSound P) hempty
        (textKeys_allSound hitems hentries)
      obtain ⟨hkeys, hsound⟩ := asShape_allSound hput hshape
      refine ⟨?_, hsound⟩
      rw [hkeys]
      exact nodup_keys_putEntries (by simp) entries
    all_goals cases hshape

/-! ## Results of calls -/

/-- A node that is built from sound values, under distinct keys, is sound. -/
theorem built_allSound {kind : Kind} {v : Value} (hv : built kind = .ok v)
    (hkeys : kind.keys.Nodup) (h : ∀ w ∈ kind.values, w.AllSound P) : v.AllSound P := by
  cases hv
  exact plain_allSound hkeys h

/-- A constructor gives a node without checks. -/
theorem builder_call_plain {b : Builder} {arguments : List Value} {v : Value}
    (h : b.call arguments = .ok v) : ∃ kind, v = .node (.plain kind) := by
  have hbuilt {kind : Kind} (hv : built kind = .ok v) : ∃ kind, v = .node (.plain kind) :=
    ⟨kind, (Except.ok.inj hv).symm⟩
  unfold Builder.call at h
  split at h
  case h_26 => cases h
  all_goals first
    | exact hbuilt h
    | obtain ⟨_, -, h⟩ := bind_eq_ok.1 h
      first
      | exact hbuilt h
      | obtain ⟨_, -, h⟩ := bind_eq_ok.1 h
        first
        | exact hbuilt h
        | obtain ⟨_, -, h⟩ := bind_eq_ok.1 h
          exact hbuilt h

/-- Names paired with themselves are put in one after the other. -/
theorem selfEntries_eq_putEntries (names : List String) :
    selfEntries names = putEntries [] (names.map fun s => (s, s)) := by
  rw [selfEntries, putEntries, List.foldl_map]

/-- Names paired with themselves have distinct keys. -/
theorem nodup_keys_selfEntries (names : List String) :
    ((selfEntries names).map Prod.fst).Nodup := by
  rw [selfEntries_eq_putEntries]
  exact nodup_keys_putEntries (by simp) _

/-- A constructor gives a sound node. -/
theorem builder_call_allSound {b : Builder} {arguments : List Value} {v : Value}
    (h : ∀ a ∈ arguments, a.AllSound P) (hcall : b.call arguments = .ok v) : v.AllSound P := by
  have hleaf {kind : Kind} (hkeys : kind.keys = []) (hvalues : kind.values = [])
      (hv : built kind = .ok v) : v.AllSound P :=
    built_allSound hv (by simp [hkeys]) (by simp [hvalues])
  have hitems {a : Value} {vs ws : List Value} (ha : a.AllSound P) (hvs : iterate a = .ok vs)
      (hws : vs.mapM asChild = .ok ws) : ∀ w ∈ ws, w.AllSound P :=
    mapM_asChild_allSound (iterate_allSound ha hvs) hws
  unfold Builder.call at hcall
  split at hcall
  case h_26 => cases hcall
  all_goals
    first
    | exact hleaf rfl rfl hcall
    | skip
  · obtain ⟨names, -, hv⟩ := bind_eq_ok.1 hcall
    exact built_allSound hv (nodup_keys_selfEntries names) (by simp [Kind.values])
  · obtain ⟨shape, hshape, hv⟩ := bind_eq_ok.1 hcall
    obtain ⟨hkeys, hsound⟩ := shapeOf_allSound (h _ (by simp)) hshape
    exact built_allSound hv hkeys (List.forall_mem_map.2 hsound)
  · obtain ⟨w, hw, hv⟩ := bind_eq_ok.1 hcall
    have hchild := asChild_allSound (h _ (by simp)) hw
    exact built_allSound hv List.nodup_nil (by simpa [Kind.values] using hchild)
  · obtain ⟨w, hw, hv⟩ := bind_eq_ok.1 hcall
    have hchild := asChild_allSound (h _ (by simp)) hw
    exact built_allSound hv List.nodup_nil (by simpa [Kind.values] using hchild)
  · obtain ⟨vs, hvs, hv⟩ := bind_eq_ok.1 hcall
    obtain ⟨ws, hws, hv⟩ := bind_eq_ok.1 hv
    exact built_allSound hv List.nodup_nil (hitems (h _ (by simp)) hvs hws)
  · obtain ⟨k, hk, hv⟩ := bind_eq_ok.1 hcall
    obtain ⟨w, hw, hv⟩ := bind_eq_ok.1 hv
    have hkey := asChild_allSound (h _ (by simp)) hk
    have hvalue := asChild_allSound (h _ (by simp)) hw
    exact built_allSound hv List.nodup_nil (by simpa [Kind.values] using ⟨hkey, hvalue⟩)
  · obtain ⟨vs, hvs, hv⟩ := bind_eq_ok.1 hcall
    obtain ⟨ws, hws, hv⟩ := bind_eq_ok.1 hv
    exact built_allSound hv List.nodup_nil (hitems (h _ (by simp)) hvs hws)
  · obtain ⟨vs, hvs, hv⟩ := bind_eq_ok.1 hcall
    obtain ⟨ws, hws, hv⟩ := bind_eq_ok.1 hv
    obtain ⟨key, -, hv⟩ := bind_eq_ok.1 hv
    exact built_allSound hv List.nodup_nil (hitems (h _ (by simp)) hvs hws)
  · obtain ⟨l, hl, hv⟩ := bind_eq_ok.1 hcall
    obtain ⟨r, hr, hv⟩ := bind_eq_ok.1 hv
    have hleft := asChild_allSound (h _ (by simp)) hl
    have hright := asChild_allSound (h _ (by simp)) hr
    exact built_allSound hv List.nodup_nil (by simpa [Kind.values] using ⟨hleft, hright⟩)

/-! ## What methods give -/

/-- An optional number that is there stems from the value. -/
theorem optionalNumber_eq_ok {v : Value} {o : Option Number} (ho : optionalNumber v = .ok o) :
    ∀ k ∈ o, v.scalar.number? = some k := by
  intro k hk
  obtain rfl : o = some k := hk
  unfold optionalNumber at ho
  split at ho
  · cases ho
  · split at ho
    · rename_i n hn
      cases ho
      exact hn
    · cases ho

/-- A check for a format of numbers asks for integers. -/
def Check.IsIntegral (c : Check) : Prop :=
  c.name = "number_format" → c.isInt = true

/-- A number of a call is that of an argument, or a bounded one. -/
def IsNumberOf (arguments : List Value) (k : Number) : Prop :=
  k.IsBounded ∨ ∃ a ∈ arguments, a.scalar.number? = some k

/-- A check that a call attaches to a node is one that nodes of its kind have, and its numbers are
numbers of the call. -/
structure Check.IsAttached (c : Check) (n : Node) (arguments : List Value) : Prop where
  name : c.name ∈ n.kind.checkNames
  numbers : ∀ k ∈ c.numbers, IsNumberOf arguments k
  integral : c.IsIntegral

/-- What a method gives: a node around its owner, the owner with another description or with one
more check, or, of an object, one with more members or the enum of its keys. -/
inductive Node.Gives (n : Node) (arguments : List Value) : Value → Prop
  | around {kind : Kind} (hkeys : kind.keys = [])
      (h : ∀ w ∈ kind.values, w = .node n ∨ w = .node (.plain .transform) ∨
        ∃ a ∈ arguments, asChild a = .ok w) : n.Gives arguments (.node (.plain kind))
  | described (description : Value) : n.Gives arguments (.node (n.withDescription description))
  | checked {c : Check} (h : c.IsAttached n arguments) : n.Gives arguments (.node (n.withCheck c))
  | extended {shape entries : List (String × Value)} (hkind : n.kind = .object shape)
      (h : .record entries ∈ arguments) :
      n.Gives arguments (.node { n with kind := .object (putEntries shape entries) })
  | keys {shape : List (String × Value)} (hkind : n.kind = .object shape) :
      n.Gives arguments (.node (.plain (.enum (shape.map fun (key, _) => (key, key)))))

/-- The numbers of a check with a value stem from its arguments. -/
theorem numbers_of_value {c : Check} {arguments : List Value} (hmin : c.minimum = none)
    (hmax : c.maximum = none) (hvalue : c.value.scalar = .null ∨ c.value ∈ arguments) :
    ∀ k ∈ c.numbers, IsNumberOf arguments k := by
  intro k hk
  have hnumber : c.value.scalar.number? = some k := by
    simpa [Check.numbers, hmin, hmax] using hk
  rcases hvalue with hnull | hmem
  · rw [hnull] at hnumber
    cases hnumber
  · exact .inr ⟨_, hmem, hnumber⟩

/-- The only number of a check for a length is its bound. -/
theorem numbers_of_length {c : Check} {arguments : List Value}
    (hvalue : c.value.scalar = .null) (h : ∀ k, k ∈ c.minimum ∨ k ∈ c.maximum →
      IsNumberOf arguments k) : ∀ k ∈ c.numbers, IsNumberOf arguments k := by
  intro k hk
  refine h k ?_
  simpa [Check.numbers, hvalue, Datum.number?] using hk

/-- The only number of the check is a digit. -/
theorem numbers_of_small {c : Check} {arguments : List Value} {i : Int}
    (hnumbers : c.numbers = [.int i]) (hi : i.natAbs < 10) :
    ∀ k ∈ c.numbers, IsNumberOf arguments k := by
  rw [hnumbers, List.forall_mem_singleton]
  exact .inl (small_isBounded hi)

/-- A bound of a length that an argument gives. -/
theorem gives_length {n : Node} {a : Value} {o : Option Number} {c : Check}
    (ho : optionalNumber a = .ok o) (hname : c.name ∈ n.kind.checkNames) (hintegral : c.IsIntegral)
    (hvalue : c.value.scalar = .null) (hbound : ∀ k, k ∈ c.minimum ∨ k ∈ c.maximum → k ∈ o) :
    n.Gives [a] (.node (n.withCheck c)) := by
  refine .checked ⟨hname, numbers_of_length hvalue fun k hk => .inr ?_, hintegral⟩
  exact ⟨a, List.mem_singleton_self a, optionalNumber_eq_ok ho k (hbound k hk)⟩

/-- A bound of a number that an argument gives. -/
theorem gives_valued {n : Node} (a : Value) {name : String} (hname : name ∈ n.kind.checkNames)
    (hformat : name ≠ "number_format") (inclusive : Bool) :
    n.Gives [a] (.node (n.withCheck (.valued name a inclusive))) :=
  .checked ⟨hname, numbers_of_value rfl rfl (.inr (List.mem_singleton_self a)),
    fun h => absurd h hformat⟩

/-- A lower bound gives a node whose numbers stem from the argument. -/
theorem gives_lowerBound {n : Node} {a v : Value} (hof : Method.min.isOf n.kind = true)
    (hv : lowerBound n a = .ok v) : n.Gives [a] v := by
  unfold lowerBound at hv
  split at hv
  · rename_i hkind
    cases hv
    exact gives_valued a (by simp [hkind, Kind.checkNames]) (by decide) true
  · obtain ⟨o, ho, hv⟩ := bind_eq_ok.1 hv
    cases hv
    refine gives_length ho ?_ (by simp [Check.IsIntegral, Check.minLength]) rfl
      (by simp [Check.minLength])
    cases hkind : n.kind <;> simp_all [Method.isOf, Kind.checkNames, Check.minLength]

/-- An upper bound gives a node whose numbers stem from the argument. -/
theorem gives_upperBound {n : Node} {a v : Value} (hof : Method.max.isOf n.kind = true)
    (hv : upperBound n a = .ok v) : n.Gives [a] v := by
  unfold upperBound at hv
  split at hv
  · rename_i hkind
    cases hv
    exact gives_valued a (by simp [hkind, Kind.checkNames]) (by decide) true
  · obtain ⟨o, ho, hv⟩ := bind_eq_ok.1 hv
    cases hv
    refine gives_length ho ?_ (by simp [Check.IsIntegral, Check.maxLength]) rfl
      (by simp [Check.maxLength])
    cases hkind : n.kind <;> simp_all [Method.isOf, Kind.checkNames, Check.maxLength]

/-- A wrapper of the node. -/
theorem gives_wrapper {n : Node} {arguments : List Value} {kind : Kind} {v : Value}
    (hkeys : kind.keys = []) (hvalues : kind.values = [.node n]) (hv : built kind = .ok v) :
    n.Gives arguments v := by
  cases hv
  exact .around hkeys fun w hw => .inl (by simpa [hvalues] using hw)

/-- The node beside a transformation or beside a node that an argument gives. -/
theorem gives_pair {n : Node} {arguments : List Value} {kind : Kind} {v w : Value}
    (hkeys : kind.keys = []) (hvalues : kind.values = [.node n, w])
    (hw : w = .node (.plain .transform) ∨ ∃ a ∈ arguments, asChild a = .ok w)
    (hv : built kind = .ok v) : n.Gives arguments v := by
  cases hv
  refine .around hkeys ?_
  rw [hvalues, List.forall_mem_cons, List.forall_mem_singleton]
  exact ⟨.inl rfl, .inr hw⟩

/-- A check under a name that the kinds of the method have. -/
theorem gives_checked {n : Node} {m : Method} {arguments : List Value} {v : Value} {c : Check}
    (hof : m.isOf n.kind = true)
    (hname : ∀ kind : Kind, m.isOf kind = true → c.name ∈ kind.checkNames)
    (hintegral : c.IsIntegral) (hnumbers : ∀ k ∈ c.numbers, IsNumberOf arguments k)
    (hv : checked n c = .ok v) : n.Gives arguments v := by
  cases hv
  exact .checked ⟨hname n.kind hof, hnumbers, hintegral⟩

/-- What a call of a method that succeeds gives. -/
theorem gives_of_call {n : Node} {m : Method} {arguments : List Value} {v : Value}
    (hof : m.isOf n.kind = true) (hcall : m.call n arguments = .ok v) : n.Gives arguments v := by
  unfold Method.call at hcall
  split at hcall
  · exact gives_wrapper rfl rfl hcall
  · exact gives_wrapper rfl rfl hcall
  · cases hcall
    exact .described _
  · exact gives_pair rfl rfl (.inl rfl) hcall
  · split at hcall
    · exact gives_pair rfl rfl (.inl rfl) hcall
    · split at hcall
      · exact gives_pair rfl rfl (.inl rfl) hcall
      · cases hcall
  · obtain ⟨w, hw, hv⟩ := bind_eq_ok.1 hcall
    exact gives_pair rfl rfl (.inr ⟨_, List.mem_singleton_self _, hw⟩) hv
  · obtain ⟨w, hw, hv⟩ := bind_eq_ok.1 hcall
    exact gives_pair rfl rfl (.inr ⟨_, List.mem_singleton_self _, hw⟩) hv
  case h_10 => exact gives_lowerBound hof hcall
  case h_11 => exact gives_upperBound hof hcall
  case h_16 =>
    obtain ⟨pattern, -, hv⟩ := bind_eq_ok.1 hcall
    exact gives_checked hof (by rintro (_ | _) <;> simp [Method.isOf, Kind.checkNames, Check.regex])
      (by simp [Check.IsIntegral, Check.regex]) (numbers_of_value rfl rfl (.inl rfl)) hv
  case h_30 =>
    split at hcall
    · rename_i hkind
      cases hcall
      exact .extended hkind (List.mem_singleton_self _)
    · cases hcall
  case h_31 =>
    split at hcall
    · rename_i hkind
      cases hcall
      exact .keys hkind
    · cases hcall
  case h_32 => cases hcall
  -- What is left is checked, under a name that the kinds of its method have.
  all_goals
    refine gives_checked hof ?_ ?_ ?_ hcall
    · rintro (_ | _) <;> simp [Method.isOf, Kind.checkNames, Check.named, Check.valued,
        Check.minLength, Check.stringFormat, Check.integer]
    · simp [Check.IsIntegral, Check.named, Check.valued, Check.minLength, Check.stringFormat,
        Check.integer]
    · first
      | exact numbers_of_value rfl rfl (.inl rfl)
      | exact numbers_of_value rfl rfl (.inr (List.mem_singleton_self _))
      | exact numbers_of_small rfl (by decide)

/-- The value is a node. -/
def Value.IsNode (v : Value) : Prop := ∃ n, v = .node n

theorem Node.Gives.isNode {n : Node} {arguments : List Value} {v : Value}
    (h : n.Gives arguments v) : v.IsNode := by
  cases h with
  | around | described | checked | extended | keys => exact ⟨_, rfl⟩

/-- What a method gives is a node without checks, or one with the checks of its owner and at most
one more. -/
theorem Node.Gives.checks {n m : Node} {arguments : List Value} (h : n.Gives arguments (.node m)) :
    ∀ c ∈ m.checks, c ∈ n.checks ∨ c.IsIntegral := by
  cases h with
  | around | keys => rintro _ ⟨⟩
  | described | extended => exact fun c hc => .inl hc
  | checked hnew =>
    exact List.forall_mem_append.2 ⟨fun c hc => .inl hc,
      List.forall_mem_singleton.2 (.inr hnew.integral)⟩

/-- A method gives a sound node. -/
theorem gives_allSound {n : Node} {arguments : List Value} {v : Value}
    (hn : (Value.node n).AllSound P) (h : ∀ a ∈ arguments, a.AllSound P)
    (hgives : n.Gives arguments v) : v.AllSound P := by
  obtain ⟨⟨hchecks, hknown, hkeys⟩, hvalues⟩ := allSound_iff.1 hn
  cases hgives with
  | around hnokeys hchildren =>
    refine plain_allSound (by simp [hnokeys]) fun w hw => ?_
    rcases hchildren w hw with rfl | rfl | ⟨a, ha, hchild⟩
    · exact hn
    · exact plain_allSound List.nodup_nil (by simp [Kind.values])
    · exact asChild_allSound (h a ha) hchild
  | described => exact node_allSound ⟨hchecks, hknown, hkeys⟩ hvalues
  | @checked c hc =>
    refine node_allSound ⟨hchecks.imp id fun hchecks => ?_, ?_, hkeys⟩ hvalues
    · exact List.forall_mem_append.2 ⟨hchecks, List.forall_mem_singleton.2 hc.name⟩
    · refine List.forall_mem_append.2 ⟨hknown, List.forall_mem_singleton.2 fun k hk => ?_⟩
      rcases hc.numbers k hk with hbounded | ⟨a, ha, hnumber⟩
      · exact .inr hbounded
      · exact (h a ha).number hnumber
  | @extended shape entries hkind hentries =>
    rw [hkind] at hchecks hkeys
    have hmembers : ∀ e ∈ shape, e.2.AllSound P := fun e he =>
      hvalues _ (by rw [Value.values, hkind]; exact List.mem_map_of_mem he)
    refine node_allSound ⟨.inr ?_, hknown, nodup_keys_putEntries hkeys entries⟩ ?_
    · exact hchecks.resolve_left (by rintro ⟨_, ⟨⟩⟩)
    · refine List.forall_mem_map.2
        (putEntries_forall (P := fun v : Value => v.AllSound P) hmembers fun e he => ?_)
      exact (h _ hentries).of_mem (List.mem_map_of_mem he)
  | keys hkind =>
    rw [hkind] at hkeys
    refine plain_allSound ?_ (by simp [Kind.values])
    simpa [Kind.keys, Function.comp_def] using hkeys

/-- What is built is sound at every depth. -/
theorem BuiltFrom.allSound {v : Value} (h : BuiltFrom P v) : v.AllSound P := by
  induction h with
  | null | bool | text | constructors | isoConstructors | builder =>
    exact allSound_iff.2 ⟨trivial, by simp [Value.values]⟩
  | number h => exact allSound_iff.2 ⟨h, by simp [Value.values]⟩
  | list _ ih => exact allSound_iff.2 ⟨trivial, ih⟩
  | record hkeys _ ih => exact allSound_iff.2 ⟨hkeys, List.forall_mem_map.2 ih⟩
  | method _ _ ih => exact allSound_iff.2 ⟨trivial, by simpa [Value.values] using ih⟩
  | construct _ hcall ih => exact builder_call_allSound ih hcall
  | call _ hof _ hcall hn ih => exact gives_allSound hn ih (gives_of_call hof hcall)

end FormSchema
