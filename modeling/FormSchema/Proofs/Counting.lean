import FormSchema.Proofs.SchemaOrder

/-!
# Placing schemas by counting

The rounds of `ordered` ask of every schema that waits whether all that it needs has been placed. It
can be counted instead: each schema has the number of its references that are open, and a schema
that has been placed is counted off from those that need it. `orderedBy` does that. It goes through
the references of each schema in the order of a list of its own, since a set of names has no order.

`orderedBy` is `ordered`, in whichever order the references are listed (`orderedBy_eq`). For what
waits are always the schemas that are not ready, each with the number of names that it still needs
(`countDownAll_dependents`), and those that come out of one round stand in the order of the input.
-/

namespace FormSchema

/-! ## The queue with counters -/

/-- The references that count, each as a name with the schema that needs it, in the order in which
the names are listed for one schema after the other. -/
def openPairs (listed : Form → List String) (schemas : List Form) : List (String × Form) :=
  schemas.flatMap fun f =>
    ((listed f).filter fun name =>
      (schemaNames schemas).contains name && name != f.schemaName).map fun name => (name, f)

/-- The names of the schemas that need a name, in the order of the pairs. -/
def dependents (pairs : List (String × Form)) (name : String) : List String :=
  (pairs.filter fun pair => pair.1 == name).map fun pair => pair.2.schemaName

/-- How many references of a schema are among the pairs. -/
def openCount (pairs : List (String × Form)) (f : Form) : Nat :=
  pairs.countP fun pair => pair.2.schemaName == f.schemaName

/-- Counts one open reference of the schema with a name off. If it was the last one, the schema waits
no longer. -/
def countDown (name : String) : List (Form × Nat) → List Form × List (Form × Nat)
  | [] => ([], [])
  | (f, n) :: rest =>
    if f.schemaName == name then
      if n == 1 then ([f], rest) else ([], (f, n - 1) :: rest)
    else
      let (freed, others) := countDown name rest
      (freed, (f, n) :: others)

/-- Counts one open reference off for each of the names, in order. -/
def countDownAll : List String → List (Form × Nat) → List Form × List (Form × Nat)
  | [], waiting => ([], waiting)
  | name :: names, waiting =>
    let (freed, others) := countDown name waiting
    let (more, left) := countDownAll names others
    (freed ++ more, left)

theorem countDown_length (name : String) (waiting : List (Form × Nat)) :
    (countDown name waiting).1.length + (countDown name waiting).2.length = waiting.length := by
  induction waiting with
  | nil => rfl
  | cons w rest ih =>
    obtain ⟨f, n⟩ := w
    rw [countDown]
    split
    · split <;> simp [Nat.add_comm]
    · simp only [List.length_cons]
      omega

theorem countDownAll_length (names : List String) (waiting : List (Form × Nat)) :
    (countDownAll names waiting).1.length + (countDownAll names waiting).2.length =
      waiting.length := by
  induction names generalizing waiting with
  | nil => simp [countDownAll]
  | cons name names ih =>
    have hone := countDown_length name waiting
    have hrest := ih (countDown name waiting).2
    simp only [countDownAll, List.length_append]
    omega

/-- Places schemas from the queue until it is empty, and counts each off from those that need it.
The second list is what still waits. -/
def serve (needing : String → List String) (placed queue : List Form)
    (waiting : List (Form × Nat)) : List Form × List (Form × Nat) :=
  match queue with
  | [] => (placed, waiting)
  | f :: rest =>
    let counted := countDownAll (needing f.schemaName) waiting
    serve needing (placed ++ [f]) (rest ++ counted.1) counted.2
termination_by queue.length + waiting.length
decreasing_by
  have := countDownAll_length (needing f.schemaName) waiting
  simp only [List.length_append, List.length_cons]
  omega

/-- Schemas in an order in which each stands after all that it refers to, by counting. The
references of each schema are gone through as they are listed. -/
def orderedBy (listed : Form → List String) (schemas : List Form) : Result (List Form) :=
  match sharedNames (schemaNames schemas) with
  | first :: rest => .error (.duplicate (first :: rest))
  | [] =>
    let pairs := openPairs listed schemas
    let free := schemas.filter fun f => openCount pairs f == 0
    let waiting := (schemas.filter fun f => openCount pairs f != 0).map fun f => (f, openCount pairs f)
    match serve (dependents pairs) [] free waiting with
    | (placed, []) => .ok placed
    | (_, waiting) => .error (.circular (sortedNames (waiting.map fun w => w.1.schemaName)))

/-! ## What is counted -/

variable {schemas : List Form} {listed : Form → List String}

/-- The names that a schema needs and that are not among those placed, as they are listed. -/
def stillOpen (schemas : List Form) (listed : Form → List String) (placed : List String)
    (f : Form) : List String :=
  (listed f).filter fun name => f.needs (schemaNames schemas) name && !placed.contains name

theorem Form.isReady_iff_stillOpen {f : Form} (hf : (listed f).Perm f.references)
    (placed : List String) :
    f.isReady (schemaNames schemas) placed = true ↔ (stillOpen schemas listed placed f).length = 0 := by
  rw [List.length_eq_zero_iff, stillOpen, List.filter_eq_nil_iff, isReady, List.all_eq_true]
  simp only [← hf.mem_iff, Bool.and_eq_true, Bool.not_eq_true', Bool.or_eq_true]
  refine forall_congr' fun name => forall_congr' fun _ => ?_
  cases f.needs (schemaNames schemas) name <;> cases placed.contains name <;> simp

theorem length_stillOpen {placed : List String} {name : String} {f : Form}
    (hf : (listed f).Perm f.references) (hname : name ∉ placed) :
    (stillOpen schemas listed (placed ++ [name]) f).length =
      if f.needs (schemaNames schemas) name then (stillOpen schemas listed placed f).length - 1
      else (stillOpen schemas listed placed f).length := by
  have hnodup : (stillOpen schemas listed placed f).Nodup :=
    (hf.nodup_iff.2 (pairwise_sortedNames _).nodup).filter _
  have herase : stillOpen schemas listed (placed ++ [name]) f =
      (stillOpen schemas listed placed f).erase name := by
    rw [hnodup.erase_eq_filter, stillOpen, stillOpen, List.filter_filter]
    refine List.filter_congr fun other _ => ?_
    by_cases ho : other = name <;> simp [ho]
  rw [herase, List.length_erase]
  refine if_congr ?_ rfl rfl
  have hneeds : f.needs (schemaNames schemas) name = true → name ∈ listed f := by
    intro h
    simp only [Form.needs, Bool.and_eq_true, List.contains_iff_mem] at h
    exact hf.mem_iff.2 h.2
  simp only [stillOpen, List.mem_filter, Bool.and_eq_true, Bool.not_eq_true',
    List.contains_eq_mem, decide_eq_false_iff_not]
  exact ⟨fun h => h.2.1, fun h => ⟨hneeds h, h, hname⟩⟩

/-! ## Pairs of a name and a schema -/

theorem filter_filter_beq {names : List String} (h : names.Nodup) (p : String → Bool)
    (name : String) :
    (names.filter p).filter (· == name) = if name ∈ names ∧ p name then [name] else [] := by
  rw [List.filter_filter]
  simp only [Bool.and_comm]
  rw [← List.filter_filter, List.filter_beq, List.filter_replicate, h.count]
  by_cases hname : name ∈ names <;> simp [hname]

theorem filter_eq_flatMap {α : Type} (p : α → Bool) (l : List α) :
    l.filter p = l.flatMap fun a => if p a then [a] else [] := by
  induction l with
  | nil => rfl
  | cons a rest ih => by_cases ha : p a <;> simp [ha, ih]

/-- The schemas that need a name are those of the input that do, in the order of the input. -/
theorem dependents_openPairs (h : ∀ f ∈ schemas, (listed f).Perm f.references) (name : String) :
    dependents (openPairs listed schemas) name =
      (schemas.filter fun f => f.needs (schemaNames schemas) name).map Form.schemaName := by
  rw [dependents, openPairs, List.filter_flatMap, List.map_flatMap, filter_eq_flatMap,
    List.map_flatMap]
  refine List.flatMap_congr fun f hf => ?_
  have hnodup : (listed f).Nodup := (h f hf).nodup_iff.2 (pairwise_sortedNames _).nodup
  rw [List.filter_map, List.map_map]
  show (List.filter (· == name) _).map (fun _ => f.schemaName) = _
  have hneeds : (name ∈ listed f ∧ ((schemaNames schemas).contains name &&
      name != f.schemaName) = true) ↔ f.needs (schemaNames schemas) name = true := by
    simp only [(h f hf).mem_iff, Form.needs, List.contains_iff_mem, Bool.and_eq_true]
    exact and_comm
  rw [filter_filter_beq hnodup, if_congr hneeds rfl rfl]
  split <;> rfl

theorem openCount_openPairs (h : ∀ f ∈ schemas, (listed f).Perm f.references)
    (hn : (schemaNames schemas).Nodup) {f : Form} (hf : f ∈ schemas) :
    openCount (openPairs listed schemas) f = (stillOpen schemas listed [] f).length := by
  have hcount (g : Form) (names : List String) :
      (names.map fun name => (name, g)).countP (fun pair => pair.2.schemaName == f.schemaName) =
        if g.schemaName = f.schemaName then names.length else 0 := by
    rw [List.countP_map]
    by_cases hg : g.schemaName = f.schemaName <;> simp [Function.comp_def, hg]
  obtain ⟨before, after, hsplit⟩ := List.append_of_mem hf
  have hothers : ∀ g ∈ before ++ after, g.schemaName ≠ f.schemaName := by
    intro g hg heq
    rw [schemaNames, hsplit, List.map_append, List.map_cons, List.nodup_middle,
      List.nodup_cons, ← List.map_append] at hn
    exact hn.1 (heq ▸ List.mem_map_of_mem hg)
  have hzero (size : Form → Nat) : ∀ part ⊆ before ++ after, (part.map fun g =>
      if g.schemaName = f.schemaName then size g else 0).sum = 0 := by
    intro part hpart
    refine List.sum_eq_zero fun n hmem => ?_
    obtain ⟨g, hg, rfl⟩ := List.mem_map.1 hmem
    rw [if_neg (hothers g (hpart hg))]
  have hself : (listed f).filter (fun name =>
      (schemaNames schemas).contains name && name != f.schemaName) =
        stillOpen schemas listed [] f := by
    refine List.filter_congr fun name hname => ?_
    simp [Form.needs, (h f hf).mem_iff.1 hname]
  have hsum (size : Form → Nat) : (schemas.map fun g =>
      if g.schemaName = f.schemaName then size g else 0).sum = size f := by
    rw [hsplit, List.map_append, List.map_cons, List.sum_append, List.sum_cons, if_pos rfl,
      hzero size before (List.subset_append_left _ _),
      hzero size after (List.subset_append_right _ _), Nat.zero_add, Nat.add_zero]
  rw [openCount, openPairs, List.countP_flatMap, ← hself]
  simp only [Function.comp_def, hcount]
  exact hsum fun g => ((listed g).filter fun name =>
    (schemaNames schemas).contains name && name != g.schemaName).length

/-! ## One round -/

theorem countDown_of_not_mem {name : String} {waiting : List (Form × Nat)}
    (h : name ∉ waiting.map fun w => w.1.schemaName) : countDown name waiting = ([], waiting) := by
  induction waiting with
  | nil => rfl
  | cons w rest ih =>
    obtain ⟨f, n⟩ := w
    rw [List.map_cons, List.mem_cons, not_or] at h
    rw [countDown, if_neg (by simpa using Ne.symm h.1), ih h.2]

theorem countDownAll_cons_of_not_mem {names : List String} {f : Form}
    (h : f.schemaName ∉ names) (n : Nat) (waiting : List (Form × Nat)) :
    countDownAll names ((f, n) :: waiting) =
      ((countDownAll names waiting).1, (f, n) :: (countDownAll names waiting).2) := by
  induction names generalizing waiting with
  | nil => rfl
  | cons name names ih =>
    rw [List.mem_cons, not_or] at h
    have hdown : countDown name ((f, n) :: waiting) =
        ((countDown name waiting).1, (f, n) :: (countDown name waiting).2) := by
      rw [countDown, if_neg (by simpa using h.1)]
    rw [countDownAll, hdown]
    simp only [ih h.2]
    rfl

/-- Each of the schemas `p` is counted off once from what waits, the schemas `q` with their counts.
Those whose count was one are free, in the order of the list. -/
theorem countDownAll_filter {l : List Form} (hn : (schemaNames l).Nodup) (p q : Form → Bool)
    (count : Form → Nat) :
    countDownAll ((l.filter p).map Form.schemaName) ((l.filter q).map fun f => (f, count f)) =
      (l.filter fun f => q f && (p f && count f == 1),
        (l.filter fun f => q f && !(p f && count f == 1)).map fun f =>
          (f, if p f then count f - 1 else count f)) := by
  induction l with
  | nil => rfl
  | cons f rest ih =>
    rw [schemaNames, List.map_cons, List.nodup_cons] at hn
    have hnot (r : Form → Bool) : f.schemaName ∉ (rest.filter r).map Form.schemaName := fun h =>
      hn.1 (List.map_subset _ (List.filter_subset_self rest) h)
    specialize ih hn.2
    by_cases hq : q f
    · by_cases hp : p f
      · by_cases hone : count f = 1
        · simp [hq, hp, hone, countDownAll, countDown, ih]
        · simp [hq, hp, hone, countDownAll, countDown, ih, countDownAll_cons_of_not_mem (hnot p)]
      · simp [hq, hp, ih, countDownAll_cons_of_not_mem (hnot p)]
    · by_cases hp : p f
      · have hdown : countDown f.schemaName ((rest.filter q).map fun f => (f, count f)) =
            ([], (rest.filter q).map fun f => (f, count f)) :=
          countDown_of_not_mem (by simpa using hnot q)
        simp [hq, hp, ih, countDownAll, hdown]
      · simp [hq, hp, ih]

/-- The schemas that are not ready, with the number of names that each still needs. -/
def notReady (schemas : List Form) (listed : Form → List String) (placed : List String) :
    List (Form × Nat) :=
  (schemas.filter fun f => !f.isReady (schemaNames schemas) placed).map fun f =>
    (f, (stillOpen schemas listed placed f).length)

/-- A schema is ready once its count is zero. When a name is counted off, the schemas that needed
just this one become ready, and of the others those that were not ready stay so. -/
theorem counted_off {before after needs : Bool} {count : Nat}
    (hbefore : before = true ↔ count = 0)
    (hafter : after = true ↔ (if needs then count - 1 else count) = 0) :
    (!before && (needs && count == 1)) = (after && !before) ∧
      (!before && !(needs && count == 1)) = !after := by
  cases needs with
  | true =>
    refine ⟨?_, ?_⟩
    all_goals
      rw [Bool.eq_iff_iff]
      simp [← Bool.not_eq_true, hbefore, hafter]
      omega
  | false =>
    have hsame : before = after := Bool.eq_iff_iff.2 (hbefore.trans hafter.symm)
    simp [hsame]

/-- To count a schema off from those that need it frees those that become ready by it. -/
theorem countDownAll_dependents (h : ∀ f ∈ schemas, (listed f).Perm f.references)
    (hn : (schemaNames schemas).Nodup) {placed : List String} {name : String}
    (hname : name ∉ placed) :
    countDownAll (dependents (openPairs listed schemas) name) (notReady schemas listed placed) =
      (schemas.filter fun f => f.isReady (schemaNames schemas) (placed ++ [name]) &&
          !f.isReady (schemaNames schemas) placed,
        notReady schemas listed (placed ++ [name])) := by
  rw [dependents_openPairs h, notReady, countDownAll_filter hn]
  have hafter : ∀ f ∈ schemas, (f.isReady (schemaNames schemas) (placed ++ [name]) = true ↔
      (if f.needs (schemaNames schemas) name then (stillOpen schemas listed placed f).length - 1
        else (stillOpen schemas listed placed f).length) = 0) := by
    intro f hf
    rw [Form.isReady_iff_stillOpen (h f hf), length_stillOpen (h f hf) hname]
  have hcounted := fun f (hf : f ∈ schemas) =>
    counted_off (Form.isReady_iff_stillOpen (h f hf) placed) (hafter f hf)
  rw [List.filter_congr fun f hf => (hcounted f hf).1,
    List.filter_congr fun f hf => (hcounted f hf).2, notReady]
  refine congrArg _ (List.map_congr_left fun f hf => ?_)
  rw [length_stillOpen (h f (List.mem_of_mem_filter hf)) hname]

/-! ## The whole run -/

/-- The first schema of the queue has not been placed. -/
theorem Placing.name_not_mem {placed rest waiting : List Form} {f : Form}
    (h : Placing schemas placed (f :: rest) waiting) (hn : (schemaNames schemas).Nodup) :
    f.schemaName ∉ schemaNames placed := by
  have hall := ((h.perm.map Form.schemaName).nodup_iff).2 hn
  rw [List.append_assoc, List.cons_append, List.map_append, List.map_cons, List.nodup_middle,
    List.nodup_cons, List.mem_append, not_or] at hall
  exact hall.1.1

/-- Of the schemas that are not ready some become so when more is placed, and the others are all that
are not ready then. -/
theorem partition_notReady {placed more : List String} (hmore : placed ⊆ more) :
    (schemas.filter fun f => !f.isReady (schemaNames schemas) placed).partition
        (Form.isReady (schemaNames schemas) more) =
      (schemas.filter fun f => f.isReady (schemaNames schemas) more &&
          !f.isReady (schemaNames schemas) placed,
        schemas.filter fun f => !f.isReady (schemaNames schemas) more) := by
  rw [List.partition_eq_filter_filter, List.filter_filter, List.filter_filter]
  refine congrArg _ (List.filter_congr fun f _ => ?_)
  have hmono := @Form.isReady_mono (schemaNames schemas) placed more f hmore
  rw [Function.comp_apply]
  cases hready : f.isReady (schemaNames schemas) placed with
  | true => rw [hmono hready, Bool.not_true, Bool.and_false]
  | false => rw [Bool.not_false, Bool.and_true]

theorem serve_eq (h : ∀ f ∈ schemas, (listed f).Perm f.references)
    (hn : (schemaNames schemas).Nodup) {placed queue waiting : List Form}
    (hplacing : Placing schemas placed queue waiting)
    (hwaiting : waiting = schemas.filter fun f =>
      !f.isReady (schemaNames schemas) (schemaNames placed)) :
    ∃ last left, placeAll (schemaNames schemas) placed queue waiting = (last, left) ∧
      left = (schemas.filter fun f => !f.isReady (schemaNames schemas) (schemaNames last)) ∧
      serve (dependents (openPairs listed schemas)) placed queue
        (notReady schemas listed (schemaNames placed)) =
          (last, notReady schemas listed (schemaNames last)) := by
  fun_induction placeAll (schemaNames schemas) placed queue waiting with
  | case1 placed waiting => exact ⟨placed, waiting, rfl, hwaiting, by rw [serve]⟩
  | case2 placed waiting f rest now split ih =>
    have hnow : schemaNames now = schemaNames placed ++ [f.schemaName] := List.map_append
    have hround := countDownAll_dependents h hn (hplacing.name_not_mem hn)
    rw [← hnow] at hround
    have hsplit : split = (_, _) :=
      hwaiting ▸ partition_notReady (hnow ▸ List.subset_append_left _ _)
    obtain ⟨last, left, hplace, hleft, hserve⟩ := ih hplacing.step (by rw [hsplit])
    refine ⟨last, left, hplace, hleft, ?_⟩
    rw [serve, hround, ← hserve, hsplit]

/-- At the start the schemas without open references are those that are ready, and the others wait. -/
theorem openCount_start (h : ∀ f ∈ schemas, (listed f).Perm f.references)
    (hn : (schemaNames schemas).Nodup) :
    (schemas.filter fun f => openCount (openPairs listed schemas) f == 0) =
        (schemas.filter fun f => f.isReady (schemaNames schemas) []) ∧
      ((schemas.filter fun f => openCount (openPairs listed schemas) f != 0).map fun f =>
        (f, openCount (openPairs listed schemas) f)) = notReady schemas listed [] := by
  have hready : ∀ f ∈ schemas, (openCount (openPairs listed schemas) f == 0) =
      f.isReady (schemaNames schemas) [] := by
    intro f hf
    rw [Bool.eq_iff_iff, Form.isReady_iff_stillOpen (h f hf), openCount_openPairs h hn hf,
      beq_iff_eq]
  have hbusy : (schemas.filter fun f => openCount (openPairs listed schemas) f != 0) =
      schemas.filter fun f => !f.isReady (schemaNames schemas) [] :=
    List.filter_congr fun f hf => congrArg Bool.not (hready f hf)
  refine ⟨List.filter_congr hready, ?_⟩
  rw [hbusy]
  exact List.map_congr_left fun f hf => by
    rw [openCount_openPairs h hn (List.mem_of_mem_filter hf)]

/-- Schemas are ordered by counting as they are by looking at what each needs, whatever the order in
which the references of a schema are listed. -/
theorem orderedBy_eq (h : ∀ f ∈ schemas, (listed f).Perm f.references) :
    orderedBy listed schemas = ordered schemas := by
  cases hshared : sharedNames (schemaNames schemas) with
  | cons first rest => simp only [orderedBy, ordered, hshared]
  | nil =>
    have hn := sharedNames_eq_nil_iff.1 hshared
    obtain ⟨hfree, hcounts⟩ := openCount_start h hn
    have hrounds : schemas.partition (Form.isReady (schemaNames schemas) []) =
        (schemas.filter fun f => f.isReady (schemaNames schemas) [],
          schemas.filter fun f => !f.isReady (schemaNames schemas) []) :=
      List.partition_eq_filter_filter
    have hstart := Placing.start schemas
    rw [hrounds] at hstart
    obtain ⟨last, left, hplace, rfl, hserve⟩ := serve_eq h hn hstart rfl
    change serve _ [] _ (notReady schemas listed []) = _ at hserve
    simp only [orderedBy, ordered, hshared, hrounds, hfree, hcounts, hserve, hplace]
    rw [notReady]
    cases (schemas.filter fun f => !f.isReady (schemaNames schemas) (schemaNames last)) with
    | nil => rfl
    | cons f rest => simp [Function.comp_def]

end FormSchema
