import Mathlib
import FormSchema.Proofs.Counting
import FormSchema.Proofs.ModuleOrder

/-!
# Where a schema is placed

The order of schemas follows from their needs and from the order in which they are given, and from
nothing else (`ordered_rounds`). Schemas are placed by depth, the number of needs on the longest
chain that starts at them. Of two schemas of one depth the one comes first whose last need is placed
earlier, and if that is the same one or there is none, the one that is given first.

`Rounds` adds to the invariant of the rounds that what has been placed and what is in the queue
stands in the order of the last needs (`Follows`), and that what waits stands as it was given. A
round keeps it, since those that join have a last need behind all others: the schema that has just
been placed. From the order by last needs that by depth follows along chains
(`NeedsChain.of_precedes`).
-/

namespace FormSchema

/-! ## Before and after -/

section

variable {α : Type} {l : List α} {a b c : α}

/-- The first of two items stands before the second one in a list. -/
def Precedes (l : List α) (a b : α) : Prop :=
  [a, b].Sublist l

theorem precedes_cons {x : α} : Precedes (x :: l) a b ↔ Precedes l a b ∨ (a = x ∧ b ∈ l) := by
  unfold Precedes
  rw [List.sublist_cons_iff]
  constructor
  · rintro (h | ⟨r, hr, h⟩)
    · exact .inl h
    · cases hr
      exact .inr ⟨rfl, List.singleton_sublist.1 h⟩
  · rintro (h | ⟨rfl, h⟩)
    · exact .inl h
    · exact .inr ⟨[b], rfl, List.singleton_sublist.2 h⟩

theorem Precedes.mem (h : Precedes l a b) : a ∈ l ∧ b ∈ l :=
  ⟨h.subset (by simp), h.subset (by simp)⟩

/-- What comes before in a list comes before in every list around it. -/
theorem Precedes.mono {m : List α} (h : Precedes l a b) (hm : l.Sublist m) : Precedes m a b :=
  List.Sublist.trans h hm

/-- Coming before is transitive in a list without repetition. -/
theorem Precedes.trans (hn : l.Nodup) (hab : Precedes l a b) (hbc : Precedes l b c) :
    Precedes l a c := by
  induction l with
  | nil => exact absurd hab.mem.1 List.not_mem_nil
  | cons x rest ih =>
    rw [List.nodup_cons] at hn
    rw [precedes_cons] at hab hbc ⊢
    rcases hab with hab | ⟨rfl, hb⟩
    · rcases hbc with hbc | ⟨rfl, -⟩
      · exact .inl (ih hn.2 hab hbc)
      · exact absurd hab.mem.2 hn.1
    · rcases hbc with hbc | ⟨rfl, -⟩
      · exact .inr ⟨rfl, hbc.mem.2⟩
      · exact absurd hb hn.1

theorem not_precedes_self (hn : l.Nodup) : ¬Precedes l a a :=
  List.nodup_iff_sublist.1 hn a

/-- Of two elements at most one comes before the other. -/
theorem Precedes.asymm (hn : l.Nodup) (hab : Precedes l a b) : ¬Precedes l b a := fun hba =>
  not_precedes_self hn (hab.trans hn hba)

/-- Of two elements one comes before the other, or they are the same. -/
theorem precedes_or (ha : a ∈ l) (hb : b ∈ l) : a = b ∨ Precedes l a b ∨ Precedes l b a := by
  induction l with
  | nil => cases ha
  | cons x rest ih =>
    simp only [precedes_cons]
    rcases List.mem_cons.1 ha with rfl | ha'
    · rcases List.mem_cons.1 hb with rfl | hb'
      · exact .inl rfl
      · exact .inr (.inl (.inr ⟨rfl, hb'⟩))
    · rcases List.mem_cons.1 hb with rfl | hb'
      · exact .inr (.inr (.inr ⟨rfl, ha'⟩))
      · exact (ih ha' hb').imp_right fun h => h.imp .inl .inl

/-- A list stands before an item that is put behind it. -/
theorem precedes_concat (ha : a ∈ l) : Precedes (l ++ [b]) a b :=
  (List.singleton_sublist.2 ha).append (List.Sublist.refl [b])

end

/-! ## The last need -/

/-- A schema refers to another one, which has another name. -/
def Form.namesOther (f g : Form) : Bool :=
  g.schemaName != f.schemaName && f.references.contains g.schemaName

/-- The last schema of a list that a schema refers to, itself left aside, if it refers to one of
them. -/
def Form.lastNeed? (f : Form) (l : List Form) : Option Form :=
  (l.filter f.namesOther).getLast?

section

variable {schemas l : List Form} {f g : Form}

/-- A schema needs another just if it names it and is not the same. -/
theorem Form.needs_iff (hg : g ∈ schemas) : Needs schemas f g ↔ f.namesOther g = true := by
  simp only [Needs, hg, true_and, namesOther, Bool.and_eq_true, bne_iff_ne, List.contains_iff_mem,
    f.mem_references]

/-- A schema has no last need in a list just if it needs nothing in it. -/
theorem Form.lastNeed?_eq_none_iff (hl : l ⊆ schemas) :
    f.lastNeed? l = none ↔ ∀ g ∈ l, ¬Needs schemas f g := by
  rw [lastNeed?, List.getLast?_eq_none_iff, List.filter_eq_nil_iff]
  exact forall₂_congr fun g hg => not_congr (needs_iff (hl hg)).symm

/-- The last need is a need, and all others stand before it. -/
theorem Form.of_lastNeed? (hl : l ⊆ schemas) (h : f.lastNeed? l = some g) :
    g ∈ l ∧ Needs schemas f g ∧
      ∀ other ∈ l, Needs schemas f other → other = g ∨ Precedes l other g := by
  obtain ⟨before, hbefore⟩ := List.getLast?_eq_some_iff.1 h
  obtain ⟨hg, hnames⟩ : g ∈ l ∧ f.namesOther g = true :=
    List.mem_filter.1 (hbefore ▸ by simp)
  refine ⟨hg, (needs_iff (hl hg)).2 hnames, fun other hother hneeds => ?_⟩
  have hmem := List.mem_filter.2 ⟨hother, (needs_iff (hl hother)).1 hneeds⟩
  rw [hbefore, List.mem_append, List.mem_singleton] at hmem
  refine hmem.symm.imp_right fun hmem => ?_
  exact (precedes_concat hmem).mono (hbefore ▸ List.filter_sublist)

/-- A schema that is placed is the last need of those that need it. -/
theorem Form.lastNeed?_concat (hg : g ∈ schemas) (l : List Form) :
    (Needs schemas f g → f.lastNeed? (l ++ [g]) = some g) ∧
      (¬Needs schemas f g → f.lastNeed? (l ++ [g]) = f.lastNeed? l) := by
  simp only [needs_iff hg, lastNeed?, List.filter_append, List.filter_singleton]
  cases f.namesOther g <;> simp

end

/-- The first schema stands before the second one in the order of their last needs in a list: it has
none and the other has one, or its own is earlier, or they are the same and it is given first. -/
inductive Follows (schemas placed : List Form) (f g : Form) : Prop
  | free {b : Form} : f.lastNeed? placed = none → g.lastNeed? placed = some b → Follows ..
  | earlier {a b : Form} : f.lastNeed? placed = some a → g.lastNeed? placed = some b →
      Precedes placed a b → Follows ..
  | same : f.lastNeed? placed = g.lastNeed? placed → Precedes schemas f g → Follows ..

/-- What follows stays so when more is placed that is no need of the two. -/
theorem Follows.of_eq {schemas placed more : List Form} {f g : Form} (h : Follows schemas placed f g)
    (hf : f.lastNeed? more = f.lastNeed? placed) (hg : g.lastNeed? more = g.lastNeed? placed)
    (hmore : placed.Sublist more) : Follows schemas more f g := by
  cases h with
  | free hnone hsome => exact .free (hf.trans hnone) (hg.trans hsome)
  | earlier ha hb hab => exact .earlier (hf.trans ha) (hg.trans hb) (hab.mono hmore)
  | same heq hgiven => exact .same (hf.trans (heq.trans hg.symm)) hgiven

/-! ## Rounds -/

/-- The state of the rounds with its order: what has been placed and what is in the queue goes by the
last needs, and what waits stands as it was given. -/
structure Rounds (schemas placed queue waiting : List Form) : Prop
    extends Placing schemas placed queue waiting where
  follows : (placed ++ queue).Pairwise (Follows schemas placed)
  given : waiting.Sublist schemas

namespace Rounds

variable {schemas placed queue waiting : List Form}

/-- The rounds begin with the schemas that need nothing. -/
theorem start (schemas : List Form) :
    Rounds schemas [] (schemas.partition (Form.isReady (schemaNames schemas) [])).1
      (schemas.partition (Form.isReady (schemaNames schemas) [])).2 where
  toPlacing := Placing.start schemas
  follows := by
    rw [List.nil_append, List.partition_eq_filter_filter, List.pairwise_iff_forall_sublist]
    exact fun {f g} h => .same rfl (Precedes.mono h List.filter_sublist)
  given := by
    rw [List.partition_eq_filter_filter]
    exact List.filter_sublist

/-- What has been placed and what is in the queue does not need the schema that comes next. -/
theorem not_needs {f g : Form} {rest : List Form}
    (h : Rounds schemas placed (f :: rest) waiting) (hn : (schemaNames schemas).Nodup)
    (hg : g ∈ placed ++ f :: rest) : ¬Needs schemas g f := by
  have hready : g.isReady (schemaNames schemas) (schemaNames placed) = true := by
    rcases List.mem_append.1 hg with hg | hg
    · obtain ⟨before, after, rfl⟩ := List.append_of_mem hg
      exact Form.isReady_mono (List.map_subset _ (List.subset_append_left _ _))
        (h.sorted before g after rfl)
    · exact h.ready g hg
  exact fun hneeds => h.name_not_mem hn (Form.isReady_iff.1 hready f hneeds)

/-- What becomes ready when a schema is placed needs that schema. -/
theorem needs_of_joins {f g : Form} {rest : List Form}
    (h : Rounds schemas placed (f :: rest) waiting) (hn : (schemaNames schemas).Nodup)
    (hg : g ∈ waiting)
    (hready : g.isReady (schemaNames schemas) (schemaNames (placed ++ [f])) = true) :
    Needs schemas g f := by
  have hstuck := h.stuck g hg
  rw [← Bool.not_eq_true, Form.isReady_iff] at hstuck
  push Not at hstuck
  obtain ⟨other, hneeds, hother⟩ := hstuck
  have hplaced := Form.isReady_iff.1 hready other hneeds
  rw [schemaNames, List.map_append, List.mem_append] at hplaced
  have hname : other.schemaName = f.schemaName := by simpa using hplaced.resolve_left hother
  have hf : f ∈ schemas := h.perm.mem_iff.1 (by simp)
  exact List.inj_on_of_nodup_map hn hneeds.1 hf hname ▸ hneeds

/-- A round keeps the order: those that join the queue have the schema that has just been placed as
their last need. -/
theorem step {f : Form} {rest : List Form} (h : Rounds schemas placed (f :: rest) waiting)
    (hn : (schemaNames schemas).Nodup) :
    Rounds schemas (placed ++ [f])
      (rest ++ (waiting.partition
        (Form.isReady (schemaNames schemas) (schemaNames (placed ++ [f])))).1)
      (waiting.partition
        (Form.isReady (schemaNames schemas) (schemaNames (placed ++ [f])))).2 where
  toPlacing := h.toPlacing.step
  follows := by
    have hf : f ∈ schemas := h.perm.mem_iff.1 (by simp)
    have hplaced : placed ⊆ schemas := fun g hg => h.perm.mem_iff.1 (by simp [hg])
    have hold : ∀ g ∈ placed ++ f :: rest, g.lastNeed? (placed ++ [f]) = g.lastNeed? placed :=
      fun g hg => (Form.lastNeed?_concat hf placed).2 (h.not_needs hn hg)
    have hnew : ∀ g ∈ waiting.filter (Form.isReady (schemaNames schemas)
        (schemaNames (placed ++ [f]))), g.lastNeed? (placed ++ [f]) = some f := by
      intro g hg
      obtain ⟨hg, hready⟩ := List.mem_filter.1 hg
      exact (Form.lastNeed?_concat hf placed).1 (h.needs_of_joins hn hg hready)
    have hsplit : placed ++ [f] ++ (rest ++ (waiting.partition
        (Form.isReady (schemaNames schemas) (schemaNames (placed ++ [f])))).1) =
          (placed ++ f :: rest) ++ waiting.filter
            (Form.isReady (schemaNames schemas) (schemaNames (placed ++ [f]))) := by
      rw [List.partition_eq_filter_filter]
      simp
    rw [hsplit, List.pairwise_append]
    refine ⟨h.follows.imp_of_mem fun {a b} ha hb hab => ?_, ?_, fun a ha b hb => ?_⟩
    · exact hab.of_eq (hold a ha) (hold b hb) (List.sublist_append_left placed [f])
    · rw [List.pairwise_iff_forall_sublist]
      intro a b hab
      have hmem := Precedes.mem hab
      exact .same ((hnew a hmem.1).trans (hnew b hmem.2).symm)
        (Precedes.mono hab (List.filter_sublist.trans h.given))
    · cases hlast : a.lastNeed? placed with
      | none => exact .free ((hold a ha).trans hlast) (hnew b hb)
      | some c =>
        exact .earlier ((hold a ha).trans hlast) (hnew b hb)
          (precedes_concat (Form.of_lastNeed? hplaced hlast).1)
  given := by
    rw [List.partition_eq_filter_filter]
    exact List.filter_sublist.trans h.given

/-- All rounds together end with an empty queue. -/
theorem run (h : Rounds schemas placed queue waiting) (hn : (schemaNames schemas).Nodup) :
    Rounds schemas (placeAll (schemaNames schemas) placed queue waiting).1 []
      (placeAll (schemaNames schemas) placed queue waiting).2 := by
  fun_induction placeAll (schemaNames schemas) placed queue waiting with
  | case1 => exact h
  | case2 placed waiting f rest now split ih => exact ih (h.step hn)

end Rounds

/-! ## Depths -/

/-- A chain of so many needs starts at the schema. -/
inductive NeedsChain (schemas : List Form) : Form → Nat → Prop
  | nil (f : Form) : NeedsChain schemas f 0
  | cons {f g : Form} {n : Nat} : Needs schemas f g → NeedsChain schemas g n →
      NeedsChain schemas f (n + 1)

/-- The number of needs on the longest chain that starts at the schema. -/
noncomputable def depth (schemas : List Form) (f : Form) : Nat :=
  sSup {n | NeedsChain schemas f n}

section

variable {schemas sorted : List Form} (h : Rounds schemas sorted [] [])
  (hn : (schemaNames schemas).Nodup)

include h in
/-- The rounds place all schemas and nothing else. -/
theorem Rounds.mem_iff {f : Form} : f ∈ sorted ↔ f ∈ schemas := by
  simpa using h.perm.mem_iff

include h hn in
theorem Rounds.nodup : sorted.Nodup := by
  simpa using h.perm.nodup_iff.2 hn.of_map

include h in
/-- What is placed later follows by its last need and then by its order in the list. -/
theorem Rounds.follows_of_precedes {f g : Form} (hfg : Precedes sorted f g) :
    Follows schemas sorted f g := by
  have hfollows := h.follows
  rw [List.append_nil, List.pairwise_iff_forall_sublist] at hfollows
  exact hfollows hfg

include h hn in
/-- Of two schemas the later one starts all chains that the earlier one does, as far as their lengths
go: its last need is no earlier. -/
theorem NeedsChain.of_precedes {f g : Form} {n : Nat} (hchain : NeedsChain schemas f n)
    (hfg : Precedes sorted f g) : NeedsChain schemas g n := by
  have hsub : sorted ⊆ schemas := fun _ => h.mem_iff.1
  induction hchain generalizing g with
  | nil f => exact .nil g
  | @cons f next n hneeds _ ih =>
    have hnext : next ∈ sorted := h.mem_iff.2 hneeds.1
    obtain ⟨a, ha⟩ : ∃ a, f.lastNeed? sorted = some a := by
      rw [← Option.ne_none_iff_exists', ne_eq, Form.lastNeed?_eq_none_iff hsub]
      exact fun hnone => hnone next hnext hneeds
    obtain ⟨b, hb, hab⟩ : ∃ b, g.lastNeed? sorted = some b ∧ (a = b ∨ Precedes sorted a b) := by
      cases h.follows_of_precedes hfg with
      | free hnone _ => exact absurd (ha.symm.trans hnone) (by simp)
      | earlier ha' hb hab =>
        obtain rfl := Option.some.inj (ha.symm.trans ha')
        exact ⟨_, hb, .inr hab⟩
      | same heq _ => exact ⟨a, heq.symm.trans ha, .inl rfl⟩
    refine .cons (Form.of_lastNeed? hsub hb).2.1 ?_
    obtain ⟨-, -, hothers⟩ := Form.of_lastNeed? hsub ha
    rcases hothers next hnext hneeds with rfl | hbefore
    · rcases hab with rfl | hab
      · assumption
      · exact ih hab
    · rcases hab with rfl | hab
      · exact ih hbefore
      · exact ih (hbefore.trans (h.nodup hn) hab)

include h hn in
/-- A chain is no longer than the number of schemas placed before the one it starts at. -/
theorem NeedsChain.le_length {f : Form} {n : Nat} (hchain : NeedsChain schemas f n) :
    ∀ {before after : List Form}, sorted = before ++ f :: after → n ≤ before.length := by
  induction hchain with
  | nil => exact fun _ => Nat.zero_le _
  | @cons f next n hneeds _ ih =>
    intro before after heq
    obtain ⟨first, second, rfl⟩ := List.append_of_mem (h.needs_before hn heq hneeds)
    have hle := @ih first (second ++ f :: after) (by rw [heq]; simp)
    simp only [List.length_append, List.length_cons]
    omega

include h hn in
/-- The depth of a schema is the length of its longest chain of needs. -/
theorem isGreatest_depth {f : Form} (hf : f ∈ schemas) :
    IsGreatest {n | NeedsChain schemas f n} (depth schemas f) := by
  have hbound : BddAbove {n | NeedsChain schemas f n} := by
    obtain ⟨before, after, heq⟩ := List.append_of_mem (h.mem_iff.2 hf)
    exact ⟨before.length, fun n hchain => hchain.le_length h hn heq⟩
  exact ⟨Nat.sSup_mem ⟨0, .nil f⟩ hbound, fun n hchain => le_csSup hbound hchain⟩

include h hn in
/-- What is placed earlier has no greater depth. -/
theorem depth_le_of_precedes {f g : Form} (hfg : Precedes sorted f g) :
    depth schemas f ≤ depth schemas g := by
  have hf := isGreatest_depth h hn (h.mem_iff.1 hfg.mem.1)
  have hg := isGreatest_depth h hn (h.mem_iff.1 hfg.mem.2)
  exact hg.2 (hf.1.of_precedes h hn hfg)

include h hn in
/-- A schema whose last need is another one's has some depth, and a schema without needs has none. -/
theorem depth_ne_of_free {f g b : Form} (hf : f ∈ schemas) (hg : g ∈ schemas)
    (hnone : f.lastNeed? sorted = none) (hsome : g.lastNeed? sorted = some b) :
    depth schemas f ≠ depth schemas g := by
  have hsub : sorted ⊆ schemas := fun _ => h.mem_iff.1
  have hone : 1 ≤ depth schemas g :=
    (isGreatest_depth h hn hg).2 (.cons (Form.of_lastNeed? hsub hsome).2.1 (.nil b))
  have hzero : ∀ n, NeedsChain schemas f n → n = 0 := by
    intro n hchain
    cases hchain with
    | nil => rfl
    | @cons _ next _ hneeds _ =>
      exact absurd hneeds ((Form.lastNeed?_eq_none_iff hsub).1 hnone next (h.mem_iff.2 hneeds.1))
  have := hzero _ (isGreatest_depth h hn hf).1
  omega

end

theorem Follows.asymm {schemas placed : List Form} {f g : Form} (hschemas : schemas.Nodup)
    (hplaced : placed.Nodup) (h : Follows schemas placed f g) : ¬Follows schemas placed g f := by
  intro h'
  have hself {a b : Form} (heq : a = b) (hab : Precedes placed a b) : False :=
    not_precedes_self hplaced (heq ▸ hab)
  cases h with
  | free hf hg => cases h' <;> simp_all
  | earlier hf hg hab =>
    cases h' with
    | free hg' _ => simp_all
    | earlier hg' hf' hba =>
      obtain rfl := Option.some.inj (hf.symm.trans hf')
      obtain rfl := Option.some.inj (hg.symm.trans hg')
      exact hab.asymm hplaced hba
    | same heq _ => exact hself (Option.some.inj (hf.symm.trans (heq.symm.trans hg))) hab
  | same heq hgiven =>
    cases h' with
    | free hg' hf' => simp_all
    | earlier hg hf hba => exact hself (Option.some.inj (hg.symm.trans (heq.symm.trans hf))) hba
    | same _ hgiven' => exact hgiven.asymm hschemas hgiven'

/-- Of two schemas the one comes first that does so in the order of the last needs. -/
theorem Rounds.precedes_iff {schemas sorted : List Form} (h : Rounds schemas sorted [] [])
    (hn : (schemaNames schemas).Nodup) {f g : Form} (hf : f ∈ schemas) (hg : g ∈ schemas) :
    Precedes sorted f g ↔ Follows schemas sorted f g := by
  have hnot {a b : Form} : Follows schemas sorted a b → ¬Follows schemas sorted b a :=
    Follows.asymm hn.of_map (h.nodup hn)
  refine ⟨h.follows_of_precedes, fun hfollows => ?_⟩
  rcases precedes_or (h.mem_iff.2 hf) (h.mem_iff.2 hg) with rfl | hfg | hgf
  · exact absurd hfollows (hnot hfollows)
  · exact hfg
  · exact absurd (h.follows_of_precedes hgf) (hnot hfollows)

/-- Schemas that are ordered are placed in rounds. -/
theorem rounds_of_ordered {schemas sorted : List Form} (h : ordered schemas = .ok sorted) :
    Rounds schemas sorted [] [] := by
  obtain ⟨hn, hrounds⟩ := placeAll_of_ordered h
  have hrun := (Rounds.start schemas).run hn
  rwa [hrounds] at hrun

/-- Schemas with different names among which there is no circle have one order, whatever the order in
which the references of each are gone through. They stand by depth, and two schemas of one depth by
their last needs: the one whose last need is placed earlier comes first, and if they have the same
last need or none, the one that is given first. -/
theorem ordered_rounds {schemas : List Form} (hn : (schemaNames schemas).Nodup)
    (hno : ¬∃ f, OnCircle schemas f) :
    ∃ sorted, ordered schemas = .ok sorted ∧ sorted.Perm schemas ∧
      (∀ listed : Form → List String, (∀ f ∈ schemas, (listed f).Perm f.references) →
        orderedBy listed schemas = .ok sorted) ∧
      (∀ f ∈ schemas, IsGreatest {n | NeedsChain schemas f n} (depth schemas f)) ∧
      (∀ f g, Precedes sorted f g → depth schemas f ≤ depth schemas g) ∧
      ∀ f ∈ schemas, ∀ g ∈ schemas, depth schemas f = depth schemas g →
        (Precedes sorted f g ↔
          (∃ a b, f.lastNeed? sorted = some a ∧ g.lastNeed? sorted = some b ∧
            Precedes sorted a b) ∨
          (f.lastNeed? sorted = g.lastNeed? sorted ∧ Precedes schemas f g)) := by
  obtain ⟨sorted, hsorted, hperm, -⟩ := (ordered_spec schemas).2.2 hn hno
  have h := rounds_of_ordered hsorted
  refine ⟨sorted, hsorted, hperm, fun listed hlisted => (orderedBy_eq hlisted).trans hsorted,
    fun f hf => isGreatest_depth h hn hf, fun f g hfg => depth_le_of_precedes h hn hfg,
    fun f hf g hg hdepth => ?_⟩
  rw [h.precedes_iff hn hf hg]
  constructor
  · rintro (⟨hnone, hsome⟩ | ⟨ha, hb, hab⟩ | ⟨heq, hgiven⟩)
    · exact absurd hdepth (depth_ne_of_free h hn hf hg hnone hsome)
    · exact .inl ⟨_, _, ha, hb, hab⟩
    · exact .inr ⟨heq, hgiven⟩
  · rintro (⟨a, b, ha, hb, hab⟩ | ⟨heq, hgiven⟩)
    · exact .earlier ha hb hab
    · exact .same heq hgiven

/-- A form with the name of its schema that refers to schemas. -/
def linkedForm (name : String) (references : List String) : Form :=
  ⟨⟨"F", "./s", name⟩, references.map fun other => referenceField other other, [], none⟩

/-- A schema above two others, of which one refers to itself as well, above one that refers to a
schema elsewhere. -/
def diamond : List Form :=
  [linkedForm "top" ["left", "right"], linkedForm "right" ["base"],
    linkedForm "left" ["base", "left"], linkedForm "base" ["elsewhere"]]

/-- The schemas in their order: the two in the middle have the same last need and stand as they were
given. -/
def placedDiamond : List Form :=
  [linkedForm "base" ["elsewhere"], linkedForm "right" ["base"],
    linkedForm "left" ["base", "left"], linkedForm "top" ["left", "right"]]

theorem ordered_diamond : ordered diamond = .ok placedDiamond := by
  cbv

theorem ordered_rounds_diamond :
    (schemaNames diamond).Nodup ∧ (¬∃ f, OnCircle diamond f) ∧
      (∀ listed : Form → List String, (∀ f ∈ diamond, (listed f).Perm f.references) →
        orderedBy listed diamond = .ok placedDiamond) ∧
      (∀ f ∈ diamond, IsGreatest {n | NeedsChain diamond f n} (depth diamond f)) ∧
      ∀ f g, Precedes placedDiamond f g → depth diamond f ≤ depth diamond g := by
  have hn : (schemaNames diamond).Nodup := by decide
  have hno := not_onCircle_of_ordered ordered_diamond
  obtain ⟨sorted, hsorted, -, hlisted, hdepth, hmono, -⟩ := ordered_rounds hn hno
  obtain rfl : sorted = placedDiamond := Except.ok.inj (hsorted.symm.trans ordered_diamond)
  exact ⟨hn, hno, hlisted, hdepth, hmono⟩

end FormSchema
