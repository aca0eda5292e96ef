import Mathlib.Data.Fintype.Card
import Mathlib.Data.Set.Finite.List
import Mathlib.Logic.Relation
import FormSchema.Proofs.References

/-!
# The order of schemas is right

The schemas of a list form a graph: a schema `Needs` every other schema of the list that a field
at some depth of its form stands for. `ordered_spec` says which of three things `ordered` gives.
If names are shared, these names. If the graph has a circle, the names of the schemas from which a
circle can be reached. Otherwise all schemas, each after those it needs.

`Placing` is the invariant of the rounds: nothing is lost, every schema has been placed after all
that it needs, those in the queue are ready and those that wait are not. A round keeps it
(`Placing.step`), and so does the whole run (`Placing.run`). What waits in the end needs something
that waits, too, so it meets a circle, since there are finitely many schemas; what has been placed
only needs what was placed before, and meets none.
-/

namespace FormSchema

open Relation

/-! ## The graph -/

/-- The second schema is another one of the list, and the first refers to it at some depth. -/
def Needs (schemas : List Form) (f g : Form) : Prop :=
  g ∈ schemas ∧ g.schemaName ≠ f.schemaName ∧ f.RefersTo g.schemaName

/-- A schema is on a circle of needs. -/
def OnCircle (schemas : List Form) (f : Form) : Prop :=
  TransGen (Needs schemas) f f

/-- Following needs from the schema, a circle can be reached. -/
def MeetsCircle (schemas : List Form) (f : Form) : Prop :=
  ∃ g, ReflTransGen (Needs schemas) f g ∧ OnCircle schemas g

/-- The names of schemas. -/
abbrev schemaNames (schemas : List Form) : List String :=
  schemas.map Form.schemaName

theorem Form.isReady_iff {schemas : List Form} {placed : List String} {f : Form} :
    f.isReady (schemaNames schemas) placed = true ↔
      ∀ g, Needs schemas f g → g.schemaName ∈ placed := by
  rw [isReady, List.all_eq_true]
  constructor
  · rintro h g ⟨hg, hne, href⟩
    have hmem : g.schemaName ∈ f.references := f.mem_references g.schemaName |>.2 href
    have hneeds : f.needs (schemaNames schemas) g.schemaName = true := by
      simp only [needs, Bool.and_eq_true, List.contains_iff_mem, bne_iff_ne]
      exact ⟨⟨List.mem_map_of_mem hg, hne⟩, hmem⟩
    simpa [hneeds] using h g.schemaName hmem
  · intro h name href
    by_cases hneeds : f.needs (schemaNames schemas) name = true
    · have hn := hneeds
      simp only [needs, Bool.and_eq_true, List.contains_iff_mem, bne_iff_ne] at hn
      obtain ⟨⟨hmem, hne⟩, -⟩ := hn
      obtain ⟨g, hg, rfl⟩ := List.mem_map.1 hmem
      simpa [hneeds] using h g ⟨hg, hne, (f.mem_references _).1 href⟩
    · simp [hneeds]

theorem Form.isReady_mono {names placed more : List String} {f : Form} (h : placed ⊆ more)
    (hf : f.isReady names placed = true) : f.isReady names more = true := by
  simp only [isReady, List.all_eq_true, Bool.or_eq_true, List.contains_iff_mem] at hf ⊢
  exact fun name hn => (hf name hn).imp_right (@h name)

/-! ## The rounds -/

/-- The state of the rounds: what has been placed, what is in the queue, and what waits. -/
structure Placing (schemas placed queue waiting : List Form) : Prop where
  perm : (placed ++ queue ++ waiting).Perm schemas
  sorted : ∀ before f after, placed = before ++ f :: after →
    f.isReady (schemaNames schemas) (schemaNames before) = true
  ready : ∀ f ∈ queue, f.isReady (schemaNames schemas) (schemaNames placed) = true
  stuck : ∀ f ∈ waiting, f.isReady (schemaNames schemas) (schemaNames placed) = false

theorem perm_partition (p : Form → Bool) (l : List Form) :
    ((l.partition p).1 ++ (l.partition p).2).Perm l := by
  rw [List.partition_eq_filter_filter]
  exact List.filter_append_perm p l

theorem mem_partition {p : Form → Bool} {l : List Form} {f : Form} :
    (f ∈ (l.partition p).1 → p f = true) ∧ (f ∈ (l.partition p).2 → p f = false) := by
  rw [List.partition_eq_filter_filter]
  simp +contextual [List.mem_filter]

namespace Placing

variable {schemas placed queue waiting : List Form}

theorem start (schemas : List Form) :
    Placing schemas [] (schemas.partition (Form.isReady (schemaNames schemas) [])).1
      (schemas.partition (Form.isReady (schemaNames schemas) [])).2 where
  perm := perm_partition _ _
  sorted := fun before f after h => by simp at h
  ready := fun _ => mem_partition.1
  stuck := fun _ => mem_partition.2

/-- A round places the first schema of the queue, and whoever becomes ready by that joins. -/
theorem step {f : Form} {rest : List Form} (h : Placing schemas placed (f :: rest) waiting) :
    Placing schemas (placed ++ [f])
      (rest ++ (waiting.partition
        (Form.isReady (schemaNames schemas) (schemaNames (placed ++ [f])))).1)
      (waiting.partition (Form.isReady (schemaNames schemas) (schemaNames (placed ++ [f])))).2 where
  perm := by
    refine List.Perm.trans ?_ h.perm
    simp only [List.append_assoc, List.cons_append]
    exact (((perm_partition _ waiting).append_left rest).cons f).append_left placed
  sorted := by
    intro before g after heq
    rcases List.eq_nil_or_concat after with rfl | ⟨after', last, rfl⟩
    · obtain ⟨rfl, hg⟩ := List.append_inj' heq rfl
      rw [List.singleton_inj] at hg
      exact hg ▸ h.ready f List.mem_cons_self
    · rw [List.concat_eq_append, ← List.cons_append, ← List.append_assoc] at heq
      exact h.sorted before g after' (List.append_inj' heq rfl).1
  ready := by
    intro g hg
    rcases List.mem_append.1 hg with hg | hg
    · have hsub : schemaNames placed ⊆ schemaNames (placed ++ [f]) :=
        List.map_subset _ (List.subset_append_left _ _)
      exact Form.isReady_mono hsub (h.ready g (List.mem_cons_of_mem f hg))
    · exact mem_partition.1 hg
  stuck := fun _ => mem_partition.2

/-- All rounds together end with an empty queue. -/
theorem run (h : Placing schemas placed queue waiting) :
    Placing schemas (placeAll (schemaNames schemas) placed queue waiting).1 []
      (placeAll (schemaNames schemas) placed queue waiting).2 := by
  fun_induction placeAll (schemaNames schemas) placed queue waiting with
  | case1 => exact h
  | case2 placed waiting f rest now split ih => exact ih h.step

variable (h : Placing schemas placed [] waiting) (hn : (schemaNames schemas).Nodup)

include h in
theorem mem_iff {f : Form} : f ∈ schemas ↔ f ∈ placed ∨ f ∈ waiting := by
  rw [← h.perm.mem_iff]
  simp

include h hn in
/-- Of schemas with different names, one whose name is among those of a part is in that part. -/
theorem mem_of_name_mem {part : List Form} (hp : part ⊆ placed) {g : Form} (hg : g ∈ schemas)
    (hname : g.schemaName ∈ schemaNames part) : g ∈ part := by
  obtain ⟨g', hg', heq⟩ := List.mem_map.1 hname
  have hs : g' ∈ schemas := h.mem_iff.2 (Or.inl (hp hg'))
  exact List.inj_on_of_nodup_map hn hs hg heq ▸ hg'

include h hn in
/-- What has been placed only needs what was placed before it. -/
theorem needs_before {before after : List Form} {f g : Form} (heq : placed = before ++ f :: after)
    (hfg : Needs schemas f g) : g ∈ before := by
  have hsub : before ⊆ placed := heq ▸ List.subset_append_left _ _
  exact h.mem_of_name_mem hn hsub hfg.1
    (Form.isReady_iff.1 (h.sorted before f after heq) g hfg)

include h in
/-- What waits needs something that waits, too. -/
theorem needs_waiting {f : Form} (hf : f ∈ waiting) : ∃ g ∈ waiting, Needs schemas f g := by
  have hready := h.stuck f hf
  rw [← Bool.not_eq_true, Form.isReady_iff] at hready
  push Not at hready
  obtain ⟨g, hfg, hg⟩ := hready
  refine ⟨g, (h.mem_iff.1 hfg.1).resolve_left fun hp => hg (List.mem_map_of_mem hp), hfg⟩

include h hn in
/-- From what has been placed only what was placed before it can be reached. -/
theorem reaches_before {f g : Form} (hfg : TransGen (Needs schemas) f g) :
    ∀ {before after : List Form}, placed = before ++ f :: after → g ∈ before := by
  induction hfg using TransGen.head_induction_on with
  | single hfg => exact fun heq => h.needs_before hn heq hfg
  | @head a c hac _ ih =>
    intro before after heq
    obtain ⟨before', after', rfl⟩ := List.append_of_mem (h.needs_before hn heq hac)
    have heq' : placed = before' ++ c :: (after' ++ a :: after) := by
      rw [heq, List.append_assoc, List.cons_append]
    exact List.mem_append_left _ (ih heq')

include h hn in
theorem not_meetsCircle {f : Form} (hf : f ∈ placed) : ¬MeetsCircle schemas f := by
  have hnodup : placed.Nodup := by
    have := h.perm.nodup_iff.2 hn.of_map
    simp only [List.append_nil, List.nodup_append] at this
    exact this.1
  -- Wherever the walk goes it stays among the placed schemas, and none of them reaches itself.
  have hself : ∀ g ∈ placed, ¬OnCircle schemas g := by
    intro g hg hcirc
    obtain ⟨before, after, heq⟩ := List.append_of_mem hg
    have hmem := h.reaches_before hn hcirc heq
    rw [heq, List.nodup_append] at hnodup
    exact hnodup.2.2 g hmem g List.mem_cons_self rfl
  rintro ⟨g, hfg, hcirc⟩
  rcases reflTransGen_iff_eq_or_transGen.1 hfg with rfl | hfg
  · exact hself g hf hcirc
  · obtain ⟨before, after, heq⟩ := List.append_of_mem hf
    exact hself g (heq ▸ List.mem_append_left _ (h.reaches_before hn hfg heq)) hcirc

include h in
/-- What waits meets a circle. Otherwise the needs of what can be reached would go down to
something that waits and needs nothing, since there are finitely many schemas. -/
theorem meetsCircle {f : Form} (hf : f ∈ waiting) : MeetsCircle schemas f := by
  by_contra hno
  let Reached := {g : Form // g ∈ waiting ∧ ReflTransGen (Needs schemas) f g}
  let after (a b : Reached) : Prop := TransGen (Needs schemas) b.1 a.1
  have : Finite Reached :=
    ((List.finite_toSet waiting).subset fun g (hg : g ∈ waiting ∧ _) => hg.1).to_subtype
  have : IsTrans Reached after := ⟨fun _ _ _ hab hbc => hbc.trans hab⟩
  have : Std.Irrefl after := ⟨fun a ha => hno ⟨a.1, a.2.2, ha⟩⟩
  have hwf : WellFounded after := Finite.wellFounded_of_trans_of_irrefl after
  obtain ⟨g, -, hmin⟩ := hwf.has_min Set.univ ⟨⟨f, hf, .refl⟩, trivial⟩
  obtain ⟨g', hg', hneeds⟩ := h.needs_waiting g.2.1
  exact hmin ⟨g', hg', g.2.2.tail hneeds⟩ trivial (.single hneeds)

end Placing

/-! ## The result -/

/-- A schema on a circle meets one, and so a circle is met exactly if there is one. -/
theorem exists_meetsCircle_iff (schemas : List Form) :
    (∃ f ∈ schemas, MeetsCircle schemas f) ↔ ∃ f, OnCircle schemas f := by
  constructor
  · rintro ⟨f, -, g, -, hg⟩
    exact ⟨g, hg⟩
  · rintro ⟨f, hf⟩
    obtain ⟨g, -, hgf⟩ := TransGen.tail'_iff.1 hf
    exact ⟨f, hgf.1, f, .refl, hf⟩

theorem mem_sharedNames {names : List String} {name : String} :
    name ∈ sharedNames names ↔ 1 < names.count name := by
  rw [sharedNames, mem_sortedNames, List.mem_filter]
  constructor
  · exact fun h => by simpa using h.2
  · exact fun h => ⟨List.count_pos_iff.1 (by omega), by simpa using h⟩

theorem sharedNames_eq_nil_iff {names : List String} : sharedNames names = [] ↔ names.Nodup := by
  rw [List.nodup_iff_count_le_one, List.eq_nil_iff_forall_not_mem]
  simp only [mem_sharedNames, Nat.not_lt]

/-- The order of schemas is right and complete. Names that are shared are named, sorted, and each
once. Schemas with different names among which there is a circle are not ordered; named are those
from which a circle can be reached. All others are ordered, each schema after those it needs, and
so after those whose names its declaration writes. -/
theorem ordered_spec (schemas : List Form) :
    (¬(schemaNames schemas).Nodup →
      ∃ shared, ordered schemas = .error (.duplicate shared) ∧ shared.Pairwise (· < ·) ∧
        ∀ name, name ∈ shared ↔ 1 < (schemaNames schemas).count name) ∧
    ((schemaNames schemas).Nodup → (∃ f, OnCircle schemas f) →
      ∃ stuck, ordered schemas = .error (.circular stuck) ∧ stuck.Pairwise (· < ·) ∧
        ∀ name, name ∈ stuck ↔
          ∃ f ∈ schemas, f.schemaName = name ∧ MeetsCircle schemas f) ∧
    ((schemaNames schemas).Nodup → (¬∃ f, OnCircle schemas f) →
      ∃ sorted, ordered schemas = .ok sorted ∧ sorted.Perm schemas ∧
        ∀ before f after, sorted = before ++ f :: after →
          (∀ g, Needs schemas f g → g ∈ before) ∧
          ∀ g ∈ schemas, g.schemaName ≠ f.schemaName → g.schemaName ∈ f.written →
            g ∈ before) := by
  have hplace := (Placing.start schemas).run
  refine ⟨fun hdup => ?_, fun hn hcirc => ?_, fun hn hno => ?_⟩
  · have hne : sharedNames (schemaNames schemas) ≠ [] := mt sharedNames_eq_nil_iff.1 hdup
    refine ⟨sharedNames (schemaNames schemas), ?_, pairwise_sortedNames _,
      fun name => mem_sharedNames⟩
    obtain ⟨first, rest, heq⟩ := List.exists_cons_of_ne_nil hne
    simp only [ordered, heq]
  · rw [← exists_meetsCircle_iff] at hcirc
    obtain ⟨f, hf, hmeets⟩ := hcirc
    generalize hr : placeAll _ [] _ _ = r at hplace
    obtain ⟨placed, waiting⟩ := r
    have hwait : f ∈ waiting :=
      (hplace.mem_iff.1 hf).resolve_left fun hp => hplace.not_meetsCircle hn hp hmeets
    refine ⟨sortedNames (schemaNames waiting), ?_, pairwise_sortedNames _, fun name => ?_⟩
    · obtain ⟨first, rest, rfl⟩ := List.exists_cons_of_ne_nil (List.ne_nil_of_mem hwait)
      simp only [ordered, sharedNames_eq_nil_iff.2 hn, hr]
    · rw [mem_sortedNames, List.mem_map]
      constructor
      · rintro ⟨g, hg, rfl⟩
        exact ⟨g, hplace.mem_iff.2 (Or.inr hg), rfl, hplace.meetsCircle hg⟩
      · rintro ⟨g, hg, rfl, hmeets⟩
        exact ⟨g, (hplace.mem_iff.1 hg).resolve_left
          fun hp => hplace.not_meetsCircle hn hp hmeets, rfl⟩
  · generalize hr : placeAll _ [] _ _ = r at hplace
    obtain ⟨placed, waiting⟩ := r
    have hnil : waiting = [] := by
      rw [List.eq_nil_iff_forall_not_mem]
      exact fun f hf => hno ((exists_meetsCircle_iff schemas).1
        ⟨f, hplace.mem_iff.2 (Or.inr hf), hplace.meetsCircle hf⟩)
    subst hnil
    refine ⟨placed, ?_, by simpa using hplace.perm, fun before f after heq => ⟨fun g hfg =>
      hplace.needs_before hn heq hfg, fun g hg hne hw => ?_⟩⟩
    · simp only [ordered, sharedNames_eq_nil_iff.2 hn, hr]
    · exact hplace.needs_before hn heq ⟨hg, hne, Form.refersTo_of_mem_written hw⟩

end FormSchema
