import FormSchema.Proofs.RegistryHistory
import Mathlib.Data.List.Perm.Subperm
import Mathlib.Logic.Relation
import Mathlib.Order.WellFounded

/-!
# The order of categories

Categories that are added one after the other stand below older ones only
(`Categories.IsOrdered`). So the walk along the links from a category to the one above it, which
`Categories.chain` does on ever older categories, is the walk on all of them (`chain_eq`), and it
comes to an end (`parentOf_wellFounded`). A category that is met on the way from another one has the
rest of that way before it (`chain_suffix`); therefore to stand below is a partial order
(`isBelow_trans`, `isBelow_antisymm`), the closure of the links (`isBelow_iff`).

Requests to the registry add categories and change none (`categories_after`), whatever parents are
named when a category is asked for again, so all of this holds after any requests
(`categories_run`).
-/

namespace FormSchema.Fault

namespace Categories

open Relation (ReflTransGen)

/-- The name of the category above another one. -/
def parentOf (cs : Categories) (name : String) : Option String :=
  (cs.get? name).bind Category.parent

/-- The names are different, and every category stands below an older one or below none. -/
inductive IsOrdered : Categories → Prop
  | nil : IsOrdered []
  | cons {c : Category} {older : Categories} (new : contains older c.name = false)
      (above : ∀ parent ∈ c.parent, contains older parent = true) (rest : IsOrdered older) :
      IsOrdered (c :: older)

variable {cs older : Categories} {c : Category} {name parent : String}

/-! ## Looking up -/

theorem contains_cons (c : Category) (older : Categories) (name : String) :
    contains (c :: older) name = (c.name == name || contains older name) :=
  rfl

/-- A category is there just if its name is among the names. -/
theorem contains_iff : contains cs name = true ↔ name ∈ cs.map Category.name := by
  simp [contains]

theorem get?_cons_self (c : Category) (older : Categories) : get? (c :: older) c.name = some c :=
  List.find?_cons_of_pos (beq_self_eq_true c.name)

theorem get?_cons_of_ne (h : c.name ≠ name) (older : Categories) :
    get? (c :: older) name = get? older name :=
  List.find?_cons_of_neg (by simpa using h)

theorem contains_of_get? (h : cs.get? name = some c) : contains cs name = true := by
  rw [get?] at h
  exact List.any_eq_true.2 ⟨c, List.mem_of_find?_eq_some h, by simpa using List.find?_some h⟩

theorem name_ne (hnew : contains older c.name = false) (h : contains older name = true) :
    c.name ≠ name := by
  rintro rfl
  rw [hnew] at h
  cases h

/-! ## Adding -/

/-- Inserting a category keeps the order: a parent was there before its child. -/
theorem IsOrdered.insert (h : IsOrdered cs) (name : String) (parent : Option String) :
    IsOrdered (cs.insert name parent) := by
  rw [Categories.insert]
  split
  · exact h
  · rename_i hnew
    refine .cons (Bool.eq_false_iff.2 hnew) (fun above habove => ?_) h
    exact (Option.mem_filter_iff.1 habove).2

/-- A category that is there stays as it is. -/
theorem get?_insert (h : cs.get? name = some c) (other : String) (parent : Option String) :
    (cs.insert other parent).get? name = some c := by
  rw [Categories.insert]
  split
  · exact h
  · rename_i hnew
    have hne := name_ne (c := ⟨other, parent.filter (contains cs)⟩) (Bool.eq_false_iff.2 hnew)
      (contains_of_get? h)
    rw [get?_cons_of_ne hne, h]

/-- A new category has the parent that was given, if that was there. -/
theorem get?_insert_self (h : contains cs name = false) (parent : Option String) :
    (cs.insert name parent).get? name = some ⟨name, parent.filter (contains cs)⟩ := by
  rw [Categories.insert, if_neg (Bool.eq_false_iff.1 h)]
  exact get?_cons_self _ _

/-! ## The way up -/

theorem chain_cons_of_ne (h : c.name ≠ name) (older : Categories) :
    chain (c :: older) name = chain older name :=
  if_neg (by simpa using h)

/-- No two ordered categories share a name. -/
theorem IsOrdered.nodup (h : IsOrdered cs) : (cs.map Category.name).Nodup := by
  induction h with
  | nil => exact List.nodup_nil
  | cons new _ _ ih =>
    rw [List.map_cons, List.nodup_cons, ← contains_iff, new]
    exact ⟨Bool.false_ne_true, ih⟩

/-- Whatever stands above a category is there. -/
theorem IsOrdered.contains_parentOf (h : IsOrdered cs) (hparent : cs.parentOf name = some parent) :
    contains cs parent = true := by
  induction h with
  | nil => cases hparent
  | @cons c older new above _ ih =>
    rw [contains_cons, Bool.or_eq_true]
    right
    by_cases hname : c.name = name
    · rw [← hname, parentOf, get?_cons_self] at hparent
      exact above parent hparent
    · rw [parentOf, get?_cons_of_ne hname] at hparent
      exact ih hparent

/-- The way from a category up is the category and the way from the one above it. -/
theorem IsOrdered.chain_eq (h : IsOrdered cs) (hname : contains cs name = true) :
    chain cs name = name :: (cs.parentOf name).elim [] (chain cs) := by
  induction h with
  | nil => cases hname
  | @cons c older new above rest ih =>
    by_cases hc : c.name = name
    · subst hc
      rw [parentOf, get?_cons_self, chain, if_pos (beq_self_eq_true c.name), Option.bind_some]
      cases hparent : c.parent with
      | none => rfl
      | some parent =>
        rw [Option.elim_some, chain_cons_of_ne (name_ne new (above parent hparent))]
    · have holder : contains older name = true := by
        rw [contains_cons, Bool.or_eq_true, beq_iff_eq] at hname
        exact hname.resolve_left hc
      have hsame : parentOf (c :: older) name = parentOf older name := by
        rw [parentOf, get?_cons_of_ne hc, parentOf]
      rw [chain_cons_of_ne hc, ih holder, hsame]
      cases hparent : older.parentOf name with
      | none => rfl
      | some parent =>
        have hne : c.name ≠ parent := name_ne new (rest.contains_parentOf hparent)
        rw [Option.elim_some, Option.elim_some, chain_cons_of_ne hne]

/-- Every name on a chain is that of a category. -/
theorem contains_of_mem_chain : ∀ {cs : Categories} {name above : String}, above ∈ chain cs name →
    contains cs name = true
  | c :: older, name, above, h => by
    rw [contains_cons, Bool.or_eq_true, beq_iff_eq]
    by_cases hc : c.name = name
    · exact .inl hc
    · rw [chain_cons_of_ne hc] at h
      exact .inr (contains_of_mem_chain h)

/-- The chain of a category goes on with that of its parent. -/
theorem IsOrdered.chain_of_parentOf (h : IsOrdered cs) (hparent : cs.parentOf name = some parent) :
    chain cs name = name :: chain cs parent := by
  obtain ⟨c, hc, -⟩ := Option.bind_eq_some_iff.1 hparent
  rw [h.chain_eq (contains_of_get? hc), hparent]
  rfl

/-- No way up goes on forever. -/
theorem IsOrdered.parentOf_wellFounded (h : IsOrdered cs) :
    WellFounded fun parent name => cs.parentOf name = some parent := by
  refine Subrelation.wf (fun {parent name} hparent => ?_)
    (measure fun name => (chain cs name).length).wf
  show (chain cs parent).length < (chain cs name).length
  rw [h.chain_of_parentOf hparent]
  exact Nat.lt_succ_self _

/-- What is met on the way up is the category itself, or is met on the way from the one above. -/
theorem IsOrdered.mem_chain_iff (h : IsOrdered cs) (hname : contains cs name = true)
    {above : String} : above ∈ chain cs name ↔
      above = name ∨ ∃ parent, cs.parentOf name = some parent ∧ above ∈ chain cs parent := by
  rw [h.chain_eq hname, List.mem_cons]
  cases cs.parentOf name with
  | none => simp
  | some parent => simp

/-- From what is met on a way the same way goes on. -/
theorem IsOrdered.chain_suffix (h : IsOrdered cs) {above : String} :
    above ∈ chain cs name → chain cs above <:+ chain cs name := by
  induction name using h.parentOf_wellFounded.induction with
  | _ name ih =>
    intro hmem
    rcases (h.mem_chain_iff (contains_of_mem_chain hmem)).1 hmem with rfl | ⟨parent, hparent, habove⟩
    · exact List.suffix_rfl
    · rw [h.chain_of_parentOf hparent]
      exact (ih parent hparent habove).trans (List.suffix_cons _ _)

/-- What is above a category is one. -/
theorem IsOrdered.contains_above (h : IsOrdered cs) {above : String} :
    above ∈ chain cs name → contains cs above = true := by
  induction name using h.parentOf_wellFounded.induction with
  | _ name ih =>
    intro hmem
    have hname := contains_of_mem_chain hmem
    rcases (h.mem_chain_iff hname).1 hmem with rfl | ⟨parent, hparent, habove⟩
    · exact hname
    · exact ih parent hparent habove

/-- No category is met twice. -/
theorem IsOrdered.nodup_chain (h : IsOrdered cs) : (chain cs name).Nodup := by
  induction name using h.parentOf_wellFounded.induction with
  | _ name ih =>
    by_cases hname : contains cs name = true
    · cases hparent : cs.parentOf name with
      | none =>
        rw [h.chain_eq hname, hparent]
        exact List.nodup_singleton name
      | some parent =>
        rw [h.chain_of_parentOf hparent, List.nodup_cons]
        refine ⟨fun hmem => ?_, ih parent hparent⟩
        have hlength := (h.chain_suffix hmem).length_le
        rw [h.chain_of_parentOf hparent, List.length_cons] at hlength
        exact absurd hlength (Nat.not_succ_le_self _)
    · have hnone : chain cs name = [] :=
        List.eq_nil_iff_forall_not_mem.2 fun _ hmem => hname (contains_of_mem_chain hmem)
      rw [hnone]
      exact List.nodup_nil

/-- A way up is not longer than there are categories. -/
theorem IsOrdered.length_chain_le (h : IsOrdered cs) (name : String) :
    (chain cs name).length ≤ cs.length := by
  have hsubset : chain cs name ⊆ cs.map Category.name := fun above hmem =>
    contains_iff.1 (h.contains_above hmem)
  have hle := (List.subperm_of_subset h.nodup_chain hsubset).length_le
  rwa [List.length_map] at hle

/-! ## Standing below -/

/-- A category is below another just if the other is on its chain. -/
theorem isBelow_iff_mem {above : String} : isBelow cs name above = true ↔ above ∈ chain cs name :=
  List.contains_iff_mem

/-- Every category is below itself. -/
theorem IsOrdered.isBelow_refl (h : IsOrdered cs) (hname : contains cs name = true) :
    isBelow cs name name = true :=
  isBelow_iff_mem.2 ((h.mem_chain_iff hname).2 (.inl rfl))

/-- Being below is transitive. -/
theorem IsOrdered.isBelow_trans (h : IsOrdered cs) {above top : String}
    (hfirst : isBelow cs name above = true) (hsecond : isBelow cs above top = true) :
    isBelow cs name top = true := by
  rw [isBelow_iff_mem] at *
  exact (h.chain_suffix hfirst).subset hsecond

/-- Two categories that are below each other are one. -/
theorem IsOrdered.isBelow_antisymm (h : IsOrdered cs) {above : String}
    (hup : isBelow cs name above = true) (hdown : isBelow cs above name = true) :
    name = above := by
  rw [isBelow_iff_mem] at *
  -- Each way is the rest of the other one, so they are the same and start at the same category.
  have hsame : chain cs above = chain cs name :=
    (h.chain_suffix hup).eq_of_length_le (h.chain_suffix hdown).length_le
  rw [h.chain_eq (contains_of_mem_chain hup), h.chain_eq (contains_of_mem_chain hdown)] at hsame
  exact (List.cons.inj hsame).1.symm

/-- To stand below is to be led up by links. -/
theorem IsOrdered.isBelow_iff (h : IsOrdered cs) (hname : contains cs name = true)
    (above : String) : isBelow cs name above = true ↔
      ReflTransGen (fun name parent => cs.parentOf name = some parent) name above := by
  constructor
  · rw [isBelow_iff_mem]
    intro hmem
    induction name using h.parentOf_wellFounded.induction with
    | _ name ih =>
      rcases (h.mem_chain_iff hname).1 hmem with rfl | ⟨parent, hparent, habove⟩
      · exact .refl
      · exact .head hparent (ih parent hparent (h.contains_parentOf hparent) habove)
  · intro hlinks
    induction hlinks with
    | refl => exact h.isBelow_refl hname
    | tail _ hlink ih =>
      have hmiddle := h.contains_above (isBelow_iff_mem.1 ih)
      refine h.isBelow_trans ih (isBelow_iff_mem.2 ?_)
      rw [h.chain_of_parentOf hlink, List.mem_cons, isBelow_iff_mem.symm]
      exact .inr (h.isBelow_refl (h.contains_parentOf hlink))

end Categories

/-! ## Categories of the registry -/

namespace Registry

open Categories
open Relation (ReflTransGen)

/-- Registering a code adds its category at most. -/
theorem categories_register (r : Registry) (name category : String) :
    (r.register name category).2.categories = r.categories ∨
      (r.register name category).2.categories = r.categories.insert category none := by
  rw [register]
  split
  · exact .inl rfl
  · exact .inr rfl

/-- A request adds a category or leaves all as they are. -/
theorem categories_after (r : Registry) (request : Request) :
    (r.after request).categories = r.categories ∨
      ∃ name parent, (r.after request).categories = r.categories.insert name parent := by
  cases request with
  | category name parent => exact .inr ⟨name, parent, rfl⟩
  | register name category =>
    exact (categories_register r name category).imp id fun h => ⟨category, none, h⟩
  | get name category =>
    show (r.codeFor name category).2.categories = r.categories ∨
      ∃ name' parent, (r.codeFor name category).2.categories = r.categories.insert name' parent
    rw [codeFor]
    split
    · exact .inl rfl
    · split
      · exact .inl rfl
      · exact (categories_register r name category).imp id fun h => ⟨category, none, h⟩
  | find name => exact .inl rfl

/-- A request keeps the categories ordered. -/
theorem isOrdered_after {r : Registry} (h : IsOrdered r.categories) (request : Request) :
    IsOrdered (r.after request).categories := by
  rcases categories_after r request with hsame | ⟨name, parent, hinsert⟩
  · rwa [hsame]
  · rw [hinsert]
    exact h.insert name parent

/-- A request changes no category that was there. -/
theorem get?_after {r : Registry} {name : String} {c : Category}
    (h : r.categories.get? name = some c) (request : Request) :
    (r.after request).categories.get? name = some c := by
  rcases categories_after r request with hsame | ⟨other, parent, hinsert⟩
  · rwa [hsame]
  · rw [hinsert]
    exact get?_insert h other parent

/-- Requests keep the categories ordered. -/
theorem isOrdered_run : ∀ {r : Registry} (requests : List Request), IsOrdered r.categories →
    IsOrdered (r.run requests).categories
  | _, [], h => h
  | _, request :: requests, h => isOrdered_run requests (isOrdered_after h request)

/-- Requests change no category that was there. -/
theorem get?_run : ∀ {r : Registry} (requests : List Request) {name : String} {c : Category},
    r.categories.get? name = some c → (r.run requests).categories.get? name = some c
  | _, [], _, _, h => h
  | _, request :: requests, _, _, h => get?_run requests (get?_after h request)

/-- The categories after any requests. A category stays as it was made, below the parent that was
named first if it was there. The links lead to categories that are there, no way along them goes on
forever, and the way from a category meets none twice. To stand below is to be led up by the links,
and is a partial order. -/
theorem categories_run (requests : List Request) :
    let cs := (initial.run requests).categories
    (∀ earlier later, requests = earlier ++ later →
      ∀ name c, (initial.run earlier).categories.get? name = some c → cs.get? name = some c) ∧
    (∀ earlier later name parent, requests = earlier ++ .category name parent :: later →
      contains (initial.run earlier).categories name = false →
        cs.get? name =
          some ⟨name, parent.filter (contains (initial.run earlier).categories)⟩) ∧
    (cs.map Category.name).Nodup ∧
    (∀ name parent, cs.parentOf name = some parent → contains cs parent = true) ∧
    (WellFounded fun parent name => cs.parentOf name = some parent) ∧
    (∀ name, contains cs name = true →
      chain cs name = name :: (cs.parentOf name).elim [] (chain cs) ∧
      (chain cs name).Nodup ∧ (chain cs name).length ≤ cs.length ∧
      isBelow cs name name = true ∧
      ∀ above, isBelow cs name above = true ↔
        ReflTransGen (fun name parent => cs.parentOf name = some parent) name above) ∧
    (∀ name above top, isBelow cs name above = true → isBelow cs above top = true →
      isBelow cs name top = true) ∧
    ∀ name above, isBelow cs name above = true → isBelow cs above name = true →
      name = above := by
  intro cs
  have hcs : IsOrdered cs := by
    have hinitial := isOrdered_run ownRequests (r := ⟨[], []⟩) .nil
    rw [← initial_eq_run] at hinitial
    exact isOrdered_run requests hinitial
  refine ⟨fun earlier later hrequests name c hc => ?_,
    fun earlier later name parent hrequests hnew => ?_, hcs.nodup,
    fun name parent => hcs.contains_parentOf, hcs.parentOf_wellFounded,
    fun name hname => ⟨hcs.chain_eq hname, hcs.nodup_chain, hcs.length_chain_le name,
      hcs.isBelow_refl hname, hcs.isBelow_iff hname⟩,
    fun name above top => hcs.isBelow_trans, fun name above => hcs.isBelow_antisymm⟩
  · have hlater := get?_run later hc
    rwa [← run_append, ← hrequests] at hlater
  · have hmade : ((initial.run earlier).after (.category name parent)).categories.get? name =
        some ⟨name, parent.filter (contains (initial.run earlier).categories)⟩ :=
      get?_insert_self hnew parent
    have hlater := get?_run later hmade
    have hcs : cs = ((initial.run earlier).run (.category name parent :: later)).categories := by
      rw [← run_append, ← hrequests]
    rw [hcs]
    exact hlater

example :
    let cs := (initial.run [.category "A" none, .category "B" (some "A"),
      .category "A" (some "B")]).categories
    isBelow cs "B" "A" = true ∧ isBelow cs "A" "B" = false := by
  decide

end Registry

end FormSchema.Fault
