import FormSchema.Fault.Registry
import FormSchema.Proofs.Merging
import Mathlib.Data.List.Perm.Basic

/-!
# Histories of the registry

Requests come to the registry of fault codes one after the other (`Request`). The codes that it has
made so far are its history (`Registry.history`), the newest first. All entries of the registry can
be told from the history (`Registry.Holds`): under its path stands a code of the history, and under
a plain name the newest code of that name. Every request keeps it so (`holds_after`, `holds_run`),
and its answer can be told as well (`answers_run`).

Names of codes have no point (`IsPlain`), so that a path says which code it is of
(`path_injective`) and is never a plain name. A category may have any name.
-/

namespace FormSchema.Fault

/-- A request to the registry. -/
inductive Request
  | category (name : String) (parent : Option String)
  | register (name category : String)
  | get (name category : String)
  | find (name : String)

/-- A name without a point. -/
def IsPlain (name : String) : Prop :=
  '.' ∉ name.toList

instance : DecidablePred IsPlain := fun name => inferInstanceAs (Decidable ('.' ∉ name.toList))

/-- The name of the code that a request is about. -/
def Request.code? : Request → Option String
  | .category _ _ => none
  | .register name _ => some name
  | .get name _ => some name
  | .find name => some name

/-- The newest code of a name, where the newest codes stand first. -/
def newest? (made : List Code) (name : String) : Option Code :=
  made.find? fun code => code.name == name

namespace Registry

/-- The answer to a request, and the registry after it. -/
def answer (r : Registry) : Request → Option Code × Registry
  | .category name parent => (none, r.addCategory name parent)
  | .register name category => (r.register name category).map some id
  | .get name category => (r.codeFor name category).map some id
  | .find name => (r.find? name, r)

/-- The registry after a request. -/
def after (r : Registry) (request : Request) : Registry :=
  (r.answer request).2

/-- The registry after some requests. -/
def run (r : Registry) (requests : List Request) : Registry :=
  requests.foldl after r

/-- The code that a request makes: its answer, if an entry changes. -/
def made (r : Registry) (request : Request) : List Code :=
  if (r.after request).codes = r.codes then [] else (r.answer request).1.toList

/-- The codes that requests make, the newest first. -/
def history (r : Registry) : List Request → List Code
  | [] => []
  | request :: requests => history (r.after request) requests ++ r.made request

/-- The requests by which the registry gets the codes of the library. -/
def ownRequests : List Request :=
  ownCodes.map fun code => .register code.name code.category

/-- What is entered in a registry by its history. -/
structure Holds (r : Registry) (created : List Code) : Prop where
  plain : ∀ code ∈ created, IsPlain code.name
  nodup : created.Nodup
  byPath : ∀ code : Code, IsPlain code.name →
    r.codes.lookup code.path = if code ∈ created then some code else none
  byName : ∀ name, IsPlain name → r.codes.lookup name = newest? created name
  entries : ∀ e ∈ r.codes, e.2 ∈ created ∧ (e.1 = e.2.path ∨ e.1 = e.2.name)

end Registry

/-! ## Paths -/

theorem path_toList (code : Code) :
    code.path.toList = code.category.toList ++ '.' :: code.name.toList := by
  rw [Code.path, String.toList_append, String.toList_append]
  simp

/-- A path is not a plain name. -/
theorem path_ne_plain (code : Code) {name : String} (h : IsPlain name) : code.path ≠ name := by
  rintro rfl
  refine h ?_
  rw [path_toList]
  exact List.mem_append_right _ List.mem_cons_self

/-- Where a mark does not come again behind it, what stands before it and behind it is determined. -/
theorem append_cons_inj {α : Type} {mark : α} {before before' behind behind' : List α}
    (h : mark ∉ behind) (h' : mark ∉ behind')
    (heq : before ++ mark :: behind = before' ++ mark :: behind') :
    before = before' ∧ behind = behind' := by
  -- Nothing stands between the two marks, or the second one would be behind the first.
  have hnil {between a b : List α} (ha : mark ∉ a) (hab : mark :: a = between ++ mark :: b) :
      between = [] ∧ a = b := by
    cases between with
    | nil => exact ⟨rfl, (List.cons.inj hab).2⟩
    | cons first others =>
      obtain ⟨-, rfl⟩ := List.cons.inj hab
      exact absurd (List.mem_append_right _ List.mem_cons_self) ha
  rcases List.append_eq_append_iff.1 heq with ⟨between, rfl, hrest⟩ | ⟨between, rfl, hrest⟩
  · obtain ⟨rfl, hsame⟩ := hnil h hrest
    exact ⟨(List.append_nil _).symm, hsame⟩
  · obtain ⟨rfl, hsame⟩ := hnil h' hrest
    exact ⟨List.append_nil _, hsame.symm⟩

/-- Codes of plain names with one path are one code. -/
theorem path_injective {a b : Code} (ha : IsPlain a.name) (hb : IsPlain b.name)
    (h : a.path = b.path) : a = b := by
  have hlist := congrArg String.toList h
  rw [path_toList, path_toList] at hlist
  obtain ⟨hcategory, hname⟩ := append_cons_inj ha hb hlist
  obtain ⟨aName, aCategory⟩ := a
  obtain ⟨bName, bCategory⟩ := b
  obtain rfl := String.toList_injective hcategory
  obtain rfl := String.toList_injective hname
  rfl

/-! ## The newest code of a name -/

/-- No code is the newest of a name just if none has the name. -/
theorem newest?_eq_none {created : List Code} {name : String} :
    newest? created name = none ↔ ∀ code ∈ created, code.name ≠ name := by
  simp [newest?]

/-- The newest code of a name is among the codes and has the name. -/
theorem newest?_mem {created : List Code} {name : String} {code : Code}
    (h : newest? created name = some code) : code ∈ created ∧ code.name = name :=
  ⟨List.mem_of_find?_eq_some h, by simpa using List.find?_some h⟩

/-- A code that is made is the newest of its name. -/
theorem newest?_cons (code : Code) (created : List Code) (name : String) :
    newest? (code :: created) name =
      if name = code.name then some code else newest? created name := by
  rw [newest?, List.find?_cons]
  by_cases h : name = code.name
  · simp [h]
  · have hne : (code.name == name) = false := by simpa using Ne.symm h
    rw [hne, if_neg h]
    rfl

namespace Registry

variable {r : Registry} {created : List Code} {name category : String}

/-! ## Single requests -/

theorem holds_empty : Holds ⟨[], []⟩ [] where
  plain := by simp
  nodup := List.nodup_nil
  byPath := fun _ _ => rfl
  byName := fun _ _ => rfl
  entries := by simp

/-- A path leads to the code that was made under it, and to none otherwise. -/
theorem Holds.lookup_path (h : Holds r created) (hname : IsPlain name) (category : String) :
    r.codes.lookup (Code.path ⟨name, category⟩) =
      if ⟨name, category⟩ ∈ created then some ⟨name, category⟩ else none :=
  h.byPath ⟨name, category⟩ hname

/-- A code that was made before is answered, and nothing changes. -/
theorem Holds.register_of_mem (h : Holds r created) (hname : IsPlain name)
    (hmem : ⟨name, category⟩ ∈ created) : r.register name category = (⟨name, category⟩, r) := by
  rw [register, h.lookup_path hname, if_pos hmem]

/-- A code that was not made before is made. -/
theorem Holds.register_of_not_mem (h : Holds r created) (hname : IsPlain name)
    (hmem : ⟨name, category⟩ ∉ created) :
    r.register name category = (⟨name, category⟩,
      { r.addCategory category none with
        codes := putEntry (putEntry r.codes (Code.path ⟨name, category⟩) ⟨name, category⟩) name
          ⟨name, category⟩ }) := by
  rw [register, h.lookup_path hname, if_neg hmem]
  rfl

/-- A new code is entered as the newest one. -/
theorem Holds.register_new (h : Holds r created) (hname : IsPlain name)
    (hmem : ⟨name, category⟩ ∉ created) :
    Holds (r.register name category).2 (⟨name, category⟩ :: created) := by
  rw [h.register_of_not_mem hname hmem]
  refine ⟨List.forall_mem_cons.2 ⟨hname, h.plain⟩, List.nodup_cons.2 ⟨hmem, h.nodup⟩,
    fun code hcode => ?_, fun other hother => ?_, fun e he => ?_⟩
  · rw [lookup_putEntry, lookup_putEntry, if_neg (path_ne_plain code hname), h.byPath code hcode]
    by_cases hsame : code = ⟨name, category⟩
    · rw [hsame, if_pos rfl, if_pos List.mem_cons_self]
    · rw [if_neg fun hpath => hsame (path_injective hcode hname hpath)]
      simp only [List.mem_cons, hsame, false_or]
  · rw [lookup_putEntry, lookup_putEntry, if_neg (path_ne_plain _ hother).symm, h.byName other hother,
      newest?_cons]
  · rcases mem_putEntry he with he | rfl
    · rcases mem_putEntry he with he | rfl
      · exact (h.entries e he).imp (List.mem_cons_of_mem _) id
      · exact ⟨List.mem_cons_self, .inl rfl⟩
    · exact ⟨List.mem_cons_self, .inr rfl⟩

theorem Holds.codes_register_ne (h : Holds r created) (hname : IsPlain name)
    (hmem : ⟨name, category⟩ ∉ created) : (r.register name category).2.codes ≠ r.codes := by
  intro hsame
  have hfound := (h.register_new hname hmem).lookup_path hname category
  rw [hsame, h.lookup_path hname, if_neg hmem, if_pos List.mem_cons_self] at hfound
  cases hfound

/-- A code that was made is found again, and nothing changes. -/
theorem Holds.codeFor_of_mem (h : Holds r created) (hname : IsPlain name)
    (hmem : ⟨name, category⟩ ∈ created) : r.codeFor name category = (⟨name, category⟩, r) := by
  rw [codeFor, h.lookup_path hname, if_pos hmem]

/-- Without the code itself the newest one of the name is found, and nothing changes. -/
theorem Holds.codeFor_of_newest (h : Holds r created) (hname : IsPlain name)
    (hmem : ⟨name, category⟩ ∉ created) {found : Code} (hfound : newest? created name = some found) :
    r.codeFor name category = (found, r) := by
  rw [codeFor, h.lookup_path hname, if_neg hmem, h.byName name hname, hfound]

/-- A name without a code gets one. -/
theorem Holds.codeFor_of_none (h : Holds r created) (hname : IsPlain name)
    (hnone : newest? created name = none) :
    r.codeFor name category = r.register name category := by
  have hmem : ⟨name, category⟩ ∉ created := fun hmem => newest?_eq_none.1 hnone _ hmem rfl
  rw [codeFor, h.lookup_path hname, if_neg hmem, h.byName name hname, hnone]

/-- Whatever is meant by a plain name has it. -/
theorem Holds.name_of_isMeant (h : Holds r created) (hname : IsPlain name) {e : String × Code}
    (he : e ∈ r.codes) (hmeant : isMeant name e = true) : e.2.name = name := by
  obtain ⟨hcreated, hkey⟩ := h.entries e he
  have hplain := h.plain e.2 hcreated
  rw [isMeant, Bool.or_eq_true, beq_iff_eq, List.isSuffixOf_iff_suffix] at hmeant
  rcases hmeant with hsuffix | hsame
  · rw [String.toList_append] at hsuffix
    obtain ⟨before, hbefore⟩ : ∃ before, before ++ '.' :: name.toList = e.1.toList := hsuffix
    rcases hkey with hpath | hown
    · rw [hpath, path_toList] at hbefore
      exact (String.toList_injective (append_cons_inj hname hplain hbefore).2).symm
    · refine absurd ?_ hplain
      rw [← hown, ← hbefore]
      exact List.mem_append_right _ List.mem_cons_self
  · exact hsame

/-- A plain name is found as its newest code. -/
theorem Holds.find?_eq (h : Holds r created) (hname : IsPlain name) :
    r.find? name = newest? created name := by
  rw [find?, h.byName name hname]
  cases hnewest : newest? created name with
  | some found => rfl
  | none =>
    have hnone : r.codes.find? (isMeant name) = none :=
      List.find?_eq_none.2 fun e he hmeant =>
        newest?_eq_none.1 hnewest e.2 (h.entries e he).1 (h.name_of_isMeant hname he hmeant)
    show (r.codes.find? (isMeant name)).map (·.2) = none
    rw [hnone, Option.map_none]

/-- The registry lists its history, each code once. -/
theorem Holds.allCodes_perm (h : Holds r created) : r.allCodes.Perm created := by
  refine (List.perm_ext_iff_of_nodup (nodup_eraseDups _) h.nodup).2 fun code => ?_
  rw [List.mem_eraseDups, List.mem_map]
  constructor
  · rintro ⟨e, he, rfl⟩
    exact (h.entries e he).1
  · intro hmem
    have hfound := h.byPath code (h.plain code hmem)
    rw [if_pos hmem] at hfound
    exact ⟨_, mem_of_lookup hfound, rfl⟩

/-! ## What a request makes -/

theorem made_eq_nil {request : Request} (h : (r.after request).codes = r.codes) :
    r.made request = [] :=
  if_pos h

/-- Registering makes a code unless it was made before. -/
theorem Holds.made_register (h : Holds r created) (hname : IsPlain name) (category : String) :
    r.made (.register name category) =
      if ⟨name, category⟩ ∈ created then [] else [⟨name, category⟩] := by
  by_cases hmem : ⟨name, category⟩ ∈ created
  · rw [if_pos hmem]
    refine made_eq_nil ?_
    show (r.register name category).2.codes = r.codes
    rw [h.register_of_mem hname hmem]
  · have hne : (r.after (.register name category)).codes ≠ r.codes :=
      h.codes_register_ne hname hmem
    rw [if_neg hmem, made, if_neg hne, answer, h.register_of_not_mem hname hmem]
    rfl

/-- Asking for a code makes it unless it or another one of its name was made before. -/
theorem Holds.made_get (h : Holds r created) (hname : IsPlain name) (category : String) :
    r.made (.get name category) =
      if ∃ code ∈ created, code.name = name then [] else [⟨name, category⟩] := by
  by_cases hmem : ⟨name, category⟩ ∈ created
  · rw [if_pos ⟨_, hmem, rfl⟩]
    refine made_eq_nil ?_
    show (r.codeFor name category).2.codes = r.codes
    rw [h.codeFor_of_mem hname hmem]
  · cases hnewest : newest? created name with
    | some found =>
      rw [if_pos ⟨found, newest?_mem hnewest⟩]
      refine made_eq_nil ?_
      show (r.codeFor name category).2.codes = r.codes
      rw [h.codeFor_of_newest hname hmem hnewest]
    | none =>
      have hnone : ¬ ∃ code ∈ created, code.name = name := by
        simpa using newest?_eq_none.1 hnewest
      have hregister := h.made_register hname category
      rw [if_neg hmem] at hregister
      rw [if_neg hnone, ← hregister, made, made, after, after, answer, answer,
        h.codeFor_of_none hname hnewest]

/-- A request keeps what is entered in step with the history. -/
theorem holds_after (h : Holds r created) {request : Request}
    (hplain : ∀ name ∈ request.code?, IsPlain name) :
    Holds (r.after request) (r.made request ++ created) := by
  cases request with
  | category name parent =>
    rw [made_eq_nil rfl]
    exact ⟨h.plain, h.nodup, h.byPath, h.byName, h.entries⟩
  | register name category =>
    have hname : IsPlain name := hplain name rfl
    rw [h.made_register hname]
    by_cases hmem : ⟨name, category⟩ ∈ created
    · rw [if_pos hmem, after, answer, h.register_of_mem hname hmem]
      exact h
    · rw [if_neg hmem]
      exact h.register_new hname hmem
  | get name category =>
    have hname : IsPlain name := hplain name rfl
    rw [h.made_get hname]
    by_cases hmem : ⟨name, category⟩ ∈ created
    · rw [if_pos ⟨_, hmem, rfl⟩, after, answer, h.codeFor_of_mem hname hmem]
      exact h
    · cases hnewest : newest? created name with
      | some found =>
        rw [if_pos ⟨found, newest?_mem hnewest⟩, after, answer,
          h.codeFor_of_newest hname hmem hnewest]
        exact h
      | none =>
        have hnone : ¬ ∃ code ∈ created, code.name = name := by
          simpa using newest?_eq_none.1 hnewest
        rw [if_neg hnone, after, answer, h.codeFor_of_none hname hnewest]
        exact h.register_new hname hmem
  | find name =>
    rw [made_eq_nil rfl]
    exact h

/-! ## Many requests -/

/-- Requests keep the registry in step with the codes that were made. -/
theorem holds_run : ∀ {r : Registry} {created : List Code} (requests : List Request),
    Holds r created → (∀ request ∈ requests, ∀ name ∈ request.code?, IsPlain name) →
      Holds (r.run requests) (r.history requests ++ created)
  | _, _, [], h, _ => h
  | r, created, request :: requests, h, hplain => by
    rw [List.forall_mem_cons] at hplain
    have hrest := holds_run requests (holds_after h hplain.1) hplain.2
    rw [← List.append_assoc] at hrest
    exact hrest

/-- The history of two runs is that of the second over that of the first. -/
theorem history_append (r : Registry) (a b : List Request) :
    r.history (a ++ b) = (r.run a).history b ++ r.history a := by
  induction a generalizing r with
  | nil => exact (List.append_nil _).symm
  | cons request requests ih =>
    rw [List.cons_append, history, ih, List.append_assoc]
    rfl

theorem run_append (r : Registry) (a b : List Request) : r.run (a ++ b) = (r.run a).run b :=
  List.foldl_append

/-- The registry starts with the codes of its own requests. -/
theorem initial_eq_run : initial = run ⟨[], []⟩ ownRequests := by
  rw [run, ownRequests, List.foldl_map]
  rfl

theorem isPlain_ownRequests :
    ∀ request ∈ ownRequests, ∀ name ∈ request.code?, IsPlain name := by
  decide

/-- What a code that is asked for is: the one of the category, or else the newest one of its
name, or else a new one. -/
theorem Holds.codeFor_eq (h : Holds r created) (hname : IsPlain name) (category : String) :
    (r.codeFor name category).1 =
      if ⟨name, category⟩ ∈ created then ⟨name, category⟩
      else (newest? created name).getD ⟨name, category⟩ := by
  by_cases hmem : ⟨name, category⟩ ∈ created
  · rw [h.codeFor_of_mem hname hmem, if_pos hmem]
  · rw [if_neg hmem]
    cases hnewest : newest? created name with
    | some found => rw [h.codeFor_of_newest hname hmem hnewest, Option.getD_some]
    | none =>
      rw [h.codeFor_of_none hname hnewest, h.register_of_not_mem hname hmem, Option.getD_none]

/-- Registering gives the code of the name and the category. -/
theorem Holds.register_eq (h : Holds r created) (hname : IsPlain name) (category : String) :
    (r.register name category).1 = ⟨name, category⟩ := by
  by_cases hmem : ⟨name, category⟩ ∈ created
  · rw [h.register_of_mem hname hmem]
  · rw [h.register_of_not_mem hname hmem]

/-- What the registry answers after any requests whose codes have plain names. Every code that was
made is listed once. Registering gives the code of that name and category, which is made unless it
was made before. Asking for a code gives the one of the category if it was made, or else the newest
one of its name, and makes one only if there is none of the name. Looking a name up gives the newest
code of the name, and nothing just if there is none. No code is lost later. -/
theorem answers_run (requests : List Request)
    (h : ∀ request ∈ requests, ∀ name ∈ request.code?, IsPlain name) :
    let r := initial.run requests
    let created := history ⟨[], []⟩ (ownRequests ++ requests)
    created.Nodup ∧ r.allCodes.Perm created ∧
    (∀ name category, IsPlain name →
      (r.register name category).1 = ⟨name, category⟩ ∧
      r.made (.register name category) =
        (if ⟨name, category⟩ ∈ created then [] else [⟨name, category⟩]) ∧
      (r.codeFor name category).1 =
        (if ⟨name, category⟩ ∈ created then ⟨name, category⟩
        else (newest? created name).getD ⟨name, category⟩) ∧
      r.made (.get name category) =
        if ∃ code ∈ created, code.name = name then [] else [⟨name, category⟩]) ∧
    (∀ name, IsPlain name → r.find? name = newest? created name ∧
      (r.find? name = none ↔ ∀ code ∈ created, code.name ≠ name)) ∧
    ∀ more : List Request, (∀ request ∈ more, ∀ name ∈ request.code?, IsPlain name) →
      ∀ code ∈ r.allCodes, code ∈ (r.run more).allCodes := by
  intro r created
  have hstart := holds_run ownRequests holds_empty isPlain_ownRequests
  rw [← initial_eq_run] at hstart
  have hr : Holds r created := by
    have hafter := holds_run requests hstart h
    rwa [List.append_nil, initial_eq_run, ← history_append, ← initial_eq_run] at hafter
  refine ⟨hr.nodup, hr.allCodes_perm, fun name category hname => ⟨hr.register_eq hname category,
    hr.made_register hname category, hr.codeFor_eq hname category, hr.made_get hname category⟩,
    fun name hname => ?_, fun more hmore code hcode => ?_⟩
  · rw [hr.find?_eq hname]
    exact ⟨rfl, newest?_eq_none⟩
  · have hlater := holds_run more hr hmore
    rw [hlater.allCodes_perm.mem_iff]
    exact List.mem_append_right _ (hr.allCodes_perm.mem_iff.1 hcode)

/-- Of two codes of one name the newer one is found, also where a third category is asked for. -/
theorem answers_run_newer :
    let requests := [Request.register "LATE" "FIRST", .register "LATE" "SECOND"]
    let r := initial.run requests
    (∀ request ∈ requests, ∀ name ∈ request.code?, IsPlain name) ∧ IsPlain "LATE" ∧
      r.find? "LATE" = some ⟨"LATE", "SECOND"⟩ ∧
      (r.codeFor "LATE" "THIRD").1 = ⟨"LATE", "SECOND"⟩ := by
  intro requests r
  have hplain : ∀ request ∈ requests, ∀ name ∈ request.code?, IsPlain name := by decide
  have hname : IsPlain "LATE" := by decide
  obtain ⟨-, -, hcodes, hfind, -⟩ := answers_run requests hplain
  refine ⟨hplain, hname, (hfind "LATE" hname).1.trans ?_,
    (hcodes "LATE" "THIRD" hname).2.2.1.trans ?_⟩
  · decide
  · decide

end Registry

end FormSchema.Fault
