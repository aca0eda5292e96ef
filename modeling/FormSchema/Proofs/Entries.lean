import FormSchema.Data.Reading

/-!
# Ordered entries

What is put into entries comes behind those that are there, unless its key is there already
(`putEntries_append`). A property of all values survives updates that have it
(`putEntries_forall`). A member of a record is read as what it gives, and as nothing if it is missing
or null (`nullable_of_given`).
-/

namespace FormSchema

variable {α : Type}

theorem mem_of_lookup {entries : List (String × α)} {key : String} {a : α}
    (h : entries.lookup key = some a) : (key, a) ∈ entries := by
  induction entries with
  | nil => cases h
  | cons e rest ih =>
    obtain ⟨k, b⟩ := e
    rw [lookup_entry] at h
    split at h
    · rename_i hkey
      obtain rfl := Option.some.inj h
      rw [hkey]
      exact List.mem_cons_self
    · exact List.mem_cons_of_mem _ (ih h)

/-- An entry with a key of its own is the one that is found. -/
theorem lookup_of_mem {entries : List (String × α)} (h : (entries.map Prod.fst).Nodup)
    {key : String} {a : α} (ha : (key, a) ∈ entries) : entries.lookup key = some a := by
  induction entries with
  | nil => cases ha
  | cons e rest ih =>
    obtain ⟨k, b⟩ := e
    rw [List.map_cons, List.nodup_cons] at h
    rw [lookup_entry]
    rcases List.mem_cons.1 ha with heq | hrest
    · cases heq
      rw [if_pos rfl]
    · have hne : key ≠ k := by
        rintro rfl
        have hkey : key ∈ rest.map Prod.fst := List.mem_map_of_mem hrest
        exact h.1 hkey
      rw [if_neg hne]
      exact ih h.2 hrest

theorem exists_lookup {entries : List (String × α)} {key : String}
    (h : key ∈ entries.map Prod.fst) : ∃ a, entries.lookup key = some a := by
  rw [← Option.isSome_iff_exists, List.lookup_isSome_iff]
  obtain ⟨entry, hentry, rfl⟩ := List.mem_map.1 h
  exact ⟨entry, hentry, by simp⟩

theorem lookup_eq_none {entries : List (String × α)} {key : String}
    (h : key ∉ entries.map Prod.fst) : entries.lookup key = none := by
  rw [List.lookup_eq_none_iff]
  rintro entry hentry
  rw [bne_iff_ne]
  rintro rfl
  exact h (List.mem_map_of_mem hentry)

/-- Entries behind those that are there do not change what is found under a key. -/
theorem lookup_append_of_mem {entries : List (String × α)} {key : String}
    (h : key ∈ entries.map Prod.fst) (more : List (String × α)) :
    (entries ++ more).lookup key = entries.lookup key := by
  obtain ⟨a, ha⟩ := exists_lookup h
  rw [List.lookup_append, ha, Option.some_or]

/-- An entry was there before an update, or is the update itself. -/
theorem mem_putEntry {es : List (String × α)} {key : String} {value : α} {e : String × α}
    (h : e ∈ putEntry es key value) : e ∈ es ∨ e = (key, value) := by
  induction es with
  | nil => exact .inr (List.mem_singleton.1 h)
  | cons first rest ih =>
    obtain ⟨k, v⟩ := first
    rw [putEntry] at h
    split at h
    · rcases List.mem_cons.1 h with heq | hrest
      · exact .inr heq
      · exact .inl (List.mem_cons_of_mem _ hrest)
    · rcases List.mem_cons.1 h with rfl | hrest
      · exact .inl List.mem_cons_self
      · exact (ih hrest).imp (List.mem_cons_of_mem _) id

theorem putEntry_forall {P : α → Prop} {es : List (String × α)} {key : String}
    {value : α} (h : ∀ e ∈ es, P e.2) (hvalue : P value) :
    ∀ e ∈ putEntry es key value, P e.2 := by
  intro e he
  rcases mem_putEntry he with hmem | rfl
  · exact h e hmem
  · exact hvalue

theorem putEntries_forall {P : α → Prop} {es updates : List (String × α)}
    (h : ∀ e ∈ es, P e.2) (hupdates : ∀ e ∈ updates, P e.2) :
    ∀ e ∈ putEntries es updates, P e.2 := by
  induction updates generalizing es with
  | nil => exact h
  | cons u rest ih =>
    rw [List.forall_mem_cons] at hupdates
    exact ih (putEntry_forall h hupdates.1) hupdates.2

/-- An update with a new key comes behind the entries. -/
theorem putEntry_of_not_mem {es : List (String × α)} {key : String} (h : key ∉ es.map Prod.fst)
    (value : α) : putEntry es key value = es ++ [(key, value)] := by
  induction es with
  | nil => rfl
  | cons e rest ih =>
    obtain ⟨k, v⟩ := e
    simp only [List.map_cons, List.mem_cons, not_or] at h
    rw [putEntry, if_neg (by simpa using Ne.symm h.1), ih h.2, List.cons_append]

theorem putEntries_append {es updates : List (String × α)}
    (h : ((es ++ updates).map Prod.fst).Nodup) : putEntries es updates = es ++ updates := by
  induction updates generalizing es with
  | nil => simp [putEntries]
  | cons u rest ih =>
    obtain ⟨key, v⟩ := u
    have hkey : key ∉ es.map Prod.fst := by
      rw [List.map_append, List.nodup_append] at h
      exact fun hmem => h.2.2 key hmem key (by simp) rfl
    show putEntries (putEntry es key v) rest = _
    rw [putEntry_of_not_mem hkey, ih (by simpa using h), List.append_assoc, List.singleton_append]

theorem putEntries_nil {updates : List (String × α)}
    (h : (updates.map Prod.fst).Nodup) : putEntries [] updates = updates :=
  putEntries_append h

/-! ## Members of records -/

theorem nullable_of_ne_null {α : Type} {es : Entries} {name : String} {d : Datum}
    (h : es.lookup name = some d) (hd : d ≠ .null) (read : Datum → Option α) :
    es.nullable name read = (Checked.ofOption name (read d)).map some := by
  rw [Entries.nullable, h]
  cases d with
  | null => exact absurd rfl hd
  | _ => rfl

/-- A member that is missing, null or given is read as what it gives. -/
theorem nullable_of_given {α : Type} {es : Entries} {name : String} {read : Datum → Option α}
    {write : α → Datum} {o : Option α} (h : (es.lookup name).getD .null = .ofOption write o)
    (hwrite : ∀ a, write a ≠ .null) (hread : ∀ a, read (write a) = some a) :
    es.nullable name read = .valid o := by
  cases hlookup : es.lookup name with
  | none =>
    rw [hlookup] at h
    cases o with
    | none => rw [Entries.nullable, hlookup]
    | some a => exact absurd h.symm (hwrite a)
  | some d =>
    rw [hlookup] at h
    obtain rfl : d = _ := h
    cases o with
    | none =>
      rw [Entries.nullable, hlookup]
      rfl
    | some a =>
      have hne : Datum.ofOption write (some a) ≠ .null := hwrite a
      rw [nullable_of_ne_null hlookup hne, Datum.ofOption, hread]
      rfl

theorem nullableNumber_of_given {es : Entries} {name : String} {o : Option Number}
    (h : (es.lookup name).getD .null = .ofOption .number o) :
    es.nullableNumber name = .valid o := by
  rw [Entries.nullableNumber, nullable_of_given h (by simp) fun _ => rfl]

end FormSchema
