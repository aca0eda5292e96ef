import FormSchema.Proofs.Entries
import Mathlib.Data.List.Nodup

/-!
# Merged entries

To merge entries is to put them in one after the other. In the result a key stands where it came
first and has the value that it was given last (`IsMerge`), and only one list of entries is like
that (`IsMerge.unique`). Putting in what is merged already comes to the same as putting in all of it
(`putEntries_merged`). A function at the values does not interfere (`putEntries_mapValues`).
-/

namespace FormSchema

/-! ## Lists without repetitions -/

section

variable {β : Type} [BEq β] [LawfulBEq β]

theorem eraseDups_of_nodup {l : List β} (h : l.Nodup) : l.eraseDups = l := by
  induction l with
  | nil => rfl
  | cons a rest ih =>
    obtain ⟨ha, hrest⟩ := List.nodup_cons.1 h
    have hfilter : rest.filter (fun b => !b == a) = rest :=
      List.filter_eq_self.2 fun b hb => by simpa using ne_of_mem_of_not_mem hb ha
    rw [List.eraseDups_cons, hfilter, ih hrest]

theorem nodup_eraseDups : ∀ l : List β, l.eraseDups.Nodup
  | [] => List.nodup_nil
  | a :: rest => by
    rw [List.eraseDups_cons, List.nodup_cons, List.mem_eraseDups]
    exact ⟨by simp, nodup_eraseDups (rest.filter fun b => !b == a)⟩
termination_by l => l.length
decreasing_by exact Nat.lt_succ_of_le (List.length_filter_le _ _)

theorem eraseDups_filter (p : β → Bool) : ∀ l : List β,
    (l.filter p).eraseDups = l.eraseDups.filter p
  | [] => rfl
  | a :: rest => by
    have hrest := eraseDups_filter p (rest.filter fun b => !b == a)
    rw [List.filter_filter] at hrest
    by_cases ha : p a = true
    · rw [List.filter_cons_of_pos ha, List.eraseDups_cons, List.eraseDups_cons,
        List.filter_cons_of_pos ha, ← hrest, List.filter_filter]
      simp only [Bool.and_comm]
    · -- What is equal to the first one fails the test as well.
      have hsame : rest.filter (fun b => p b && !b == a) = rest.filter p :=
        List.filter_congr fun b _ => by
          by_cases hb : b = a
          · simp [hb, ha]
          · simp [hb]
      rw [List.filter_cons_of_neg ha, List.eraseDups_cons, List.filter_cons_of_neg ha, ← hrest,
        hsame]
termination_by l => l.length
decreasing_by exact Nat.lt_succ_of_le (List.length_filter_le _ _)

/-- It is enough to leave repetitions out once, at the end. -/
theorem eraseDups_append_eraseDups (a b : List β) :
    (a ++ b.eraseDups).eraseDups = (a ++ b).eraseDups := by
  rw [List.eraseDups_append, List.eraseDups_append, List.removeAll, List.removeAll,
    ← eraseDups_filter, eraseDups_of_nodup (nodup_eraseDups _)]

theorem eraseDups_append_eraseDups_left (a b : List β) :
    (a.eraseDups ++ b).eraseDups = (a ++ b).eraseDups := by
  have hsame : b.removeAll a.eraseDups = b.removeAll a :=
    List.filter_congr fun x _ => by simp [List.mem_eraseDups]
  rw [List.eraseDups_append, List.eraseDups_append, eraseDups_of_nodup (nodup_eraseDups a), hsame]

theorem eraseDups_append_of_mem {a : List β} {x : β} (h : x ∈ a) (b : List β) :
    (a ++ x :: b).eraseDups = (a ++ b).eraseDups := by
  have hdrop : (x :: b).removeAll a = b.removeAll a := by simp [List.removeAll, h]
  rw [List.eraseDups_append, List.eraseDups_append, hdrop]

end

/-! ## What is found in updated entries -/

variable {α : Type}

/-- The last update of a key is found, or else what was there before. -/
theorem lookup_putEntries (entries updates : List (String × α)) (key : String) :
    (putEntries entries updates).lookup key =
      (updates.reverse.lookup key).or (entries.lookup key) := by
  induction updates generalizing entries with
  | nil => rfl
  | cons u rest ih =>
    obtain ⟨k, v⟩ := u
    show (putEntries (putEntry entries k v) rest).lookup key = _
    rw [ih, lookup_putEntry, List.reverse_cons, List.lookup_append, lookup_entry, Option.or_assoc]
    split <;> rfl

/-- The keys of updated entries, each where it came first. -/
theorem keys_putEntries {entries : List (String × α)} (h : (entries.map Prod.fst).Nodup)
    (updates : List (String × α)) :
    (putEntries entries updates).map Prod.fst = ((entries ++ updates).map Prod.fst).eraseDups := by
  induction updates generalizing entries with
  | nil => rw [List.append_nil, eraseDups_of_nodup h]; rfl
  | cons u rest ih =>
    obtain ⟨k, v⟩ := u
    show (putEntries (putEntry entries k v) rest).map Prod.fst = _
    rw [ih (nodup_keys_putEntry h k v), List.map_append, keys_putEntry, List.map_append,
      List.map_cons]
    split
    · rename_i hk
      rw [eraseDups_append_of_mem hk]
    · rw [List.append_assoc, List.singleton_append]

/-- Entries with different keys are the same if they have the same keys in the same order and the
same is found under each. -/
theorem entries_ext {a b : List (String × α)} (ha : (a.map Prod.fst).Nodup)
    (hkeys : a.map Prod.fst = b.map Prod.fst) (h : ∀ key, a.lookup key = b.lookup key) : a = b := by
  induction a generalizing b with
  | nil => exact (List.map_eq_nil_iff.1 hkeys.symm).symm
  | cons x rest ih =>
    obtain ⟨k, v⟩ := x
    obtain ⟨y, others, rfl, hy, hothers⟩ := List.map_eq_cons_iff.1 hkeys.symm
    obtain ⟨k', w⟩ := y
    obtain rfl : k' = k := hy
    rw [List.map_cons, List.nodup_cons] at ha
    have hvalue := h k'
    rw [List.lookup_cons_self, List.lookup_cons_self] at hvalue
    obtain rfl := Option.some.inj hvalue
    rw [ih ha.2 hothers.symm fun key => ?_]
    by_cases hkey : key = k'
    · have hnone : k' ∉ others.map Prod.fst := hothers ▸ ha.1
      rw [hkey, lookup_eq_none ha.1, lookup_eq_none hnone]
    · have hrest := h key
      rwa [lookup_entry, lookup_entry, if_neg hkey, if_neg hkey] at hrest

/-- From which end entries with different keys are searched does not matter. -/
theorem lookup_reverse {entries : List (String × α)} (h : (entries.map Prod.fst).Nodup)
    (key : String) : entries.reverse.lookup key = entries.lookup key := by
  by_cases hkey : key ∈ entries.map Prod.fst
  · obtain ⟨a, ha⟩ := exists_lookup hkey
    rw [ha]
    refine lookup_of_mem ?_ (List.mem_reverse.2 (mem_of_lookup ha))
    rw [List.map_reverse]
    exact List.nodup_reverse.2 h
  · rw [lookup_eq_none hkey, lookup_eq_none]
    rwa [List.map_reverse, List.mem_reverse]

/-! ## Merges -/

/-- The first entries are the others in order, each key where it came first with the value that
came last. -/
structure IsMerge (merged entries : List (String × α)) : Prop where
  keys : merged.map Prod.fst = (entries.map Prod.fst).eraseDups
  values : ∀ key, merged.lookup key = entries.reverse.lookup key

/-- A merge has distinct keys. -/
theorem IsMerge.nodup {merged entries : List (String × α)} (h : IsMerge merged entries) :
    (merged.map Prod.fst).Nodup :=
  h.keys ▸ nodup_eraseDups _

/-- Entries have one merge only. -/
theorem IsMerge.unique {a b entries : List (String × α)} (ha : IsMerge a entries)
    (hb : IsMerge b entries) : a = b :=
  entries_ext ha.nodup (ha.keys.trans hb.keys.symm) fun key =>
    (ha.values key).trans (hb.values key).symm

/-- Putting entries in one by one merges them. -/
theorem putEntries_isMerge (entries : List (String × α)) :
    IsMerge (putEntries [] entries) entries where
  keys := by
    have hnone : (([] : List (String × α)).map Prod.fst).Nodup := List.nodup_nil
    rw [keys_putEntries hnone, List.nil_append]
  values := fun key => by rw [lookup_putEntries, List.lookup_nil, Option.or_none]

example : putEntries [] [("a", 1), ("b", 2), ("a", 3)] = [("a", 3), ("b", 2)] := by decide

/-- Entries with different keys are merged already. -/
theorem isMerge_self {entries : List (String × α)} (h : (entries.map Prod.fst).Nodup) :
    IsMerge entries entries :=
  ⟨(eraseDups_of_nodup h).symm, fun key => (lookup_reverse h key).symm⟩

/-- To put one merge into another merges all that the two are merged from. -/
theorem IsMerge.put {left right a b : List (String × α)} (hleft : IsMerge left a)
    (hright : IsMerge right b) : IsMerge (putEntries left right) (a ++ b) where
  keys := by
    rw [keys_putEntries hleft.nodup, List.map_append, hleft.keys, hright.keys,
      eraseDups_append_eraseDups, eraseDups_append_eraseDups_left, List.map_append]
  values := fun key => by
    rw [lookup_putEntries, lookup_reverse hright.nodup, hright.values, hleft.values,
      List.reverse_append, List.lookup_append]

/-- What is merged was there before. -/
theorem IsMerge.mem {merged entries : List (String × α)} (h : IsMerge merged entries)
    {e : String × α} (he : e ∈ merged) : e ∈ entries := by
  have hfound := lookup_of_mem h.nodup he
  rw [h.values] at hfound
  exact List.mem_reverse.1 (mem_of_lookup hfound)

/-- Updates are put in one list after the other. -/
theorem putEntries_updates (entries a b : List (String × α)) :
    putEntries entries (a ++ b) = putEntries (putEntries entries a) b :=
  List.foldl_append

/-- Merged updates change as much as the updates that they are merged from. -/
theorem putEntries_merged {entries : List (String × α)} (h : (entries.map Prod.fst).Nodup)
    (updates : List (String × α)) :
    putEntries entries (putEntries [] updates) = putEntries entries updates := by
  have hmerge := putEntries_isMerge updates
  refine entries_ext (nodup_keys_putEntries h _) ?_ fun key => ?_
  · rw [keys_putEntries h, keys_putEntries h, List.map_append, List.map_append, hmerge.keys,
      eraseDups_append_eraseDups]
  · rw [lookup_putEntries, lookup_putEntries, lookup_reverse hmerge.nodup, hmerge.values]

/-! ## Entries with other values -/

variable {β : Type} (f : α → β)

/-- Entries with a function at their values. -/
abbrev mapValues (es : List (String × α)) : List (String × β) :=
  es.map fun e => (e.1, f e.2)

theorem keys_mapValues (es : List (String × α)) :
    (mapValues f es).map Prod.fst = es.map Prod.fst := by
  rw [mapValues, List.map_map]
  rfl

theorem putEntry_mapValues (es : List (String × α)) (key : String) (value : α) :
    putEntry (mapValues f es) key (f value) = mapValues f (putEntry es key value) := by
  induction es with
  | nil => rfl
  | cons e rest ih =>
    obtain ⟨k, v⟩ := e
    rw [putEntry]
    split
    · rename_i hkey
      rw [mapValues, List.map_cons, putEntry, if_pos hkey]
      rfl
    · rename_i hkey
      rw [mapValues, List.map_cons, putEntry, if_neg hkey, ih]
      rfl

/-- Values may be changed before or after they are put in. -/
theorem putEntries_mapValues (es updates : List (String × α)) :
    putEntries (mapValues f es) (mapValues f updates) = mapValues f (putEntries es updates) := by
  induction updates generalizing es with
  | nil => rfl
  | cons u rest ih =>
    show putEntries (putEntry (mapValues f es) u.1 (f u.2)) (mapValues f rest) = _
    rw [putEntry_mapValues, ih]
    rfl

theorem lookup_mapValues (es : List (String × α)) (key : String) :
    (mapValues f es).lookup key = (es.lookup key).map f := by
  induction es with
  | nil => rfl
  | cons e rest ih =>
    rw [mapValues, List.map_cons, lookup_entry, lookup_entry]
    split
    · rfl
    · exact ih

end FormSchema
