import FormSchema.Number.Basic
import FormSchema.Text.Layout
import FormSchema.Text.Quoted

/-!
# Plain data

A `Datum` is a value of the common data formats: nothing, a truth value, a number, a text, a
list, or a record whose entries keep their order. It has two written forms. `Datum.literal` is the
literal of the generated code; `Datum.display` is the form in which a value stands for a text of
its own, where only texts inside other values are quoted. Both are written with `Datum.numbers`.

Ordered entries are lists of keys with values. `putEntry` changes one key: `lookup_putEntry` says
what is found afterwards, and `keys_putEntry` where the keys stand.
-/

namespace FormSchema

/-- A value of plain data. -/
inductive Datum
  | null
  | bool (b : Bool)
  | number (n : Number)
  | text (s : String)
  | list (items : List Datum)
  | record (entries : List (String × Datum))
deriving Inhabited

namespace Datum

/-- An integer as plain data. -/
abbrev int (n : Int) : Datum := number (.int n)

/-- A value that may be missing, as plain data. -/
def ofOption {α : Type} (f : α → Datum) : Option α → Datum
  | some a => f a
  | none => null

/-- A text that may be missing, as plain data. -/
def ofText? (s : Option String) : Datum :=
  ofOption text s

mutual

/-- The literal of a value in the generated code. -/
def literal : Datum → String
  | null => "null"
  | bool b => if b then "true" else "false"
  | number n => n.literal
  | text s => Text.quoted s
  | list items => "[" ++ Text.joined ", " (literals items) ++ "]"
  | record entries => "\x7b" ++ Text.joined ", " (literalEntries entries) ++ "\x7d"

/-- The literals of the items of a list. -/
def literals : List Datum → List String
  | [] => []
  | item :: rest => item.literal :: literals rest

/-- The entries of a record, each a quoted key and a literal. -/
def literalEntries : List (String × Datum) → List String
  | [] => []
  | (key, value) :: rest => (Text.quoted key ++ ": " ++ value.literal) :: literalEntries rest

end

mutual

/-- The form of a value inside another value, where texts are quoted. -/
def nested : Datum → String
  | null => "None"
  | bool b => if b then "True" else "False"
  | number n => n.display
  | text s => Text.shown s
  | list items => "[" ++ Text.joined ", " (nestedItems items) ++ "]"
  | record entries => "\x7b" ++ Text.joined ", " (nestedEntries entries) ++ "\x7d"

/-- The nested forms of the items of a list. -/
def nestedItems : List Datum → List String
  | [] => []
  | item :: rest => item.nested :: nestedItems rest

/-- The entries of a record, each a quoted key and a nested value. -/
def nestedEntries : List (String × Datum) → List String
  | [] => []
  | (key, value) :: rest => (Text.shown key ++ ": " ++ value.nested) :: nestedEntries rest

end

/-- The form in which a value stands for a text. -/
def display : Datum → String
  | text s => s
  | d => d.nested

mutual

/-- The numbers in a value. -/
def numbers : Datum → List Number
  | number n => [n]
  | list items => itemNumbers items
  | record entries => entryNumbers entries
  | _ => []

/-- The numbers in the items of a list. -/
def itemNumbers : List Datum → List Number
  | [] => []
  | item :: rest => item.numbers ++ itemNumbers rest

/-- The numbers in the entries of a record. -/
def entryNumbers : List (String × Datum) → List Number
  | [] => []
  | (_, value) :: rest => value.numbers ++ entryNumbers rest

end

/-- Whether the value counts as present: nothing, false, zero and what is empty do not. -/
def truthy : Datum → Bool
  | null => false
  | bool b => b
  | number (.int n) => n != 0
  | number (.double x) => !x.isZero
  | text s => !s.isEmpty
  | list items => !items.isEmpty
  | record entries => !entries.isEmpty

/-- The value of a key of a record. -/
def get? (d : Datum) (key : String) : Option Datum :=
  match d with
  | record entries => entries.lookup key
  | _ => none

end Datum

/-! ## Ordered entries -/

/-- The entries with the value at `key` replaced, or with a new entry at the end. -/
def putEntry {α : Type} (entries : List (String × α)) (key : String) (value : α) :
    List (String × α) :=
  match entries with
  | [] => [(key, value)]
  | (k, v) :: rest => if k == key then (key, value) :: rest else (k, v) :: putEntry rest key value

/-- The entries after a list of updates; a key keeps the place of its first entry and has the
value of its last. -/
def putEntries {α : Type} (entries updates : List (String × α)) : List (String × α) :=
  updates.foldl (fun es (k, v) => putEntry es k v) entries

theorem lookup_entry {α : Type} (k : String) (v : α) (rest : List (String × α)) (key : String) :
    ((k, v) :: rest).lookup key = if key = k then some v else rest.lookup key := by
  by_cases h : key = k
  · simp [h]
  · have hb : (key == k) = false := beq_eq_false_iff_ne.mpr h
    simp [List.lookup_cons, hb, h]

/-- An entry changes what is found under its own key and nothing else. -/
theorem lookup_putEntry {α : Type} (entries : List (String × α)) (key : String) (value : α)
    (other : String) :
    (putEntry entries key value).lookup other =
      if other = key then some value else entries.lookup other := by
  induction entries with
  | nil => simp [putEntry, lookup_entry]
  | cons e rest ih =>
    obtain ⟨k, v⟩ := e
    unfold putEntry
    by_cases hk : k = key
    · by_cases h : other = key <;> simp [hk, h, lookup_entry]
    · by_cases h : other = k
      · simp [hk, h]
      · simp [hk, h, lookup_entry, ih]

/-- A key that is there keeps its place; one that is not comes last. -/
theorem keys_putEntry {α : Type} (entries : List (String × α)) (key : String) (value : α) :
    (putEntry entries key value).map Prod.fst =
      if key ∈ entries.map Prod.fst then entries.map Prod.fst
      else entries.map Prod.fst ++ [key] := by
  induction entries with
  | nil => simp [putEntry]
  | cons e rest ih =>
    obtain ⟨k, v⟩ := e
    unfold putEntry
    by_cases hk : k = key
    · simp [hk]
    · have hk' : ¬key = k := fun h => hk h.symm
      by_cases hm : key ∈ rest.map Prod.fst
      · simp_all
      · simp_all

/-- Entries with different keys stay so. -/
theorem nodup_keys_putEntry {α : Type} {entries : List (String × α)}
    (h : (entries.map Prod.fst).Nodup) (key : String) (value : α) :
    ((putEntry entries key value).map Prod.fst).Nodup := by
  rw [keys_putEntry]
  split
  · exact h
  · rename_i hn
    refine List.nodup_append.mpr ⟨h, by simp, ?_⟩
    intro a ha b hb
    simp only [List.mem_singleton] at hb
    subst hb
    exact fun he => hn (he ▸ ha)

/-- Updates keep the keys different from each other. -/
theorem nodup_keys_putEntries {α : Type} {entries : List (String × α)}
    (h : (entries.map Prod.fst).Nodup) (updates : List (String × α)) :
    ((putEntries entries updates).map Prod.fst).Nodup := by
  induction updates generalizing entries with
  | nil => exact h
  | cons u rest ih => exact ih (nodup_keys_putEntry h u.1 u.2)

end FormSchema
