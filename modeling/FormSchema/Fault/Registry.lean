import FormSchema.Fault.Report

/-!
# The registry of fault codes

A category of codes may stand below another one. `Categories` holds them with the newest first, so
that what is above a category is always older: the names on the way up (`Categories.chain`) are
found by recursion on the list.

A `Registry` holds categories, and codes by name. A code is entered under two names, its path
(`Code.path`, the category and the name with a point between) and its plain name. The path
stays with the first code that is entered there by category; the plain name goes to the newest
code of that name.

`Registry.initial` holds the codes of the library.
-/

namespace FormSchema.Fault

/-! ## Categories -/

/-- A category of codes, and the name of the category above it. -/
structure Category where
  name : String
  parent : Option String
deriving DecidableEq, Repr

/-- Categories, the newest first. -/
abbrev Categories := List Category

namespace Categories

/-- The category with a name. -/
def get? (cs : Categories) (name : String) : Option Category :=
  cs.find? fun c => c.name == name

/-- Whether a category has a name. -/
def contains (cs : Categories) (name : String) : Bool :=
  cs.any fun c => c.name == name

/-- Adds a category below another one. A category that is there already keeps its place, and a
parent that is not there counts as none. -/
def insert (cs : Categories) (name : String) (parent : Option String) : Categories :=
  if contains cs name then cs
  else ⟨name, parent.filter (contains cs)⟩ :: cs

/-- The names from a category up to the one that has no category above it. -/
def chain : Categories → String → List String
  | [], _ => []
  | c :: older, name =>
    if c.name == name then
      match c.parent with
      | some parent => name :: chain older parent
      | none => [name]
    else chain older name

/-- Whether a category is another one or stands somewhere below it. -/
def isBelow (cs : Categories) (name above : String) : Bool :=
  (chain cs name).contains above

end Categories

/-! ## The registry -/

/-- The name of a code together with its category. -/
def Code.path (c : Code) : String :=
  c.category ++ "." ++ c.name

/-- The category of codes that belong to no other. -/
def internalCategory : String := "INTERNAL"

/-- Categories and codes. -/
structure Registry where
  categories : Categories
  codes : List (String × Code)
deriving DecidableEq, Repr

namespace Registry

/-- Adds a category, unless it is there. -/
def addCategory (r : Registry) (name : String) (parent : Option String) : Registry :=
  { r with categories := r.categories.insert name parent }

/-- The code with a name and a category, entered if its path is not there. -/
def register (r : Registry) (name category : String) : Code × Registry :=
  let code : Code := ⟨name, category⟩
  match r.codes.lookup code.path with
  | some found => (found, r)
  | none =>
    let named := r.addCategory category none
    (code, { named with codes := putEntries r.codes [(code.path, code), (name, code)] })

/-- The code with a path, or else with a plain name, or else a new one. -/
def codeFor (r : Registry) (name category : String) : Code × Registry :=
  match r.codes.lookup (Code.path ⟨name, category⟩) with
  | some found => (found, r)
  | none =>
    match r.codes.lookup name with
    | some found => (found, r)
    | none => r.register name category

/-- Whether an entry is meant by a name: the name is a last part of its path, or its own. -/
def isMeant (name : String) (entry : String × Code) : Bool :=
  ("." ++ name).toList.isSuffixOf entry.1.toList || entry.2.name == name

/-- The code that is entered under a name, or else the first one that is meant by it. -/
def find? (r : Registry) (name : String) : Option Code :=
  match r.codes.lookup name with
  | some found => some found
  | none => (r.codes.find? (isMeant name)).map (·.2)

/-- The codes, each once, in the order of their entries. -/
def allCodes (r : Registry) : List Code :=
  (r.codes.map (·.2)).eraseDups

/-- The codes by name, and by category where they share one. -/
def sortedCodes (r : Registry) : List Code :=
  r.allCodes.mergeSort fun a b => a.name < b.name || (a.name == b.name && a.category ≤ b.category)

/-- The names of the categories, the oldest first. -/
def categoryNames (r : Registry) : List String :=
  r.categories.reverse.map Category.name

/-- What is said about a code that is not found. -/
def notFoundText (name : String) : String :=
  "Error code '" ++ name ++ "' not found in registry"

/-- The registry of some codes. -/
def ofCodes (codes : List Code) : Registry :=
  codes.foldl (fun r c => (r.register c.name c.category).2) ⟨[], []⟩

/-- The codes of the library. -/
def ownCodes : List Code :=
  [⟨"INTERNAL_ERROR", internalCategory⟩, Family.structural.code, stepCode, Family.unmapped.code,
    Family.emission.code, Family.settings.code, Family.source.code, exportCode,
    Family.circular.code, Family.duplicate.code]

/-- The registry with the codes of the library. -/
def initial : Registry := ofCodes ownCodes

end Registry

end FormSchema.Fault
