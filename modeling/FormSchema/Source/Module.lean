import FormSchema.Source.Expression

/-!
# Reading source texts

A source text is a sequence of statements. A declaration binds a name to the value of an
expression; imports, types and interfaces are skipped. `declarations` reads all of a text, and
`schemas` keeps what is declared as a node, in order. A name that is declared again keeps its
place and has its last value.

Every statement takes at least one token (`statement`), so reading a text ends.
-/

namespace FormSchema.Source

/-- Whether the first token is a word of the list. -/
def startsWithWord (words : List String) : List Placed → Bool
  | ⟨.word name, _⟩ :: _ => words.contains name
  | _ => false

/-- The words that open a statement. -/
def statementWords : List String :=
  ["import", "export", "const", "let", "var", "type", "interface"]

/-! ## What is skipped -/

/-- Skips a type annotation, up to the equals sign that stands in no bracket. Angles count as
brackets, too. -/
def skipTypeOf (depth : Int) : List Placed → List Placed
  | [] => []
  | ⟨.punct c, place⟩ :: rest =>
    if ['(', '[', '\x7b', '<'].contains c then skipTypeOf (depth + 1) rest
    else if [')', ']', '\x7d', '>'].contains c then skipTypeOf (depth - 1) rest
    else if depth == 0 && c == '=' then ⟨.punct c, place⟩ :: rest
    else skipTypeOf depth rest
  | _ :: rest => skipTypeOf depth rest

/-- Skips to the end of a statement: behind a semicolon in no bracket, or in front of a word that
opens a statement on a line of its own. `line` is the line of the token before. -/
def skipStatement (depth line : Nat) : List Placed → List Placed
  | [] => []
  | ⟨token, place⟩ :: rest =>
    if depth == 0 && token == .punct ';' then rest
    else if depth == 0 && startsWithWord statementWords [⟨token, place⟩] && line < place.line then
      ⟨token, place⟩ :: rest
    else
      let inner := match token with
        | .punct c =>
          if ['(', '[', '\x7b'].contains c then depth + 1
          else if [')', ']', '\x7d'].contains c then depth - 1
          else depth
        | _ => depth
      skipStatement inner place.line rest

theorem skipTypeOf_length (depth : Int) (ts : List Placed) :
    (skipTypeOf depth ts).length ≤ ts.length := by
  fun_induction skipTypeOf depth ts <;> simp_all <;> omega

theorem skipStatement_length (depth line : Nat) (ts : List Placed) :
    (skipStatement depth line ts).length ≤ ts.length := by
  fun_induction skipStatement depth line ts <;> simp_all
  omega

/-- The tokens behind a type annotation, if there is one. -/
def pastType : List Placed → List Placed
  | [] => []
  | t :: rest => if t.token == .punct ':' then skipTypeOf 0 rest else t :: rest

theorem pastType_length (ts : List Placed) : (pastType ts).length ≤ ts.length := by
  unfold pastType
  split
  · exact Nat.le_refl _
  · rename_i rest
    split
    · exact Nat.le_succ_of_le (skipTypeOf_length 0 rest)
    · exact Nat.le_refl _

/-- The tokens behind the value of a declaration, without the semicolon or the cast that ends
it. -/
def pastValue : List Placed → List Placed
  | [] => []
  | t :: rest =>
    if t.token == .punct ';' then rest
    else if startsWithWord ["as", "satisfies"] [t] then skipStatement 0 t.place.line rest
    else t :: rest

theorem pastValue_length (ts : List Placed) : (pastValue ts).length ≤ ts.length := by
  unfold pastValue
  split
  · exact Nat.le_refl _
  · rename_i t rest
    split
    · exact Nat.le_succ _
    · split
      · exact Nat.le_succ_of_le (skipStatement_length 0 t.place.line rest)
      · exact Nat.le_refl _

/-! ## Statements -/

/-- Reads the value of a declaration, and skips what a cast adds to it. -/
def initializer (scope : Scope) (ts : List Placed) : Reading (Value × Shorter ts) :=
  match expression scope ts with
  | .error e => .error e
  | .ok (v, ⟨rest, h⟩) =>
    .ok (v, ⟨pastValue rest, Nat.lt_of_le_of_lt (pastValue_length rest) h⟩)

/-- The token in front of which a statement cannot go on. At the end of the text there is
none. -/
def shownKeyword : List Placed → String
  | [] => "None"
  | t :: _ => t.token.shown

/-- Reads a declaration: a keyword, a name, perhaps a type annotation, and a value. -/
def declaration (scope : Scope) (ts : List Placed) : Reading (Scope × Shorter ts) :=
  match ts with
  | keyword :: rest =>
    if startsWithWord ["const", "let", "var"] [keyword] then
      match expectWord scope rest with
      | .error e => .error e
      | .ok (name, ⟨behind, h⟩) =>
        match expectPunct scope '=' (pastType behind) with
        | .error e => .error e
        | .ok ⟨value, h'⟩ =>
          match initializer scope value with
          | .error e => .error e
          | .ok (v, ⟨after, h''⟩) =>
            .ok (scope.declare name v, ⟨after, Nat.lt_succ_of_lt
              (Nat.lt_trans h'' (Nat.lt_trans h'
                (Nat.lt_of_le_of_lt (pastType_length behind) h)))⟩)
    else .error (.fault (.unsupportedStatement keyword.token.shown) keyword.place)
  | [] => .error (.fault (.unsupportedStatement (shownKeyword [])) scope.finish)

/-- Reads what follows the word `export`. -/
def exported (scope : Scope) (ts : List Placed) : Reading (Scope × NotLonger ts) :=
  match ts with
  | ⟨.word "default", _⟩ :: rest =>
    match initializer scope rest with
    | .error e => .error e
    | .ok (v, ⟨after, h⟩) =>
      .ok (scope.declare "default" v, ⟨after, le_cons_of_lt h⟩)
  | ts =>
    match ts with
    | t :: rest =>
      if startsWithWord ["type", "interface"] [t] then
        .ok (scope, ⟨skipStatement 0 t.place.line rest,
          Nat.le_succ_of_le (skipStatement_length 0 t.place.line rest)⟩)
      else
        match declaration scope (t :: rest) with
        | .error e => .error e
        | .ok (scope', ⟨after, h⟩) => .ok (scope', ⟨after, Nat.le_of_lt h⟩)
    | [] =>
      match declaration scope [] with
      | .error e => .error e
      | .ok (scope', ⟨after, h⟩) => .ok (scope', ⟨after, Nat.le_of_lt h⟩)

/-- Reads a statement from a text that is not at its end. -/
def statement (scope : Scope) (t : Placed) (rest : List Placed) :
    Reading (Scope × NotLonger rest) :=
  match t.token with
  | .punct ';' => .ok (scope, .all rest)
  | .word name =>
    if ["import", "type", "interface"].contains name then
      .ok (scope, ⟨skipStatement 0 t.place.line rest, skipStatement_length 0 t.place.line rest⟩)
    else if name == "export" then exported scope rest
    else
      match declaration scope (t :: rest) with
      | .error e => .error e
      | .ok (scope', ⟨after, h⟩) =>
        .ok (scope', ⟨after, Nat.le_of_lt_succ h⟩)
  | token => .error (.fault (.statementStart token.shown) t.place)

/-- Reads statements up to the end of the text. -/
def statements (scope : Scope) (ts : List Placed) : Reading Scope :=
  match ts with
  | [] => .ok scope
  | t :: rest =>
    match statement scope t rest with
    | .error e => .error e
    | .ok (scope', ⟨after, _⟩) => statements scope' after
termination_by ts.length
decreasing_by simp only [List.length_cons]; omega

/-! ## Whole texts -/

/-- What a source text declares, in order. -/
def declarations (code : String) : Reading (List (String × Value)) := do
  let ts ← tokenize code
  let scope ← statements ⟨[], ts.finish⟩ ts.items
  return scope.declared

/-- The nodes among declarations. -/
def nodesOf (declared : List (String × Value)) : List (String × Node) :=
  declared.filterMap fun (name, v) => v.node?.map fun n => (name, n)

/-- The schemas that a source text declares, in order. -/
def schemas (code : String) : Reading (List (String × Node)) :=
  (declarations code).map nodesOf

/-- The schema that a source text declares under a name. -/
def schema (code name : String) : Reading Node := do
  let found ← schemas code
  match found.lookup name with
  | some n => return n
  | none => throw (.noExport name (found.map Prod.fst))

end FormSchema.Source
