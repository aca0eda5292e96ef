import FormSchema.Proofs.Building
import FormSchema.Proofs.Remainders
import FormSchema.Proofs.Literals

/-!
# Values that are read

Whatever a source text is, the values it declares are built with the constructors and the methods,
and the names it declares them under are words. The first holds of every expression
(`expression_isBuilt`), by induction on the readers: each takes regular tokens from the front of
regular tokens and builds its value from those of the readers it calls. A text is a sequence of
such statements, so a schema that is read is built, with bounded numbers (`schema_builtFrom`).
-/

namespace FormSchema

/-- A method that is built is one of a node that is built. -/
theorem BuiltFrom.of_method {P : Number → Prop} {n : Node} {m : Method}
    (h : BuiltFrom P (.method n m)) : BuiltFrom P (.node n) ∧ m.isOf n.kind = true := by
  cases h with
  | method hn hof => exact ⟨hn, hof⟩
  | construct _ hcall =>
    obtain ⟨_, h⟩ := builder_call_plain hcall
    cases h
  | call _ hof _ hcall =>
    obtain ⟨_, h⟩ := (gives_of_call hof hcall).isNode
    cases h

namespace Source

variable {scope : Scope}

/-- A value that is built with bounded numbers. -/
abbrev IsBuilt : Value → Prop := BuiltFrom Number.IsBounded

/-- All tokens are regular. -/
def AreRegular (ts : List Placed) : Prop :=
  ∀ t ∈ ts, t.token.IsRegular

/-- What is declared is built, under names that are words. -/
def Scope.IsBuilt (scope : Scope) : Prop :=
  ∀ d ∈ scope.declared, isWord d.1.toList = true ∧ Source.IsBuilt d.2

/-! ## Single tokens -/

theorem AreRegular.tail {t : Placed} {rest : List Placed} (h : AreRegular (t :: rest)) :
    AreRegular rest :=
  fun u hu => h u (List.mem_cons_of_mem t hu)

/-- The tokens behind regular ones are regular. -/
theorem AreRegular.of_suffix {ts rest : List Placed} (h : AreRegular ts) (hrest : rest <:+ ts) :
    AreRegular rest :=
  fun u hu => h u (hrest.subset hu)

theorem AreRegular.of_expectPunct {c : Char} {ts : List Placed} {rest : Shorter ts}
    (h : AreRegular ts) (hrest : expectPunct scope c ts = .ok rest) : AreRegular rest.val :=
  h.of_suffix (expectPunct_suffix hrest)

/-- A word that is expected among regular tokens is a word. -/
theorem AreRegular.of_expectWord {ts : List Placed} {name : String} {rest : Shorter ts}
    (h : AreRegular ts) (hrest : expectWord scope ts = .ok (name, rest)) :
    isWord name.toList = true ∧ AreRegular rest.val := by
  unfold expectWord at hrest
  split at hrest
  · cases hrest
    exact ⟨h _ List.mem_cons_self, h.tail⟩
  · cases hrest

/-- A number that is expected among regular tokens is bounded. -/
theorem AreRegular.of_expectNumber {ts : List Placed} {n : Number} {rest : Shorter ts}
    (h : AreRegular ts) (hrest : expectNumber scope ts = .ok (n, rest)) :
    n.IsBounded ∧ AreRegular rest.val := by
  unfold expectNumber at hrest
  split at hrest
  · cases hrest
    exact ⟨h _ List.mem_cons_self, h.tail⟩
  · cases hrest

theorem AreRegular.of_pastComma {ts : List Placed} {rest : Shorter ts} (h : AreRegular ts)
    (hrest : pastComma? ts = some rest) : AreRegular rest.val :=
  h.of_suffix (pastComma?_suffix hrest)

/-! ## Names and calls -/

/-- What a scope declares is built. -/
theorem Scope.IsBuilt.of_lookup {name : String} {v : Value} (h : scope.IsBuilt)
    (hv : scope.lookup name = some v) : Source.IsBuilt v := by
  unfold Scope.lookup at hv
  split at hv
  · rename_i w hw
    cases hv
    exact (h _ (mem_of_lookup hw)).2
  · split at hv
    · cases hv
      exact .constructors
    · cases hv

/-- What a word means in a scope is built. -/
theorem Scope.IsBuilt.of_wordValue {name : String} {v : Value} (h : scope.IsBuilt)
    (hv : wordValue? scope name = some v) : Source.IsBuilt v := by
  unfold wordValue? at hv
  split at hv
  · cases hv
    exact .bool true
  · cases hv
    exact .bool false
  · cases hv
    exact .null
  · cases hv
    exact .null
  · exact h.of_lookup hv

/-- A member of what is built is built. -/
theorem reach_isBuilt {v w : Value} {name : String} {p : Position} (hv : IsBuilt v)
    (h : reach v name p = .ok w) : IsBuilt w := by
  unfold reach at h
  split at h
  · rename_i found hfound
    cases h
    unfold member? at hfound
    dsimp only at hfound
    split at hfound
    · split at hfound
      · cases hfound
        exact .isoConstructors
      · obtain ⟨b, -, rfl⟩ := Option.map_eq_some_iff.1 hfound
        exact .builder b
    · split at hfound
      · cases hfound
        exact .builder .isoDatetime
      · cases hfound
    · split at hfound
      · split at hfound
        · rename_i hof
          cases hfound
          exact .method hv hof
        · cases hfound
      · cases hfound
    · cases hfound
  · cases h

/-- What a call of a built value with built arguments gives is built. -/
theorem invoke_isBuilt {v w : Value} {vs : List Value} {p : Position} (hv : IsBuilt v)
    (hvs : ∀ a ∈ vs, IsBuilt a) (h : invoke v vs p = .ok w) : IsBuilt w := by
  unfold invoke at h
  dsimp only at h
  split at h
  · cases h
  · cases h
  · rename_i hcall
    cases h
    split at hcall
    · exact .construct hvs (Option.some.inj hcall)
    · obtain ⟨hn, hof⟩ := hv.of_method
      exact .call hn hof hvs (Option.some.inj hcall)
    · cases hcall

/-! ## Expressions -/

/-- Entries with distinct keys and values that are built. -/
def AreBuilt (es : List (String × Value)) : Prop :=
  (es.map Prod.fst).Nodup ∧ ∀ e ∈ es, IsBuilt e.2

theorem AreBuilt.put {es : List (String × Value)} {key : String} {v : Value} (h : AreBuilt es)
    (hv : IsBuilt v) : AreBuilt (putEntry es key v) :=
  ⟨nodup_keys_putEntry h.1 key v, putEntry_forall (P := IsBuilt) h.2 hv⟩

mutual

/-- An expression is built, and the tokens behind it are regular. -/
theorem expression_isBuilt (hscope : scope.IsBuilt) {n : Nat} (ts : List Placed)
    (hn : ts.length = n) {v : Value}
    {rest : Shorter ts} (hts : AreRegular ts) (h : expression scope ts = .ok (v, rest)) :
    IsBuilt v ∧ AreRegular rest.val := by
  rw [expression] at h
  split at h
  · cases h
  · rename_i u behind hlt hprimary
    split at h
    · cases h
    · rename_i hchain
      cases h
      obtain ⟨hu, hbehind⟩ := primary_isBuilt hscope ts hn hts hprimary
      exact chain_isBuilt hscope behind rfl hu hbehind hchain
termination_by 4 * n + 2

/-- A chain of calls on a built value gives one. -/
theorem chain_isBuilt (hscope : scope.IsBuilt) {n : Nat} (ts : List Placed)
    (hn : ts.length = n) {v w : Value}
    {rest : NotLonger ts} (hv : IsBuilt v) (hts : AreRegular ts)
    (h : chain scope v ts = .ok (w, rest)) : IsBuilt w ∧ AreRegular rest.val := by
  unfold chain at h
  split at h
  · cases h
    exact ⟨hv, hts⟩
  · split at h
    · cases h
    · rename_i behind _ hword
      obtain ⟨-, hbehind⟩ := hts.tail.of_expectWord hword
      split at h
      · cases h
      · rename_i hreach
        split at h
        · cases h
        · rename_i hchain
          cases h
          exact chain_isBuilt hscope behind rfl (reach_isBuilt hv hreach) hbehind hchain
  · split at h
    · cases h
    · rename_i behind _ hitems
      obtain ⟨hvs, hbehind⟩ := items_isBuilt hscope _ rfl hts.tail hitems
      split at h
      · cases h
      · rename_i hinvoke
        split at h
        · cases h
        · rename_i hchain
          cases h
          exact chain_isBuilt hscope behind rfl (invoke_isBuilt hv hvs hinvoke) hbehind hchain
  · cases h
    exact ⟨hv, hts⟩
termination_by 4 * n
decreasing_by all_goals simp only [List.length_cons] at *; omega

/-- What is read at the start of an expression is built. -/
theorem primary_isBuilt (hscope : scope.IsBuilt) {n : Nat} (ts : List Placed)
    (hn : ts.length = n) {v : Value}
    {rest : Shorter ts} (hts : AreRegular ts) (h : primary scope ts = .ok (v, rest)) :
    IsBuilt v ∧ AreRegular rest.val := by
  unfold primary at h
  split at h
  · cases h
  · cases h
    exact ⟨.text _, hts.tail⟩
  · cases h
    exact ⟨.number (hts _ List.mem_cons_self), hts.tail⟩
  · cases h
    exact ⟨.text _, hts.tail⟩
  · split at h
    · rename_i hword
      cases h
      exact ⟨hscope.of_wordValue hword, hts.tail⟩
    · cases h
  · split at h
    · cases h
    · rename_i hnumber
      cases h
      obtain ⟨hn, hafter⟩ := hts.tail.of_expectNumber hnumber
      exact ⟨.number (neg_isBounded hn), hafter⟩
  · split at h
    · cases h
    · rename_i hitems
      cases h
      obtain ⟨hvs, hafter⟩ := items_isBuilt hscope _ rfl hts.tail hitems
      exact ⟨.list hvs, hafter⟩
  · split at h
    · cases h
    · rename_i hentries
      cases h
      have hnil : AreBuilt [] := ⟨List.nodup_nil, by simp⟩
      obtain ⟨⟨hkeys, hes⟩, hafter⟩ := entries_isBuilt hscope _ rfl hnil hts.tail hentries
      exact ⟨.record hkeys hes, hafter⟩
  · split at h
    · cases h
    · rename_i hexpression
      obtain ⟨hv, hbehind⟩ := expression_isBuilt hscope _ rfl hts.tail hexpression
      split at h
      · cases h
      · rename_i hpunct
        cases h
        exact ⟨hv, hbehind.of_expectPunct hpunct⟩
  · cases h
termination_by 4 * n + 1
decreasing_by all_goals simp only [List.length_cons] at *; omega

/-- The items of a list are built. -/
theorem items_isBuilt (hscope : scope.IsBuilt) {n : Nat} (ts : List Placed)
    (hn : ts.length = n) {close : Char}
    {vs : List Value} {rest : Shorter ts} (hts : AreRegular ts)
    (h : items scope close ts = .ok (vs, rest)) : (∀ v ∈ vs, IsBuilt v) ∧ AreRegular rest.val := by
  unfold items at h
  split at h
  · split at h
    · cases h
      exact ⟨by simp, hts.tail⟩
    · split at h
      · cases h
      · rename_i hexpression
        obtain ⟨hv, hbehind⟩ := expression_isBuilt hscope _ rfl hts hexpression
        split at h
        · rename_i hcomma
          split at h
          · cases h
          · rename_i hitems
            cases h
            obtain ⟨hvs, hafter⟩ := items_isBuilt hscope _ rfl (hbehind.of_pastComma hcomma) hitems
            exact ⟨List.forall_mem_cons.2 ⟨hv, hvs⟩, hafter⟩
        · split at h
          · cases h
          · rename_i hpunct
            cases h
            exact ⟨by simpa using hv, hbehind.of_expectPunct hpunct⟩
  · split at h
    · cases h
    · rename_i hlt _
      exact absurd hlt (Nat.not_lt_zero _)
termination_by 4 * n + 3
decreasing_by all_goals omega

/-- The entries of an object are built, with those that were read before. -/
theorem entries_isBuilt (hscope : scope.IsBuilt) {n : Nat} (ts : List Placed)
    (hn : ts.length = n)
    {done es : List (String × Value)} {rest : Shorter ts} (hdone : AreBuilt done)
    (hts : AreRegular ts) (h : entries scope done ts = .ok (es, rest)) :
    AreBuilt es ∧ AreRegular rest.val := by
  unfold entries at h
  split at h
  · cases h
  · split at h
    · cases h
      exact ⟨hdone, hts.tail⟩
    · split at h
      · cases h
      · split at h
        · cases h
        · rename_i hvalue
          obtain ⟨hv, hbehind⟩ := entryValue_isBuilt hscope _ rfl hts.tail hvalue
          dsimp only at h
          split at h
          · rename_i others _ hcomma
            split at h
            · cases h
            · rename_i hentries
              cases h
              exact entries_isBuilt hscope others rfl (hdone.put hv) (hbehind.of_pastComma hcomma)
                hentries
          · split at h
            · cases h
            · rename_i hpunct
              cases h
              exact ⟨hdone.put hv, hbehind.of_expectPunct hpunct⟩
termination_by 4 * n
decreasing_by all_goals simp only [List.length_cons] at *; omega

/-- The value of an entry is built, also one that its key stands for. -/
theorem entryValue_isBuilt (hscope : scope.IsBuilt) {n : Nat} (ts : List Placed)
    (hn : ts.length = n) {key : Token}
    {name : String} {v : Value} {rest : NotLonger ts} (hts : AreRegular ts)
    (h : entryValue scope key name ts = .ok (v, rest)) : IsBuilt v ∧ AreRegular rest.val := by
  unfold entryValue at h
  split at h
  · split at h
    · cases h
    · rename_i hexpression
      cases h
      exact expression_isBuilt hscope _ rfl hts.tail hexpression
  · split at h
    · rename_i hshort
      cases h
      refine ⟨?_, hts⟩
      unfold shorthand? at hshort
      split at hshort
      · exact hscope.of_lookup hshort
      · cases hshort
    · cases h
termination_by 4 * n
decreasing_by all_goals simp only [List.length_cons] at *; omega

end

/-! ## Statements -/

/-- A scope stays built when a built value is declared. -/
theorem Scope.IsBuilt.declare {name : String} {v : Value} (h : scope.IsBuilt)
    (hname : isWord name.toList = true) (hv : Source.IsBuilt v) :
    (scope.declare name v).IsBuilt := by
  intro d hd
  rcases mem_putEntry hd with hmem | rfl
  · exact h d hmem
  · exact ⟨hname, hv⟩

/-- The value of a declaration is built. -/
theorem initializer_isBuilt (hscope : scope.IsBuilt) {ts : List Placed} {v : Value}
    {rest : Shorter ts} (hts : AreRegular ts) (h : initializer scope ts = .ok (v, rest)) :
    IsBuilt v ∧ AreRegular rest.val := by
  unfold initializer at h
  split at h
  · cases h
  · rename_i hexpression
    cases h
    obtain ⟨hv, hrest⟩ := expression_isBuilt hscope ts rfl hts hexpression
    exact ⟨hv, hrest.of_suffix (pastValue_suffix _)⟩

theorem declaration_isBuilt (hscope : scope.IsBuilt) {ts : List Placed} {scope' : Scope}
    {rest : Shorter ts} (hts : AreRegular ts) (h : declaration scope ts = .ok (scope', rest)) :
    scope'.IsBuilt ∧ AreRegular rest.val := by
  unfold declaration at h
  split at h
  · split at h
    · split at h
      · cases h
      · rename_i hword
        obtain ⟨hname, hbehind⟩ := hts.tail.of_expectWord hword
        split at h
        · cases h
        · rename_i hpunct
          split at h
          · cases h
          · rename_i hinitializer
            cases h
            have hvalue := (hbehind.of_suffix (pastType_suffix _)).of_expectPunct hpunct
            obtain ⟨hv, hafter⟩ := initializer_isBuilt hscope hvalue hinitializer
            exact ⟨hscope.declare hname hv, hafter⟩
    · cases h
  · cases h

theorem exported_isBuilt (hscope : scope.IsBuilt) {ts : List Placed} {scope' : Scope}
    {rest : NotLonger ts} (hts : AreRegular ts) (h : exported scope ts = .ok (scope', rest)) :
    scope'.IsBuilt ∧ AreRegular rest.val := by
  unfold exported at h
  split at h
  · split at h
    · cases h
    · rename_i hinitializer
      cases h
      obtain ⟨hv, hafter⟩ := initializer_isBuilt hscope hts.tail hinitializer
      exact ⟨hscope.declare (by decide) hv, hafter⟩
  · split at h
    · split at h
      · cases h
        exact ⟨hscope, hts.tail.of_suffix (skipStatement_suffix 0 _ _)⟩
      · split at h
        · cases h
        · rename_i hdeclaration
          cases h
          exact declaration_isBuilt hscope hts hdeclaration
    · split at h
      · cases h
      · rename_i hdeclaration
        cases h
        exact declaration_isBuilt hscope hts hdeclaration

/-- A statement leaves a built scope. -/
theorem statement_isBuilt (hscope : scope.IsBuilt) {t : Placed} {ts : List Placed}
    {scope' : Scope} {rest : NotLonger ts} (hts : AreRegular (t :: ts))
    (h : statement scope t ts = .ok (scope', rest)) : scope'.IsBuilt ∧ AreRegular rest.val := by
  unfold statement at h
  split at h
  · cases h
    exact ⟨hscope, hts.tail⟩
  · split at h
    · cases h
      exact ⟨hscope, hts.tail.of_suffix (skipStatement_suffix 0 _ _)⟩
    · split at h
      · exact exported_isBuilt hscope hts.tail h
      · split at h
        · cases h
        · rename_i hdeclaration
          cases h
          exact declaration_isBuilt hscope hts hdeclaration
  · cases h

/-- Statements leave a built scope. -/
theorem statements_isBuilt (hscope : scope.IsBuilt) {ts : List Placed} {scope' : Scope}
    (hts : AreRegular ts) (h : statements scope ts = .ok scope') : scope'.IsBuilt := by
  fun_induction statements scope ts with
  | case1 =>
    cases h
    exact hscope
  | case2 => cases h
  | case3 _ _ _ _ _ _ hstatement ih =>
    obtain ⟨hbuilt, hafter⟩ := statement_isBuilt hscope hts hstatement
    exact ih hbuilt hafter h

/-- What a text declares is built, under names that are words. -/
theorem declarations_isBuilt {code : String} {declared : List (String × Value)}
    (h : declarations code = .ok declared) :
    ∀ d ∈ declared, isWord d.1.toList = true ∧ IsBuilt d.2 := by
  obtain ⟨ts, hts, h⟩ := bind_eq_ok.1 h
  obtain ⟨scope, hscope, h⟩ := bind_eq_ok.1 h
  cases h
  have hempty : (⟨[], ts.finish⟩ : Scope).IsBuilt := by simp [Scope.IsBuilt]
  exact statements_isBuilt hempty (tokenize_isRegular hts) hscope

/-- A schema that is read is built with bounded numbers, and its name is a word. -/
theorem schema_builtFrom {code name : String} {n : Node} (h : schema code name = .ok n) :
    isWord name.toList = true ∧ BuiltFrom Number.IsBounded (.node n) := by
  obtain ⟨found, hfound, h⟩ := bind_eq_ok.1 h
  obtain ⟨declared, hdeclared, rfl⟩ := map_eq_ok.1 hfound
  split at h
  · rename_i m hm
    cases h
    obtain ⟨⟨_, v⟩, hmem, hv⟩ := List.mem_filterMap.1 (mem_of_lookup hm)
    obtain ⟨_, hn, heq⟩ := Option.map_eq_some_iff.1 hv
    cases heq
    obtain ⟨hname, hbuilt⟩ := declarations_isBuilt hdeclared _ hmem
    cases v with
    | node n =>
      cases hn
      exact ⟨hname, hbuilt⟩
    | _ => cases hn
  · cases h

end Source

end FormSchema
