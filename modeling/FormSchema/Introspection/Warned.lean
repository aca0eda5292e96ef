import FormSchema.Failure

/-!
# Results with warnings

A schema is walked in spite of what a form cannot show. What is lost on the way is said in
warnings. `Warned α` is a result with the warnings that came up, in order. Of two results the
warnings follow each other (`run_bind`).
-/

namespace FormSchema

/-- A result with the warnings that came up on the way to it. -/
structure Warned (α : Type) where
  /-- The value and the warnings, or the failure. -/
  run : Result (α × List String)

namespace Warned

/-- A value without warnings. -/
def done {α : Type} (a : α) : Warned α :=
  ⟨.ok (a, [])⟩

/-- No value but a failure. -/
def fail {α : Type} (e : Failure) : Warned α :=
  ⟨.error e⟩

/-- Some warnings. -/
def warn (warnings : List String) : Warned Unit :=
  ⟨.ok ((), warnings)⟩

/-- A result without warnings. -/
def ofResult {α : Type} (r : Result α) : Warned α :=
  ⟨r.map fun a => (a, [])⟩

/-- Goes on with the value; the warnings of both follow each other. -/
def bind {α β : Type} (w : Warned α) (f : α → Warned β) : Warned β :=
  ⟨match w.run with
  | .error e => .error e
  | .ok (a, warnings) =>
    match (f a).run with
    | .error e => .error e
    | .ok (b, more) => .ok (b, warnings ++ more)⟩

/-- Warnings of later steps stand after those of earlier ones. -/
instance : Monad Warned where
  pure := done
  bind := bind

theorem run_pure {α : Type} (a : α) : (pure a : Warned α).run = .ok (a, []) := rfl

theorem run_ofResult {α : Type} (r : Result α) (a : α) (warnings : List String) :
    (ofResult r).run = .ok (a, warnings) ↔ r = .ok a ∧ warnings = [] := by
  cases r <;> simp [ofResult, Except.map, eq_comm]

/-- Two steps give the value of the second, and the warnings of both in order. -/
theorem run_bind {α β : Type} (w : Warned α) (f : α → Warned β) (b : β) (all : List String) :
    (w >>= f).run = .ok (b, all) ↔
      ∃ a first second, w.run = .ok (a, first) ∧ (f a).run = .ok (b, second) ∧
        first ++ second = all := by
  show (bind w f).run = _ ↔ _
  unfold bind
  rcases hw : w.run with e | ⟨a, first⟩
  · simp
  · constructor
    · intro h
      rcases hf : (f a).run with e | ⟨b', second⟩
      · simp [hf] at h
      · simp only [hf, Except.ok.injEq, Prod.mk.injEq] at h
        exact ⟨a, first, second, rfl, by rw [hf, h.1], h.2⟩
    · rintro ⟨a', first', second, ha, hf, rfl⟩
      simp only [Except.ok.injEq, Prod.mk.injEq] at ha
      obtain ⟨rfl, rfl⟩ := ha
      simp [hf]

/-- Behind a step with a value the warnings of the next are added to its own. -/
theorem run_bind_of_ok {α β : Type} {w : Warned α} {a : α} {warnings : List String}
    (h : w.run = .ok (a, warnings)) (f : α → Warned β) :
    (w >>= f).run = (f a).run.map fun (b, more) => (b, warnings ++ more) := by
  show (bind w f).run = _
  rw [bind, h]
  dsimp only
  cases (f a).run <;> rfl

/-- A step that fails ends the whole. -/
theorem run_bind_of_error {α β : Type} {w : Warned α} {e : Failure} (h : w.run = .error e)
    (f : α → Warned β) : (w >>= f).run = .error e := by
  show (bind w f).run = _
  rw [bind, h]

end Warned

end FormSchema
