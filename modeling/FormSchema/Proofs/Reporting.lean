import FormSchema.Proofs.FaultPlaces

/-!
# What the reader reports

Once a text is cut into tokens, every failure is a fault with a place: reaching a member, calling a
builder or a method, and reading expressions and statements fail in no other way
(`statements_isReported`). So reading a text gives its schemas or reports a fault, unless cutting it
arrives at a piece that spells no token (`schemas_reports_iff`).
-/

namespace FormSchema.Source

/-- Whatever the tokens are, reading statements fails with a fault or not at all. -/
theorem statements_isReported {scope : Scope} {ts : List Placed} {e : ReadError}
    (h : statements scope ts = .error e) : e.IsReported := by
  have hkeeps : Keeps (fun _ => True) (fun _ => True) (statements scope ts) :=
    statements_keeps trivial fun _ _ => trivial
  rw [h] at hkeeps
  obtain ⟨f, place, he, -⟩ := hkeeps
  exact ⟨f, place, he⟩

/-- Reading a text fails without a report exactly if cutting it does. -/
theorem schemas_unreported_iff {code : String} {e : ReadError} :
    (schemas code = .error e ∧ ¬e.IsReported) ↔ Misspells none code.toList Position.start e := by
  rw [← tokensFrom_unreported_iff, ← tokenize, schemas_eq_error_iff]
  refine and_congr_left fun he => or_iff_left ?_
  rintro ⟨ts, _, h⟩
  exact he (statements_isReported h)

/-- Reading a text gives its schemas or reports a fault with its place exactly if cutting it into
tokens never arrives at an escape that stands for no character or at digits that spell no number.
Where it does, reading fails there, with a failure that has no place. -/
theorem schemas_reports_iff (code : String) :
    (((∃ found, schemas code = .ok found) ∨ ∃ f place, schemas code = .error (.fault f place)) ↔
      ¬∃ e, Misspells none code.toList Position.start e) ∧
    ∀ e, Misspells none code.toList Position.start e →
      schemas code = .error e ∧ (e = .badDigits ∨ e = .codeOverflow) := by
  refine ⟨⟨?_, fun h => ?_⟩, fun e he => ⟨(schemas_unreported_iff.2 he).1, he.isMisspelling⟩⟩
  · rintro hread ⟨e, he⟩
    obtain ⟨herror, hunreported⟩ := schemas_unreported_iff.2 he
    rcases hread with ⟨found, hfound⟩ | ⟨f, place, hfault⟩
    · rw [hfound] at herror
      cases herror
    · rw [hfault] at herror
      cases herror
      exact hunreported (ReadError.isReported_fault f place)
  · cases hread : schemas code with
    | ok found => exact .inl ⟨found, rfl⟩
    | error e =>
      by_cases he : e.IsReported
      · obtain ⟨f, place, rfl⟩ := he
        exact .inr ⟨f, place, rfl⟩
      · exact absurd ⟨e, schemas_unreported_iff.1 ⟨hread, he⟩⟩ h

/-- In this text a string has an escape with digits that are not hexadecimal. -/
theorem schemas_badEscape :
    schemas "const s = \"\\xZZ\";" = .error .badDigits := by
  refine ((schemas_reports_iff _).2 .badDigits ?_).1
  have hcode : "const s = \"\\xZZ\";".toList =
      ['c', 'o', 'n', 's', 't', ' ', 's', ' ', '=', ' ', '"', '\\', 'x', 'Z', 'Z', '"', ';'] := rfl
  rw [hcode]
  refine .behindToken rfl (.behindBlank rfl (.behindToken rfl (.behindBlank rfl
    (.behindToken rfl (.behindBlank rfl (.here (.string rfl (.atEscape (.two ?_)))))))))
  exact .noNumber rfl

end FormSchema.Source
