import Stampline.Proofs.Syntax.Accepted
import Stampline.Proofs.Syntax.Derived
import Stampline.Proofs.Syntax.Places

/-!
# The programs that are read are those of the grammar

A text whose lexemes derive from the grammar is read as what they derive, if no expression of it is
too high. All other texts are turned down with an error of the reader.
-/

namespace Stampline

/-- A program that is read derives from the lexemes of its text, every node of it where it stands. -/
theorem Program.derives_of_parse {source : String} {p : Program}
    (h : Program.parse source = .ok p) :
    ∃ lexemes, scan source = .ok lexemes ∧ DerivesProgram lexemes p := by
  unfold Program.parse at h
  split at h
  · cases h
  · rename_i lexemes hscan
    split at h
    · cases h
    · rename_i q hparse
      obtain rfl := Except.ok.inj h
      exact ⟨lexemes, hscan, derives_of_parseLexemes ⟨sound_scan hscan, ends_scan hscan⟩ hparse⟩

/-- What a text is read as, up to where it stands, is what its lexemes derive with expressions that
are not too high, and where they derive nothing of the kind the reader fails. -/
theorem Program.parse_iff_derives {source : String} {lexemes : List Lexeme}
    (hscan : scan source = .ok lexemes) :
    (∀ p : Program, (∃ q, Program.parse source = .ok q ∧ q.erase = p.erase) ↔
      ∃ q, DerivesProgram lexemes q ∧ q.height ≤ maxNesting ∧ q.erase = p.erase) ∧
    ((¬∃ q, DerivesProgram lexemes q ∧ Program.height q ≤ maxNesting) →
      ∃ e, Program.parse source = .error (.parse e)) := by
  have hcomplete : ∀ q, DerivesProgram lexemes q → Program.height q ≤ maxNesting →
      ∃ r, Program.parse source = .ok r ∧ Program.erase r = Program.erase q := by
    intro q hq hlow
    obtain ⟨r, hparse, hmatches⟩ := hq.parseLexemes hlow
    exact ⟨r, by simp only [Program.parse, hscan, hparse], hmatches.1⟩
  have hsound : ∀ q, Program.parse source = .ok q →
      DerivesProgram lexemes q ∧ Program.height q ≤ maxNesting := by
    intro q hq
    obtain ⟨lexemes', hscan', hderives⟩ := Program.derives_of_parse hq
    obtain rfl := Except.ok.inj (hscan.symm.trans hscan')
    exact ⟨hderives, (Program.fits_of_parse hq).low⟩
  refine ⟨fun p => ⟨?_, ?_⟩, fun hnone => ?_⟩
  · rintro ⟨q, hq, herase⟩
    exact ⟨q, (hsound q hq).1, (hsound q hq).2, herase⟩
  · rintro ⟨q, hq, hlow, herase⟩
    obtain ⟨r, hparse, hr⟩ := hcomplete q hq hlow
    exact ⟨r, hparse, hr.trans herase⟩
  · cases hparse : parseLexemes lexemes with
    | error e => exact ⟨e, by simp only [Program.parse, hscan, hparse]⟩
    | ok q =>
      have hq : Program.parse source = .ok q := by simp only [Program.parse, hscan, hparse]
      exact absurd ⟨q, hsound q hq⟩ hnone

/-- A source with a link, a block on the line of its colon, a comma behind the last argument, and a
name in parentheses that is assigned to. -/
def linkedSource : String :=
  "def f(a, b,):\n  return -a.b % 2\n((x)) = f(1, b=2,)\nif x < 3: pass\nelif x == 4: x = 1\nelse:\n  x\n"

theorem parse_iff_derives_linkedSource : ∃ lexemes, scan linkedSource = .ok lexemes ∧
    (∀ p : Program, (∃ q, Program.parse linkedSource = .ok q ∧ q.erase = p.erase) ↔
      ∃ q, DerivesProgram lexemes q ∧ q.height ≤ maxNesting ∧ q.erase = p.erase) ∧
    ((¬∃ q, DerivesProgram lexemes q ∧ Program.height q ≤ maxNesting) →
      ∃ e, Program.parse linkedSource = .error (.parse e)) := by
  have hscanned : (scan linkedSource).toOption.isSome = true := by decide +kernel
  cases hscan : scan linkedSource with
  | error e =>
    rw [hscan] at hscanned
    cases hscanned
  | ok lexemes => exact ⟨lexemes, rfl, Program.parse_iff_derives hscan⟩

example : (Program.parse linkedSource).toOption.isSome = true := by decide +kernel

end Stampline
