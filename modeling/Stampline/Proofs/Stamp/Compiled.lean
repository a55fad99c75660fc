import Stampline.Proofs.Lowering.Unplaced
import Stampline.Proofs.Lowering.Valid
import Stampline.Proofs.Pipeline
import Stampline.Proofs.Stamp.Kept
import Stampline.Proofs.Syntax.Accepted
import Stampline.Proofs.Syntax.RoundTrip

/-!
# The written form of a compiled program

What a source is compiled to can be had from the written form of the stamped program as well: it is
read back, and is lowered to the same bytes.
-/

namespace Stampline

variable {pl pl' : Pipeline} {source name : String}

/-- A program that was read, stamped and located can be written. -/
theorem blockFits_locate {p new : Program} {target : String} {stamper : Stamper}
    {progress : Progress Stamper} (hp : BlockFits maxNesting p)
    (h : p.rewrite (stampRules target) stamper = (.ok new, progress)) :
    BlockFits maxNesting new.locate.1 := by
  have hkeeps := keeps_rewrite h
  have herase : eraseBlock new.locate.1 = eraseBlock new := new.erase_locate
  refine ⟨?_, ?_, ?_⟩
  · rw [← blockFormed_erase, herase, blockFormed_erase]
    exact hkeeps.formed hp.formed
  · rw [← heightIn_erase, herase, heightIn_erase, hkeeps.height]
    exact hp.low
  · rw [← nestingIn_erase, herase, nestingIn_erase, hkeeps.nesting]
    exact hp.nesting

/-- The written form of a compiled program is read, and lowered to the bytes that the program was
compiled to, whatever the source of it is called. -/
theorem Pipeline.executable_of_print {artifact : Artifact}
    (h : (Pipeline.compile source name).run.run pl = (.ok artifact, pl')) :
    ∃ q, Program.parse artifact.stamped.program.print = .ok q ∧
      ∀ source', q.executable source' = .ok ⟨source', artifact.executable.bytes⟩ := by
  obtain ⟨p, new, progress, m, hparse, hrewrite, hlower, hprogram, hexecutable⟩ :=
    Pipeline.compile_eq_ok h
  have hfits := blockFits_locate (Program.fits_of_parse hparse) hrewrite
  obtain ⟨q, hq, herase, hlocated⟩ := new.locate.1.read_print hfits.formed hfits.low hfits.nesting
  have hqlower := Program.lower_eq_of_erase herase hlocated hlower
  refine ⟨q, hprogram ▸ hq, fun source' => ?_⟩
  rw [Program.executable, hqlower, hexecutable]

/-- A pipeline whose stamps have a quote, a line break and a backslash in them. -/
def quotingPipeline : Pipeline where
  target := "print"
  stamper :=
    { policy := .fixed "\"at\"\n\\", format := ⟨"", [], by decide +kernel⟩, clock := .still default }

/-- A source with a stamped call in the last statement of a function, and a call below a sign. -/
def signedSource : String := "def f(a):\n  print(-(a))\nprint(-(1 - f(2)) * 3, sep=\"\")\n"

theorem executable_of_print_signedSource : ∃ artifact pl',
    (Pipeline.compile signedSource "main").run.run quotingPipeline = (.ok artifact, pl') ∧
    ∃ q, Program.parse artifact.stamped.program.print = .ok q ∧
      ∀ source', q.executable source' = .ok ⟨source', artifact.executable.bytes⟩ := by
  have hcompiled : ((Pipeline.compile signedSource "main").run.run quotingPipeline).1.toOption.isSome =
      true := by decide +kernel
  cases h : (Pipeline.compile signedSource "main").run.run quotingPipeline with
  | mk result pl' =>
    rw [h] at hcompiled
    cases result with
    | error e => cases hcompiled
    | ok artifact => exact ⟨artifact, pl', rfl, Pipeline.executable_of_print h⟩

end Stampline
