import Stampline.Proofs.Syntax.Printed
import Stampline.Proofs.Syntax.Places
import Stampline.Proofs.Syntax.Statements
import Stampline.Proofs.Token.Blocks
import Stampline.Pipeline

/-!
# Written programs are read back

A program that is written and read again is the same program, up to where it stands and to how
negative numbers are made.
-/

namespace Stampline

/-- A written program without negative numbers is read as itself, and every node has a place. -/
theorem Program.read_print {p : Program} (h : BlockFormed (fun value => 0 ≤ value.toInt) p)
    (hheight : p.height ≤ maxNesting) (hnesting : p.nesting ≤ maxNesting) :
    ∃ q, Program.parse p.print = .ok q ∧ q.erase = p.erase ∧ q.firstUnlocated? = none := by
  obtain ⟨lexemes, hscan, htokens⟩ := p.scan_print h
  obtain ⟨q, hderives, hqe⟩ := Program.derivable h hnesting htokens
  have hlow : heightIn q ≤ maxNesting := by
    rw [← heightIn_erase, show eraseBlock q = eraseBlock p from hqe, heightIn_erase]
    exact hheight
  obtain ⟨r, hparse, hre, hlocated⟩ := hderives.parseLexemes hlow
  exact ⟨r, by simp only [Program.parse, hscan, hparse], hre.trans hqe, hlocated⟩

/-- A written program is read as its normal form, up to where it stands, and is written again in
the same way. -/
theorem Program.parse_print {p : Program} (h : p.Formed) (hheight : p.norm.height ≤ maxNesting)
    (hnesting : p.norm.nesting ≤ maxNesting) :
    ∃ q, Program.parse p.print = .ok q ∧ q.erase = p.norm.erase ∧ q.print = p.print := by
  obtain ⟨q, hq, herase, -⟩ := p.norm.read_print (blockFormed_norm h) hheight hnesting
  rw [Program.print_norm h] at hq
  refine ⟨q, hq, herase, ?_⟩
  rw [← q.print_erase, herase, Program.print_erase, Program.print_norm h]

/-- A program with a link, a negative number where a name is called, and quotes in a text. -/
def greeting : Program :=
  [.define none "greet" [⟨"times", none⟩]
    [.branch none (.compare none .less (.name none "times") (.number none (-3)))
      [.give none (some (.negate none (.member none (.number none (-1)) "real")))]
      [.branch none (.name none "times") [.pass none] [.give none none]]],
    .eval none (.call none (.name none "print") [.text none "say \"hello\"\n"]
      [.mk none "times" (.number none (-1))])]

theorem parse_print_greeting : ∃ q, Program.parse greeting.print = .ok q ∧
    q.erase = greeting.norm.erase ∧ q.print = greeting.print :=
  Program.parse_print (by simp [greeting, Program.Formed, BlockFormed, Stmt.Formed, Expr.Formed,
    ExprsFormed, KeywordsFormed]; decide +kernel) (by decide +kernel) (by decide +kernel)

end Stampline
