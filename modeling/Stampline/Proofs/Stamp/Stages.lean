import Stampline.Proofs.Stamp.Compiled
import Stampline.Proofs.Stamp.Located

/-!
# The stages up to lowering

What holds of a source while it is read, stamped and located: where its nodes stand, and how the counts
of the stages agree.
-/

namespace Stampline

variable {pl pl' : Pipeline} {source : String} {p : Program}

/-- A pipeline hands out stamps by the policy that it was made with. -/
theorem Pipeline.policy_of_new {options : StampOptions} {clock : Clock}
    (h : Pipeline.new options clock = .ok pl) : pl.stamper.policy = options.policy := by
  obtain ⟨format, -, rfl⟩ := Pipeline.new_eq_ok h
  rfl

/-- The nodes of a program that was read nest and follow the source: each stands within the one above
it, and after the sibling to its left. When the program is stamped and located they still nest. -/
theorem Pipeline.nested_of_stamp (h : Program.parse source = .ok p) :
    (∀ n ∈ p.nodes, n.Orderly) ∧ (p.map Node.stmt).Pairwise Node.Before ∧
      ∀ (pl pl' : Pipeline) (stamped : Stamped),
        (Pipeline.stamp ⟨p, p.literals⟩).run.run pl = (.ok stamped, pl') →
          ∀ n ∈ stamped.program.nodes, n.Nested := by
  obtain ⟨hi, hline⟩ := Program.inLine_of_parse h
  obtain ⟨outer, hlies⟩ := Program.lies_of_parse h
  refine ⟨Program.orderly_of_parse h, hline.pairwise, fun pl pl' stamped hstamp => ?_⟩
  obtain ⟨new, progress, hrewrite, rfl⟩ := Pipeline.stamp_eq_ok hstamp
  have hrewritten := p.rewrite_stampRules pl.target pl.stamper
  rw [show p.rewrite _ _ = _ from hrewrite] at hrewritten
  obtain ⟨texts, -, hstamps, -⟩ := hrewritten
  exact (Program.locate_stamped hstamps hlies).2.2

/-- Lowering misses no place in a program of which every node has one. -/
theorem Pipeline.lower_ne_unlocated {stamped : Stamped} {name : String} {kind : NodeKind}
    (h : stamped.program.firstUnlocated? = none) :
    ((Pipeline.lower stamped name).run.run pl).1 ≠ .error (.unlocated kind) := by
  unfold Pipeline.lower
  cases hlower : stamped.program.lower with
  | ok m => exact nofun
  | error e =>
    cases e with
    | complaint c => exact fun hc => nomatch Except.error.inj hc
    | unlocated kind' =>
      unfold Program.lower at hlower
      rw [h] at hlower
      dsimp only at hlower
      split at hlower
      · cases hlower
      · split at hlower <;> cases hlower

/-- Where stamps are a fixed text, a source that is read is stamped. Each call of the target and each
definition that ends in an expression is replaced and nothing is deleted. Two nodes are made for each
call and one for each definition, each of them below a node of the source, and lowering misses the
place of no node. -/
theorem Pipeline.counts_of_stamp {text : String} (hpolicy : pl.stamper.policy = .fixed text)
    (h : Program.parse source = .ok p) :
    ∃ new progress stamped pl',
      p.rewrite (stampRules pl.target) pl.stamper = (.ok new, progress) ∧
      (∀ above, (locateBlock above new).run 0 = new.locate) ∧
      (Pipeline.stamp ⟨p, p.literals⟩).run.run pl = (.ok stamped, pl') ∧
      stamped.program = new.locate.1 ∧
      stamped.count = ⟨callsTo pl.target p.nodes + endings p.nodes, 0⟩ ∧
      stamped.located = 2 * callsTo pl.target p.nodes + endings p.nodes ∧
      ∀ (name : String) (kind : NodeKind) (pl'' : Pipeline),
        ((Pipeline.lower stamped name).run.run pl'').1 ≠ .error (.unlocated kind) := by
  obtain ⟨outer, hlies⟩ := Program.lies_of_parse h
  obtain ⟨new, progress, texts, hrewrite, -, hstamps, hcount⟩ :=
    p.rewrite_fixed pl.target hpolicy
  obtain ⟨-, hlocated, -⟩ := Program.locate_stamped hstamps hlies
  obtain ⟨pl', hstamp⟩ := Pipeline.stamp_of_rewrite
    (show Program.rewrite _ _ (Observed.mk p p.literals).program = _ from hrewrite)
  refine ⟨new, progress, _, pl', hrewrite, fun above => ?_, hstamp, rfl, hcount, hlocated, ?_⟩
  · rw [hstamps.locate_eq hlies above .root]
    rfl
  · intro name kind pl'' hlower
    exact Pipeline.lower_ne_unlocated new.firstUnlocated?_locate hlower

/-- A source with a call of the target inside another one, at the end of a function in a function. -/
def nestedSource : String := "def f(a):\n  def g():\n    print(print(a), a + 1)\n  g()\nf(2)\n"

theorem nested_of_stamp_nestedSource : ∃ p, Program.parse nestedSource = .ok p ∧
    (∀ n ∈ Program.nodes p, n.Orderly) ∧ (p.map Node.stmt).Pairwise Node.Before ∧
      ∀ (pl pl' : Pipeline) (stamped : Stamped),
        (Pipeline.stamp ⟨p, p.literals⟩).run.run pl = (.ok stamped, pl') →
          ∀ n ∈ stamped.program.nodes, n.Nested := by
  have hparsed : (Program.parse nestedSource).toOption.isSome = true := by decide +kernel
  cases h : Program.parse nestedSource with
  | error e =>
    rw [h] at hparsed
    cases hparsed
  | ok p => exact ⟨p, rfl, Pipeline.nested_of_stamp h⟩

theorem counts_of_stamp_nestedSource : ∃ pl p,
    Pipeline.new { policy := .fixed "#" } (.still default) = .ok pl ∧
    pl.stamper.policy = .fixed "#" ∧ Program.parse nestedSource = .ok p ∧
    ∃ new progress stamped pl',
      p.rewrite (stampRules pl.target) pl.stamper = (.ok new, progress) ∧
      (∀ above, (locateBlock above new).run 0 = new.locate) ∧
      (Pipeline.stamp ⟨p, p.literals⟩).run.run pl = (.ok stamped, pl') ∧
      stamped.program = new.locate.1 ∧
      stamped.count = ⟨callsTo pl.target p.nodes + endings p.nodes, 0⟩ ∧
      stamped.located = 2 * callsTo pl.target p.nodes + endings p.nodes ∧
      ∀ (name : String) (kind : NodeKind) (pl'' : Pipeline),
        ((Pipeline.lower stamped name).run.run pl'').1 ≠ .error (.unlocated kind) := by
  have hmade : (Pipeline.new { policy := .fixed "#" } (.still default)).toOption.isSome = true := by
    decide +kernel
  have hparsed : (Program.parse nestedSource).toOption.isSome = true := by decide +kernel
  cases hnew : Pipeline.new { policy := .fixed "#" } (.still default) with
  | error e =>
    rw [hnew] at hmade
    cases hmade
  | ok pl =>
    cases h : Program.parse nestedSource with
    | error e =>
      rw [h] at hparsed
      cases hparsed
    | ok p =>
      have hpolicy := Pipeline.policy_of_new hnew
      exact ⟨pl, p, rfl, hpolicy, rfl, Pipeline.counts_of_stamp hpolicy h⟩

example : (Program.parse nestedSource).toOption.map
    (fun p => (callsTo printName p.nodes, endings p.nodes)) = some (2, 2) := by decide +kernel

end Stampline
