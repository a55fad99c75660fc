import Stampline.Pipeline

/-!
# The stages of the pipeline

What each stage makes of its input, said without the pipeline, and what it leaves of the pipeline. A
pipeline keeps its target, and only stamping changes its stamper.
-/

namespace Stampline

variable {pl pl' : Pipeline} {source name : String}

theorem Stage.bind_eq_ok {α β : Type} {x : Stage α} {f : α → Stage β} {b : β}
    (h : (x >>= f).run.run pl = (.ok b, pl')) :
    ∃ a pl₁, x.run.run pl = (.ok a, pl₁) ∧ (f a).run.run pl₁ = (.ok b, pl') := by
  replace h : (ExceptT.bindCont f (x pl).1 : StateM Pipeline _) (x pl).2 = (.ok b, pl') := h
  cases hx : (x pl).1 with
  | error e =>
    rw [hx] at h
    cases (Prod.mk.inj h).1
  | ok a =>
    rw [hx] at h
    exact ⟨a, (x pl).2, Prod.ext hx rfl, h⟩

namespace Pipeline

/-- A new pipeline has the target, the policy and the format that the options ask for. -/
theorem new_eq_ok {options : StampOptions} {clock : Clock} (h : new options clock = .ok pl) :
    ∃ format, Format.ofPattern? options.pattern = some format ∧
      pl = { target := options.target, stamper := { policy := options.policy, format, clock } } := by
  unfold new Stamper.new at h
  cases hformat : Format.ofPattern? options.pattern with
  | none =>
    rw [hformat] at h
    cases h
  | some format =>
    rw [hformat] at h
    exact ⟨format, rfl, (Except.ok.inj h).symm⟩

/-! ## Each stage -/

theorem observe_cases (pl : Pipeline) (source : String) :
    (∃ e, Program.parse source = .error e ∧ (observe source).run.run pl = (.error e, pl)) ∨
    ∃ p pl', Program.parse source = .ok p ∧
      (observe source).run.run pl = (.ok ⟨p, p.literals⟩, pl') ∧
      pl'.target = pl.target ∧ pl'.stamper = pl.stamper := by
  unfold observe
  cases Program.parse source with
  | error e => exact .inl ⟨e, rfl, rfl⟩
  | ok p => exact .inr ⟨p, _, rfl, rfl, rfl, rfl⟩

theorem stamp_cases (pl : Pipeline) (observed : Observed) :
    (∃ e progress pl',
      observed.program.rewrite (stampRules pl.target) pl.stamper = (.error e, progress) ∧
      (stamp observed).run.run pl = (.error (.ofRewrite (stampRules pl.target).name e), pl') ∧
      pl'.target = pl.target ∧ pl'.stamper = progress.state) ∨
    ∃ new progress pl',
      observed.program.rewrite (stampRules pl.target) pl.stamper = (.ok new, progress) ∧
      (stamp observed).run.run pl =
        (.ok ⟨observed.literals, new.locate.1, progress.count, new.locate.2⟩, pl') ∧
      pl'.target = pl.target ∧ pl'.stamper = progress.state := by
  cases hrewrite : observed.program.rewrite (stampRules pl.target) pl.stamper with
  | mk result progress =>
    cases hrun : (stamp observed).run.run pl with
    | mk out pl' =>
      simp only [stamp, ExceptT.run_bind, StateT.run_bind] at hrun
      obtain ⟨hout, hpl⟩ := Prod.mk.inj hrun
      rw [hrewrite] at hout hpl
      cases result with
      | error e =>
        refine .inl ⟨e, progress, pl', rfl, Prod.ext hout.symm rfl, ?_, ?_⟩ <;> rw [← hpl] <;> rfl
      | ok new =>
        refine .inr ⟨new, progress, pl', rfl, Prod.ext hout.symm rfl, ?_, ?_⟩ <;> rw [← hpl] <;> rfl

theorem lower_cases (pl : Pipeline) (stamped : Stamped) (name : String) :
    (∃ e pl', stamped.program.executable name = .error e ∧
      (lower stamped name).run.run pl = (.error e, pl') ∧
      pl'.target = pl.target ∧ pl'.stamper = pl.stamper) ∨
    ∃ x pl', stamped.program.executable name = .ok x ∧
      (lower stamped name).run.run pl = (.ok ⟨stamped, x⟩, pl') ∧
      pl'.target = pl.target ∧ pl'.stamper = pl.stamper := by
  unfold lower Program.executable
  cases stamped.program.lower with
  | error e => exact .inl ⟨_, pl, rfl, rfl, rfl, rfl⟩
  | ok m => exact .inr ⟨_, _, rfl, rfl, rfl, rfl⟩

/-! ## Stages that succeed -/

theorem observe_eq_ok {observed : Observed}
    (h : (observe source).run.run pl = (.ok observed, pl')) :
    ∃ p, Program.parse source = .ok p ∧ observed = ⟨p, p.literals⟩ ∧ pl'.target = pl.target ∧
      pl'.stamper = pl.stamper := by
  rcases observe_cases pl source with ⟨e, -, hrun⟩ | ⟨p, after, hparse, hrun, htarget, hstamper⟩
  · cases (Prod.mk.inj (hrun.symm.trans h)).1
  · obtain ⟨hobserved, rfl⟩ := Prod.mk.inj (hrun.symm.trans h)
    exact ⟨p, hparse, (Except.ok.inj hobserved).symm, htarget, hstamper⟩

theorem stamp_eq_ok {observed : Observed} {stamped : Stamped}
    (h : (stamp observed).run.run pl = (.ok stamped, pl')) :
    ∃ new progress, observed.program.rewrite (stampRules pl.target) pl.stamper =
      (.ok new, progress) ∧ stamped = ⟨observed.literals, new.locate.1, progress.count, new.locate.2⟩ := by
  rcases stamp_cases pl observed with ⟨e, progress, after, -, hrun, -⟩ |
    ⟨new, progress, after, hrewrite, hrun, -⟩
  · cases (Prod.mk.inj (hrun.symm.trans h)).1
  · have hstamped := (Prod.mk.inj (hrun.symm.trans h)).1
    exact ⟨new, progress, hrewrite, (Except.ok.inj hstamped).symm⟩

/-- A program that can be stamped goes through its stage. -/
theorem stamp_of_rewrite {observed : Observed} {new : Program} {progress : Progress Stamper}
    (h : observed.program.rewrite (stampRules pl.target) pl.stamper = (.ok new, progress)) :
    ∃ pl', (stamp observed).run.run pl =
      (.ok ⟨observed.literals, new.locate.1, progress.count, new.locate.2⟩, pl') := by
  rcases stamp_cases pl observed with ⟨e, progress, after, hrewrite, -⟩ |
    ⟨new, progress, after, hrewrite, hrun, -⟩
  · cases h.symm.trans hrewrite
  · obtain ⟨hnew, rfl⟩ := Prod.mk.inj (h.symm.trans hrewrite)
    obtain rfl := Except.ok.inj hnew
    exact ⟨after, hrun⟩

theorem lower_eq_ok {stamped : Stamped} {artifact : Artifact}
    (h : (lower stamped name).run.run pl = (.ok artifact, pl')) :
    ∃ m, stamped.program.lower = .ok m ∧ artifact = ⟨stamped, ⟨name, m.encode⟩⟩ := by
  unfold lower at h
  cases hlower : stamped.program.lower with
  | error e =>
    rw [hlower] at h
    cases (Prod.mk.inj h).1
  | ok m =>
    rw [hlower] at h
    exact ⟨m, rfl, (Except.ok.inj (Prod.mk.inj h).1).symm⟩

/-- A source that is compiled gets through all stages but the last. -/
theorem compile_eq_ok {artifact : Artifact}
    (h : (compile source name).run.run pl = (.ok artifact, pl')) :
    ∃ p new progress m, Program.parse source = .ok p ∧
      p.rewrite (stampRules pl.target) pl.stamper = (.ok new, progress) ∧
      new.locate.1.lower = .ok m ∧
      artifact.stamped.program = new.locate.1 ∧ artifact.executable = ⟨name, m.encode⟩ := by
  obtain ⟨observed, pl₁, hobserved, h⟩ := Stage.bind_eq_ok h
  obtain ⟨stamped, pl₂, hstamped, hlowered⟩ := Stage.bind_eq_ok h
  obtain ⟨p, hparse, rfl, htarget, hstamper⟩ := observe_eq_ok hobserved
  obtain ⟨new, progress, hrewrite, rfl⟩ := stamp_eq_ok hstamped
  obtain ⟨m, hlower, rfl⟩ := lower_eq_ok hlowered
  rw [htarget, hstamper] at hrewrite
  exact ⟨p, new, progress, m, hparse, hrewrite, hlower, rfl, rfl⟩

end Pipeline

end Stampline
