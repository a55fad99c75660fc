import Stampline.CommandLine.Run
import Stampline.Proofs.Pipeline
import Stampline.Proofs.Stamp.Rewritten
import Stampline.Proofs.Wasm.Output

/-!
# The turns of sources

What a source prints in its turn and what it leaves to the next, said without the pipeline: a source
is read as a program, this is stamped, what it is stamped to is lowered, and the executable is run with
the globals that the sources before it left.
-/

namespace Stampline

/-! ## Clocks -/

section Clocks

variable {stamper stamper' : Stamper}

theorem Stamper.clock_stamp (stamper : Stamper) : stamper.stamp.2.clock = stamper.clock := by
  unfold Stamper.stamp
  split
  · rfl
  · rfl
  split
  · rfl
  split <;> rename_i hread
  all_goals
    have hclock := congrArg (fun r => r.2.clock) hread
    exact hclock.symm

theorem Stamper.HandsOut.clock {texts : List String} (h : stamper.HandsOut texts stamper') :
    stamper'.clock = stamper.clock := by
  induction h with
  | nil => rfl
  | @cons stamper next _ _ _ hstamp _ ih =>
    have hnext := stamper.clock_stamp
    rw [hstamp] at hnext
    exact ih.trans hnext

/-- Stamping does not change the clock that is read. -/
theorem Program.clock_rewrite {p new : Program} {target : String} {progress : Progress Stamper}
    (h : p.rewrite (stampRules target) stamper = (.ok new, progress)) :
    progress.state.clock = stamper.clock := by
  have hrewritten := p.rewrite_stampRules target stamper
  rw [h] at hrewritten
  obtain ⟨texts, hhands, -⟩ := hrewritten
  exact hhands.clock

end Clocks

namespace CommandLine

/-! ## Turns -/

/-- What sources leave to those after them. -/
structure Left where
  /-- The stamper. -/
  stamper : Stamper
  /-- The globals. -/
  globals : Bindings := ∅

/-- The environment in which a source runs that is left globals. Nothing has been printed in it. -/
def Left.env (left : Left) : Environment := { globals := left.globals }

/-- The report of the literals of a program. -/
def Settings.reportOf (settings : Settings) (p : Program) : String :=
  if settings.noReport then "" else literalReport p.literals

/-- The written form of a stamped program. -/
def Settings.dumpOf (settings : Settings) (stamped : Program) : String :=
  if settings.dump then stamped.print else ""

theorem Settings.append_dumpOf (settings : Settings) (report : String) (stamped : Program) :
    report ++ settings.dumpOf stamped = if settings.dump then report ++ stamped.print else report := by
  unfold Settings.dumpOf
  split
  · rfl
  · rw [String.append_empty]

/-- A source is read as a program, and this is stamped and located. -/
structure Stamps (target : String) (stamper : Stamper) (source : SourceFile) (p stamped : Program)
    (after : Stamper) : Prop where
  parsed : Program.parse source.contents = .ok p
  located : ∃ new progress, p.rewrite (stampRules target) stamper = (.ok new, progress) ∧
    new.locate.1 = stamped ∧ progress.state = after

section Turns

variable (settings : Settings) (fuel : Nat) (left : Left) (source : SourceFile)

/-- A source gets through its turn: what is printed, the module it is lowered to, and what it leaves. -/
inductive Succeeds : String → List UInt8 → Left → Prop where
  | compiled {p stamped : Program} {after : Stamper} {x : Executable}
      (hstamps : Stamps settings.stampOptions.target left.stamper source p stamped after)
      (hlower : stamped.executable source.name = .ok x) (hrun : settings.noRun = true) :
      Succeeds (settings.reportOf p ++ settings.dumpOf stamped) x.bytes ⟨after, left.globals⟩
  | ran {p stamped : Program} {after : Stamper} {x : Executable} {globals : Bindings} {output : String}
      (hstamps : Stamps settings.stampOptions.target left.stamper source p stamped after)
      (hlower : stamped.executable source.name = .ok x) (hrun : settings.noRun = false)
      (hends : x.run fuel left.env = some ⟨.ok (), { globals, output }⟩) :
      Succeeds (settings.reportOf p ++ settings.dumpOf stamped ++ output) x.bytes ⟨after, globals⟩

/-- A source fails in its turn: what is printed before it does, and why it fails. -/
inductive Fails : String → Failure → Prop where
  | parse {e : Error} (hparse : Program.parse source.contents = .error e) :
      Fails "" ⟨s!"failed to compile {source.name}", causesOf e⟩
  | stamp {p : Program} {e : RewriteFailure Error} {progress : Progress Stamper}
      (hparse : Program.parse source.contents = .ok p)
      (hstamp : p.rewrite (stampRules settings.stampOptions.target) left.stamper =
        (.error e, progress)) :
      Fails (settings.reportOf p) ⟨s!"failed to compile {source.name}",
        causesOf (.ofRewrite (stampRules settings.stampOptions.target).name e)⟩
  | lower {p stamped : Program} {after : Stamper} {e : Error}
      (hstamps : Stamps settings.stampOptions.target left.stamper source p stamped after)
      (hlower : stamped.executable source.name = .error e) :
      Fails (settings.reportOf p) ⟨s!"failed to compile {source.name}", causesOf e⟩
  | run {p stamped : Program} {after : Stamper} {x : Executable} {globals : Bindings} {output : String}
      {e : Error} (hstamps : Stamps settings.stampOptions.target left.stamper source p stamped after)
      (hlower : stamped.executable source.name = .ok x) (hrun : settings.noRun = false)
      (hends : x.run fuel left.env = some ⟨.error e, { globals, output }⟩) :
      Fails (settings.reportOf p ++ settings.dumpOf stamped ++ output)
        ⟨s!"failed to run {source.name}", causesOf e⟩

/-- A source is run in its turn, and the fuel is not enough to reach the end. -/
inductive Hangs : String → Prop where
  | run {p stamped : Program} {after : Stamper} {x : Executable}
      (hstamps : Stamps settings.stampOptions.target left.stamper source p stamped after)
      (hlower : stamped.executable source.name = .ok x) (hrun : settings.noRun = false)
      (hends : x.run fuel left.env = none) :
      Hangs (settings.reportOf p ++ settings.dumpOf stamped)

end Turns

/-! ## Failures -/

/-- The first line of a failure tells its context. -/
theorem Failure.text_eq (f : Failure) :
    ∃ behind, f.text = "Error: " ++ f.context ++ "\n" ++ behind := by
  unfold Failure.text
  by_cases hcauses : f.causes.isEmpty
  · refine ⟨"", ?_⟩
    rw [if_pos hcauses, String.append_empty]
    rfl
  · refine ⟨"\n".intercalate (["", "Caused by:"] ++ causeLines f.causes) ++ "\n", ?_⟩
    rw [if_neg hcauses]
    simp [String.append_assoc]

/-- A failure names the source in whose turn it comes. -/
theorem Fails.context_eq {settings : Settings} {fuel : Nat} {left : Left} {source : SourceFile}
    {text : String} {f : Failure} (h : Fails settings fuel left source text f) :
    f.context = "failed to compile " ++ source.name ∨ f.context = "failed to run " ++ source.name := by
  cases h with
  | parse => exact .inl rfl
  | stamp => exact .inl rfl
  | lower => exact .inl rfl
  | run => exact .inr rfl

/-! ## One way to go -/

section Unique

variable {settings : Settings} {fuel : Nat} {left next : Left} {source : SourceFile}
  {text text' : String} {bytes : List UInt8} {f : Failure}

theorem Stamps.unique {target : String} {stamper after after' : Stamper} {p p' stamped stamped' : Program}
    (h : Stamps target stamper source p stamped after)
    (h' : Stamps target stamper source p' stamped' after') :
    p = p' ∧ stamped = stamped' ∧ after = after' := by
  obtain ⟨hparse, new, progress, hrewrite, rfl, rfl⟩ := h
  obtain ⟨hparse', new', progress', hrewrite', rfl, rfl⟩ := h'
  obtain rfl := Except.ok.inj (hparse.symm.trans hparse')
  obtain ⟨hnew, rfl⟩ := Prod.mk.inj (hrewrite.symm.trans hrewrite')
  obtain rfl := Except.ok.inj hnew
  exact ⟨rfl, rfl, rfl⟩

/-- A source that gets through is stamped and lowered, and unless nothing is run it runs to its end. -/
theorem Succeeds.runs (h : Succeeds settings fuel left source text bytes next) :
    ∃ p stamped after x,
      Stamps settings.stampOptions.target left.stamper source p stamped after ∧
      stamped.executable source.name = .ok x ∧
      (settings.noRun = false → ∃ env, x.run fuel left.env = some ⟨.ok (), env⟩) := by
  cases h with
  | compiled hstamps hlower hquiet =>
    refine ⟨_, _, _, _, hstamps, hlower, fun hrun => ?_⟩
    rw [hquiet] at hrun
    cases hrun
  | ran hstamps hlower _ hends => exact ⟨_, _, _, _, hstamps, hlower, fun _ => ⟨_, hends⟩⟩

/-- If a source that gets through is run at all, the run of its executable ends well. -/
theorem Succeeds.run_eq {p stamped : Program} {after : Stamper} {x : Executable}
    (h : Succeeds settings fuel left source text bytes next)
    (hstamps : Stamps settings.stampOptions.target left.stamper source p stamped after)
    (hlower : stamped.executable source.name = .ok x) (hrun : settings.noRun = false) :
    ∃ env, x.run fuel left.env = some ⟨.ok (), env⟩ := by
  obtain ⟨p', stamped', after', x', hstamps', hlower', hends⟩ := h.runs
  obtain ⟨-, rfl, -⟩ := hstamps.unique hstamps'
  obtain rfl := Except.ok.inj (hlower.symm.trans hlower')
  exact hends hrun

/-- A source that gets through does not fail. -/
theorem Succeeds.not_fails (h : Succeeds settings fuel left source text bytes next) :
    ¬Fails settings fuel left source text' f := by
  obtain ⟨p, stamped, after, x, hstamps, hlower, -⟩ := h.runs
  intro hfails
  cases hfails with
  | parse hparse => cases hparse.symm.trans hstamps.parsed
  | stamp hparse hstamp =>
    obtain rfl := Except.ok.inj (hparse.symm.trans hstamps.parsed)
    obtain ⟨new, progress, hrewrite, -⟩ := hstamps.located
    cases hstamp.symm.trans hrewrite
  | lower hstamps' hlower' =>
    obtain ⟨-, rfl, -⟩ := hstamps.unique hstamps'
    cases hlower.symm.trans hlower'
  | run hstamps' hlower' hrun hends' =>
    obtain ⟨env, hends⟩ := h.run_eq hstamps' hlower' hrun
    cases hends.symm.trans hends'

/-- A source that gets through does not hang. -/
theorem Succeeds.not_hangs (h : Succeeds settings fuel left source text bytes next) :
    ¬Hangs settings fuel left source text' := by
  rintro ⟨hstamps', hlower', hrun, hends'⟩
  obtain ⟨env, hends⟩ := h.run_eq hstamps' hlower' hrun
  cases hends.symm.trans hends'

end Unique

/-! ## Sessions -/

/-- A session that is what sources left, stamped by a clock. -/
structure Session.Continues (settings : Settings) (clock : Clock) (left : Left) (s : Session) :
    Prop where
  target : s.pipeline.target = settings.stampOptions.target
  stamper : s.pipeline.stamper = left.stamper
  clock : left.stamper.clock = clock
  env : s.env = left.env

variable {settings : Settings} {clock : Clock} {left : Left} {s : Session}

theorem Session.Continues.withClock (h : Session.Continues settings clock left s) :
    s.withClock clock = s := by
  have hclock : s.pipeline.stamper.clock = clock := by rw [h.stamper, h.clock]
  unfold Session.withClock
  rw [← hclock]

/-- The output can be taken out of the environment that a run leaves. -/
theorem takeOutput_of_run {fuel : Nat} {x : Executable} {r : Run}
    (h : x.run fuel left.env = some r) :
    r.env = { globals := r.env.globals, output := r.env.output } ∧
      r.env.takeOutput = (r.env.output, { globals := r.env.globals }) := by
  have hsink : r.env.sink = .captured := (Executable.grows_of_run h).sink
  obtain ⟨outcome, globals, sink, output⟩ := r
  obtain rfl : sink = .captured := hsink
  exact ⟨rfl, rfl⟩

/-- The turn of a source in a session: it gets through, it fails or it hangs. -/
theorem Session.turn_cases (hs : Session.Continues settings clock left s) (fuel : Nat)
    (source : SourceFile) :
    (∃ text bytes next s', s.turn settings fuel source = (text, .done s') ∧
      Succeeds settings fuel left source text bytes next ∧
      Session.Continues settings clock next s' ∧ s'.latest = some bytes) ∨
    (∃ text f, s.turn settings fuel source = (text, .failed f) ∧
      Fails settings fuel left source text f) ∨
    ∃ text, s.turn settings fuel source = (text, .unfinished) ∧
      Hangs settings fuel left source text := by
  unfold Session.turn
  dsimp only
  -- each stage ends the turn or hands its result to the next one
  rcases Pipeline.observe_cases s.pipeline source.contents with
    ⟨e, hparse, hobserve⟩ | ⟨p, pl₁, hparse, hobserve, htarget₁, hstamper₁⟩
  · rw [hobserve]
    exact .inr (.inl ⟨_, _, rfl, .parse hparse⟩)
  rw [hobserve]
  dsimp only
  rcases Pipeline.stamp_cases pl₁ ⟨p, p.literals⟩ with
    ⟨e, progress, pl₂, hrewrite, hstamp, -⟩ | ⟨new, progress, pl₂, hrewrite, hstamp, htarget₂, hstamper₂⟩
  · rw [hstamp, htarget₁, hs.target]
    rw [htarget₁, hs.target, hstamper₁, hs.stamper] at hrewrite
    exact .inr (.inl ⟨_, _, rfl, .stamp hparse hrewrite⟩)
  rw [hstamp]
  dsimp only
  rw [htarget₁, hs.target, hstamper₁, hs.stamper] at hrewrite
  have hstamps : Stamps settings.stampOptions.target left.stamper source p new.locate.1 progress.state :=
    ⟨hparse, new, progress, hrewrite, rfl, rfl⟩
  have hclock : progress.state.clock = clock := by
    rw [Program.clock_rewrite hrewrite, hs.clock]
  rcases Pipeline.lower_cases pl₂ ⟨p.literals, new.locate.1, progress.count, new.locate.2⟩ source.name
    with ⟨e, pl₃, hlower, hrun, -⟩ | ⟨x, pl₃, hlower, hrun, htarget₃, hstamper₃⟩
  · rw [hrun]
    exact .inr (.inl ⟨_, _, rfl, .lower hstamps hlower⟩)
  rw [hrun]
  dsimp only
  have htarget : pl₃.target = settings.stampOptions.target := by
    rw [htarget₃, htarget₂, htarget₁, hs.target]
  have hstamper : pl₃.stamper = progress.state := hstamper₃.trans hstamper₂
  rw [← Settings.append_dumpOf]
  cases hquiet : settings.noRun with
  | true =>
    exact .inl ⟨_, _, _, _, rfl, .compiled hstamps hlower hquiet,
      ⟨htarget, hstamper, hclock, hs.env⟩, rfl⟩
  | false =>
    rw [if_neg (by simp), hs.env]
    unfold Pipeline.execute
    dsimp only
    cases hends : x.run fuel left.env with
    | none => exact .inr (.inr ⟨_, rfl, .run hstamps hlower hquiet hends⟩)
    | some r =>
      obtain ⟨henv, htaken⟩ := takeOutput_of_run hends
      obtain ⟨outcome, env⟩ := r
      dsimp only at henv htaken ⊢
      rw [htaken]
      rw [henv] at hends
      cases outcome with
      | ok =>
        exact .inl ⟨_, _, _, _, rfl, .ran hstamps hlower hquiet hends,
          ⟨htarget, hstamper, hclock, rfl⟩, rfl⟩
      | error e => exact .inr (.inl ⟨_, _, rfl, .run hstamps hlower hquiet hends⟩)

end CommandLine

end Stampline
