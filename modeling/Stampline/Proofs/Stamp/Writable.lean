import Stampline.Proofs.Pipeline
import Stampline.Proofs.Stamp.Rewritten

/-!
# Formats that cannot be written

Every text of which the percent signs begin fields is a format, but one of the fields cannot be
written: the offset in the form that only reading uses. A stamper is made with such a format, and then
fails at every stamp for which it reads the clock. No other format ever fails.
-/

namespace Stampline

/-! ## Fields in a text -/

/-- No spelling of a field begins another. -/
theorem specifiers_prefixFree : ∀ s ∈ specifiers, ∀ t ∈ specifiers,
    s.spelling.isPrefixOf t.spelling = true → s = t := by
  decide +kernel

theorem specifier?_eq_some {cs : List Char} {s : Specifier} (h : specifier? cs = some s) :
    s ∈ specifiers ∧ ∃ rest, cs = s.spelling ++ rest := by
  have hspelling := List.find?_some h
  obtain ⟨rest, hrest⟩ := List.isPrefixOf_iff_prefix.1 hspelling
  exact ⟨List.mem_of_find?_eq_some h, rest, hrest.symm⟩

/-- A field is found behind its percent sign, whatever stands behind it. -/
theorem specifier?_spelling {s : Specifier} (hs : s ∈ specifiers) (rest : List Char) :
    specifier? (s.spelling ++ rest) = some s := by
  have hself : s.spelling <+: s.spelling ++ rest := List.prefix_append _ _
  cases h : specifier? (s.spelling ++ rest) with
  | none =>
    have hnone := List.find?_eq_none.1 h s hs
    exact absurd (List.isPrefixOf_iff_prefix.2 hself) hnone
  | some t =>
    obtain ⟨ht, more, hmore⟩ := specifier?_eq_some h
    have hother : t.spelling <+: s.spelling ++ rest := ⟨more, hmore.symm⟩
    rcases List.prefix_or_prefix_of_prefix hself hother with hle | hle
    · rw [specifiers_prefixFree s hs t ht (List.isPrefixOf_iff_prefix.2 hle)]
    · rw [specifiers_prefixFree t ht s hs (List.isPrefixOf_iff_prefix.2 hle)]

theorem pieces?_spelling {s : Specifier} (hs : s ∈ specifiers) (rest : List Char) :
    pieces? ('%' :: (s.spelling ++ rest)) = (pieces? rest).map (s.pieces ++ ·) := by
  rw [pieces?, if_pos rfl, specifier?_spelling hs]
  dsimp only
  rw [List.drop_left]

theorem pieces?_literal {c : Char} (hc : c ≠ '%') (rest : List Char) :
    pieces? (c :: rest) = (pieces? rest).map (.literal c :: ·) := by
  rw [pieces?, if_neg hc]

/-- The pieces of a text are those of a first part of it, and those of the rest. -/
theorem pieces?_append {before after : List Char} {ps : List Piece} (h : pieces? before = some ps) :
    pieces? (before ++ after) = (pieces? after).map (ps ++ ·) := by
  fun_induction pieces? before generalizing ps with
  | case1 =>
    obtain rfl := Option.some.inj h
    simp
  | case2 => cases h
  | case3 cs s hs ih =>
    obtain ⟨qs, hqs, rfl⟩ := Option.map_eq_some_iff.1 h
    obtain ⟨hmem, rest, rfl⟩ := specifier?_eq_some hs
    rw [List.drop_left] at hqs ih
    rw [List.cons_append, List.append_assoc, pieces?_spelling hmem, ih hqs, Option.map_map]
    congr 1
    funext rs
    exact (List.append_assoc ..).symm
  | case4 c cs hc ih =>
    obtain ⟨qs, hqs, rfl⟩ := Option.map_eq_some_iff.1 h
    rw [List.cons_append, pieces?_literal hc, ih hqs, Option.map_map]
    rfl

/-- The field that cannot be written is spelled in a text, where one of its pieces begins. -/
def HasOnlyRead (cs : List Char) : Prop :=
  ∃ before after, cs = before ++ '%' :: '#' :: 'z' :: after ∧ (pieces? before).isSome = true

theorem spelling_offsetOnlyRead : ∀ s ∈ specifiers, .word .offsetOnlyRead ∈ s.pieces →
    s.spelling = ['#', 'z'] := by
  decide +kernel

theorem HasOnlyRead.pieces {cs : List Char} {ps : List Piece} (h : HasOnlyRead cs)
    (hps : pieces? cs = some ps) : .word .offsetOnlyRead ∈ ps := by
  obtain ⟨before, after, rfl, hbefore⟩ := h
  obtain ⟨front, hfront⟩ := Option.isSome_iff_exists.1 hbefore
  have hfield : (⟨['#', 'z'], [.word .offsetOnlyRead]⟩ : Specifier) ∈ specifiers := by decide +kernel
  have hbehind := pieces?_spelling hfield after
  rw [pieces?_append hfront, show '%' :: '#' :: 'z' :: after = '%' :: (['#', 'z'] ++ after) from rfl,
    hbehind] at hps
  obtain ⟨all, hall, rfl⟩ := Option.map_eq_some_iff.1 hps
  obtain ⟨back, -, rfl⟩ := Option.map_eq_some_iff.1 hall
  simp

/-- A format has the field among its pieces if it is spelled there. -/
theorem hasOnlyRead_of_mem {cs : List Char} {ps : List Piece} (hps : pieces? cs = some ps)
    (hmem : .word .offsetOnlyRead ∈ ps) : HasOnlyRead cs := by
  fun_induction pieces? cs generalizing ps with
  | case1 =>
    obtain rfl := Option.some.inj hps
    cases hmem
  | case2 => cases hps
  | case3 cs s hs ih =>
    obtain ⟨qs, hqs, rfl⟩ := Option.map_eq_some_iff.1 hps
    obtain ⟨hspecifier, rest, rfl⟩ := specifier?_eq_some hs
    rw [List.drop_left] at hqs ih
    rcases List.mem_append.1 hmem with hhere | hbehind
    · have hspelling := spelling_offsetOnlyRead s hspecifier hhere
      rw [hspelling]
      exact ⟨[], rest, rfl, by simp [pieces?]⟩
    · obtain ⟨before, after, rfl, hbefore⟩ := ih hqs hbehind
      refine ⟨'%' :: (s.spelling ++ before), after, by simp, ?_⟩
      rw [pieces?_spelling hspecifier, Option.isSome_map]
      exact hbefore
  | case4 c cs hc ih =>
    obtain ⟨qs, hqs, rfl⟩ := Option.map_eq_some_iff.1 hps
    rcases List.mem_cons.1 hmem with hliteral | hbehind
    · cases hliteral
    · obtain ⟨before, after, rfl, hbefore⟩ := ih hqs hbehind
      refine ⟨c :: before, after, rfl, ?_⟩
      rw [pieces?_literal hc, Option.isSome_map]
      exact hbefore

/-! ## Writing instants -/

theorem Piece.render?_eq_none_iff {t : Instant} {p : Piece} :
    p.render? t = none ↔ p = .word .offsetOnlyRead := by
  cases p with
  | literal | number => simp [render?]
  | word field => cases field <;> simp [render?, WordField.text?]

/-- Whatever the instant, pieces can be written unless one of them only serves to be read. -/
theorem renderPieces?_eq_none_iff {t : Instant} {ps : List Piece} :
    renderPieces? t ps = none ↔ .word .offsetOnlyRead ∈ ps := by
  induction ps with
  | nil => simp [renderPieces?]
  | cons p ps ih =>
    have hpiece := Piece.render?_eq_none_iff (t := t) (p := p)
    rw [renderPieces?, List.mem_cons, ← ih, eq_comm (b := p), ← hpiece]
    cases p.render? t <;> cases renderPieces? t ps <;> simp

theorem Format.render?_eq_none_iff {f : Format} {t : Instant} :
    f.render? t = none ↔ HasOnlyRead f.pattern.toList := by
  rw [render?, renderPieces?_eq_none_iff]
  exact ⟨hasOnlyRead_of_mem f.pieces?_pattern, fun h => h.pieces f.pieces?_pattern⟩

/-! ## Stampers -/

/-- Stamps by this policy and in this format can always be handed out: the clock is never read, or what
it says can be written. -/
def Unfailing (policy : StampPolicy) (pattern : String) : Prop :=
  (∃ text, policy = .fixed text) ∨ ¬HasOnlyRead pattern.toList

/-- A stamper was made with a policy and a format, and may have handed out stamps since. What it repeats
was written in the format. -/
structure Stamper.Serves (s : Stamper) (policy : StampPolicy) (pattern : String) : Prop where
  hasPolicy : s.policy = policy
  hasFormat : s.format.pattern = pattern
  repeats : s.first? ≠ none → ¬HasOnlyRead pattern.toList

namespace Stamper

variable {s : Stamper} {policy : StampPolicy} {pattern : String} {clock : Clock}

theorem serves_of_new (h : new policy pattern clock = .ok s) : s.Serves policy pattern := by
  unfold new at h
  cases hformat : Format.ofPattern? pattern with
  | none =>
    rw [hformat] at h
    cases h
  | some format =>
    rw [hformat] at h
    obtain rfl := Except.ok.inj h
    exact ⟨rfl, Format.ofPattern?_eq_some_iff.1 hformat, fun hfirst => absurd rfl hfirst⟩

/-- Reading the clock gives an instant, and whether it can be written is up to the format. -/
theorem read_cases (s : Stamper) :
    (HasOnlyRead s.format.pattern.toList ∧
      s.read = (.error ⟨s.format.pattern⟩, { s with readings := s.readings + 1 })) ∨
    (¬HasOnlyRead s.format.pattern.toList ∧
      ∃ text, s.read = (.ok text, { s with readings := s.readings + 1 })) := by
  unfold read
  rw [← Format.render?_eq_none_iff (t := s.clock.reading s.readings)]
  cases s.format.render? (s.clock.reading s.readings) with
  | none => exact .inl ⟨rfl, rfl⟩
  | some text => exact .inr ⟨by simp, text, rfl⟩

/-- A stamper hands out a stamp or fails, as its policy and its format have it, and goes on to serve
them. -/
theorem Serves.stamp_cases (h : s.Serves policy pattern) : ∃ s', s'.Serves policy pattern ∧
    ((Unfailing policy pattern ∧ ∃ text, s.stamp = (.ok text, s')) ∨
      (¬Unfailing policy pattern ∧ s.stamp = (.error ⟨pattern⟩, s'))) := by
  obtain ⟨kind, format, clock, readings, first?⟩ := s
  obtain ⟨rfl, rfl, hrepeats⟩ := h
  have hreading : Serves ⟨kind, format, clock, readings + 1, first?⟩ kind format.pattern :=
    ⟨rfl, rfl, hrepeats⟩
  cases kind with
  | fixed text => exact ⟨_, ⟨rfl, rfl, hrepeats⟩, .inl ⟨.inl ⟨text, rfl⟩, text, rfl⟩⟩
  | perCall =>
    rcases read_cases ⟨.perCall, format, clock, readings, first?⟩ with
      ⟨honly, hread⟩ | ⟨hwritable, text, hread⟩
    · refine ⟨_, hreading, .inr ⟨?_, hread⟩⟩
      rintro (⟨text, htext⟩ | hwritable)
      · cases htext
      · exact hwritable honly
    · exact ⟨_, hreading, .inl ⟨.inr hwritable, text, hread⟩⟩
  | perRun =>
    cases first? with
    | some text =>
      have hwritable := hrepeats (by simp)
      exact ⟨_, ⟨rfl, rfl, hrepeats⟩, .inl ⟨.inr hwritable, text, rfl⟩⟩
    | none =>
      rcases read_cases ⟨.perRun, format, clock, readings, none⟩ with
        ⟨honly, hread⟩ | ⟨hwritable, text, hread⟩
      · refine ⟨_, hreading, .inr ⟨?_, by simp only [stamp, hread]⟩⟩
        rintro (⟨text, htext⟩ | hwritable)
        · cases htext
        · exact hwritable honly
      · refine ⟨⟨.perRun, format, clock, readings + 1, some text⟩, ⟨rfl, rfl, fun _ => hwritable⟩,
          .inl ⟨.inr hwritable, text, by simp only [stamp, hread]⟩⟩

/-- A stamper when it was asked for a number of stamps, whether or not they could be handed out. -/
def after (s : Stamper) : Nat → Stamper
  | 0 => s
  | n + 1 => (s.after n).stamp.2

theorem Serves.after (h : s.Serves policy pattern) (n : Nat) : (s.after n).Serves policy pattern := by
  induction n with
  | zero => exact h
  | succ n ih =>
    obtain ⟨s', hserves, ⟨-, text, hstamp⟩ | ⟨-, hstamp⟩⟩ := ih.stamp_cases
    · show (s.after n).stamp.2.Serves policy pattern
      rwa [hstamp]
    · show (s.after n).stamp.2.Serves policy pattern
      rwa [hstamp]

theorem HandsOut.serves {s' : Stamper} {texts : List String} (h : s.HandsOut texts s')
    (hserves : s.Serves policy pattern) :
    s'.Serves policy pattern ∧ (texts ≠ [] → Unfailing policy pattern) := by
  induction h with
  | nil => exact ⟨hserves, fun h => absurd rfl h⟩
  | cons hstamp _ ih =>
    obtain ⟨next, hnext, ⟨hunfailing, text, hok⟩ | ⟨-, herror⟩⟩ := hserves.stamp_cases
    · obtain ⟨-, rfl⟩ := Prod.mk.inj (hstamp.symm.trans hok)
      exact ⟨(ih hnext).1, fun _ => hunfailing⟩
    · cases (Prod.mk.inj (hstamp.symm.trans herror)).1

end Stamper

/-! ## Programs -/

/-- A program is stamped if stamps can always be handed out or none is asked for. Otherwise stamping
stops at the first call of the target. -/
theorem Program.rewrite_cases (p : Program) (target : String) {stamper : Stamper}
    {policy : StampPolicy} {pattern : String} (hserves : stamper.Serves policy pattern) :
    ((Unfailing policy pattern ∨ callsTo target p.nodes = 0) ∧
      ∃ new progress, p.rewrite (stampRules target) stamper = (.ok new, progress) ∧
        progress.state.Serves policy pattern) ∨
    (¬(Unfailing policy pattern ∨ callsTo target p.nodes = 0) ∧
      ∃ progress, p.rewrite (stampRules target) stamper =
          (.error (.gaveUp (.pattern ⟨pattern⟩)), progress) ∧
        progress.state.Serves policy pattern) := by
  have hrewritten := p.rewrite_stampRules target stamper
  cases hrun : p.rewrite (stampRules target) stamper with
  | mk result progress =>
    rw [hrun] at hrewritten
    cases result with
    | ok new =>
      obtain ⟨texts, hhands, hstamps, -⟩ := hrewritten
      obtain ⟨hstate, hunfailing⟩ := hhands.serves hserves
      have hcalls : texts.length = callsTo target p.nodes := hstamps.length_eq
      refine .inl ⟨?_, new, progress, rfl, hstate⟩
      by_cases htexts : texts = []
      · rw [htexts] at hcalls
        exact .inr hcalls.symm
      · exact .inl (hunfailing htexts)
    | error e =>
      obtain ⟨texts, stamper', bad, hhands, hbad, rfl, hlt⟩ := hrewritten
      have hmiddle := (hhands.serves hserves).1
      obtain ⟨next, hnext, ⟨-, text, hok⟩ | ⟨hfailing, herror⟩⟩ := hmiddle.stamp_cases
      · cases (Prod.mk.inj (hbad.symm.trans hok)).1
      · obtain ⟨he, hstate⟩ := Prod.mk.inj (hbad.symm.trans herror)
        obtain rfl := Except.error.inj he
        refine .inr ⟨?_, progress, rfl, hstate ▸ hnext⟩
        rintro (hunfailing | hnone)
        · exact hfailing hunfailing
        · omega

/-! ## Pipelines -/

namespace Pipeline

variable {options : StampOptions} {clock : Clock}

/-- A pipeline was made with some options, and sources may have gone through some of its stages since,
whether or not they got through them. -/
inductive Reached (options : StampOptions) (clock : Clock) : Pipeline → Prop where
  | new {pl} (h : new options clock = .ok pl) : Reached options clock pl
  | observed {pl} (h : Reached options clock pl) (source : String) :
      Reached options clock ((observe source).run.run pl).2
  | stamped {pl} (h : Reached options clock pl) (observed : Observed) :
      Reached options clock ((stamp observed).run.run pl).2
  | lowered {pl} (h : Reached options clock pl) (stamped : Stamped) (name : String) :
      Reached options clock ((lower stamped name).run.run pl).2

theorem stamper_observe (pl : Pipeline) (source : String) :
    ((observe source).run.run pl).2.target = pl.target ∧
      ((observe source).run.run pl).2.stamper = pl.stamper := by
  rcases observe_cases pl source with ⟨e, -, hrun⟩ | ⟨p, pl', -, hrun, hkept⟩
  · rw [hrun]
    exact ⟨rfl, rfl⟩
  · rw [hrun]
    exact hkept

theorem stamper_stamp (pl : Pipeline) (observed : Observed) :
    ((stamp observed).run.run pl).2.target = pl.target ∧
      ((stamp observed).run.run pl).2.stamper =
        (observed.program.rewrite (stampRules pl.target) pl.stamper).2.state := by
  rcases stamp_cases pl observed with ⟨e, progress, pl', hrewrite, hrun, hkept⟩ |
    ⟨new, progress, pl', hrewrite, hrun, hkept⟩
  · rw [hrun, hrewrite]
    exact hkept
  · rw [hrun, hrewrite]
    exact hkept

theorem stamper_lower (pl : Pipeline) (stamped : Stamped) (name : String) :
    ((lower stamped name).run.run pl).2.target = pl.target ∧
      ((lower stamped name).run.run pl).2.stamper = pl.stamper := by
  rcases lower_cases pl stamped name with ⟨e, pl', -, hrun, hkept⟩ | ⟨x, pl', -, hrun, hkept⟩
  · rw [hrun]
    exact hkept
  · rw [hrun]
    exact hkept

/-- Pipelines keep to the target, the policy and the format that the options ask for. -/
theorem Reached.serves {pl : Pipeline} (h : Reached options clock pl) :
    pl.target = options.target ∧ pl.stamper.Serves options.policy options.pattern := by
  induction h with
  | new h =>
    obtain ⟨format, hformat, rfl⟩ := new_eq_ok h
    exact ⟨rfl, rfl, Format.ofPattern?_eq_some_iff.1 hformat, fun hfirst => absurd rfl hfirst⟩
  | @observed pl _ source ih =>
    obtain ⟨htarget, hstamper⟩ := stamper_observe pl source
    rwa [htarget, hstamper]
  | @stamped pl _ observed ih =>
    obtain ⟨htarget, hstamper⟩ := stamper_stamp pl observed
    rw [htarget, hstamper]
    refine ⟨ih.1, ?_⟩
    rcases observed.program.rewrite_cases pl.target ih.2 with
      ⟨-, new, progress, hrewrite, hserves⟩ | ⟨-, progress, hrewrite, hserves⟩
    · rwa [hrewrite]
    · rwa [hrewrite]
  | @lowered pl _ stamped name ih =>
    obtain ⟨htarget, hstamper⟩ := stamper_lower pl stamped name
    rwa [htarget, hstamper]

/-- A stamper that was made hands out every stamp it is asked for, at any time, unless it reads the
clock for it and its format has the field that only reading uses; then it fails. So a pipeline stamps
every program but those that call the target while stamps cannot be handed out. -/
theorem stamp_iff_unfailing (options : StampOptions) (clock : Clock) :
    (∀ stamper, Stamper.new options.policy options.pattern clock = .ok stamper → ∀ n,
      (Unfailing options.policy options.pattern → ∃ text, (stamper.after n).stamp.1 = .ok text) ∧
      (¬Unfailing options.policy options.pattern →
        (stamper.after n).stamp.1 = .error ⟨options.pattern⟩)) ∧
    ∀ pl, Reached options clock pl → ∀ observed : Observed,
      (Unfailing options.policy options.pattern ∨ callsTo options.target observed.program.nodes = 0 →
        ∃ stamped, ((stamp observed).run.run pl).1 = .ok stamped) ∧
      (¬(Unfailing options.policy options.pattern ∨
          callsTo options.target observed.program.nodes = 0) →
        ((stamp observed).run.run pl).1 = .error (.pattern ⟨options.pattern⟩)) := by
  refine ⟨fun stamper hnew n => ?_, fun pl hreached observed => ?_⟩
  · have hserves := (Stamper.serves_of_new hnew).after n
    obtain ⟨next, -, ⟨hunfailing, text, hstamp⟩ | ⟨hfailing, hstamp⟩⟩ := hserves.stamp_cases
    · exact ⟨fun _ => ⟨text, by rw [hstamp]⟩, fun hfailing => absurd hunfailing hfailing⟩
    · exact ⟨fun hunfailing => absurd hunfailing hfailing, fun _ => by rw [hstamp]⟩
  · obtain ⟨htarget, hserves⟩ := hreached.serves
    have hcases := observed.program.rewrite_cases pl.target hserves
    rw [← htarget]
    rcases stamp_cases pl observed with ⟨e, progress, pl', hrewrite, hrun, -⟩ |
      ⟨new, progress, pl', hrewrite, hrun, -⟩
    · rcases hcases with ⟨-, new, progress', hok, -⟩ | ⟨hfailing, progress', herror, -⟩
      · cases (Prod.mk.inj (hrewrite.symm.trans hok)).1
      · obtain rfl := Except.error.inj (Prod.mk.inj (hrewrite.symm.trans herror)).1
        exact ⟨fun h => absurd h hfailing, fun _ => by rw [hrun]; rfl⟩
    · rcases hcases with ⟨hunfailing, -⟩ | ⟨-, progress', herror, -⟩
      · exact ⟨fun _ => ⟨_, by rw [hrun]⟩, fun h => absurd hunfailing h⟩
      · cases (Prod.mk.inj (hrewrite.symm.trans herror)).1

/-- The format that consists of the field that only reading uses is accepted, and fails at the first
stamp. -/
theorem stamp_iff_unfailing_onlyRead : ∃ stamper pl p,
    Stamper.new .perCall "%#z" (.still default) = .ok stamper ∧
    Pipeline.new { pattern := "%#z" } (.still default) = .ok pl ∧
    Program.parse "print(1)\n" = .ok p ∧ ¬Unfailing .perCall "%#z" ∧
    callsTo printName p.nodes = 1 ∧ (stamper.after 0).stamp.1 = .error ⟨"%#z"⟩ ∧
    ((stamp ⟨p, p.literals⟩).run.run pl).1 = .error (.pattern ⟨"%#z"⟩) := by
  have hmade : (Stamper.new .perCall "%#z" (.still default)).toOption.isSome = true := by
    decide +kernel
  have haccepted : (Pipeline.new { pattern := "%#z" } (.still default)).toOption.isSome = true := by
    decide +kernel
  have hcalls : (Program.parse "print(1)\n").toOption.map (callsTo printName ·.nodes) = some 1 := by
    decide +kernel
  have hfailing : ¬Unfailing .perCall "%#z" := by
    rintro (⟨text, htext⟩ | hwritable)
    · cases htext
    · exact hwritable ⟨[], [], rfl, by simp [pieces?]⟩
  cases hstamper : Stamper.new .perCall "%#z" (.still default) with
  | error e =>
    rw [hstamper] at hmade
    cases hmade
  | ok stamper =>
    cases hnew : Pipeline.new { pattern := "%#z" } (.still default) with
    | error e =>
      rw [hnew] at haccepted
      cases haccepted
    | ok pl =>
      cases hparse : Program.parse "print(1)\n" with
      | error e =>
        rw [hparse] at hcalls
        cases hcalls
      | ok p =>
        rw [hparse] at hcalls
        have hone : callsTo printName p.nodes = 1 := Option.some.inj hcalls
        have hunfailing := stamp_iff_unfailing { pattern := "%#z", policy := .perCall } (.still default)
        have hstamps := (hunfailing.1 stamper hstamper 0).2 hfailing
        have hstage := (hunfailing.2 pl (.new hnew) ⟨p, p.literals⟩).2 (by
          rintro (hunfailing | hnone)
          · exact hfailing hunfailing
          · exact absurd (hone.symm.trans hnone) (by decide))
        exact ⟨stamper, pl, p, rfl, rfl, rfl, hfailing, hone, hstamps, hstage⟩

end Pipeline

end Stampline
