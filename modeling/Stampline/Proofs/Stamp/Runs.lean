import Stampline.Proofs.Lowering.Correct
import Stampline.Proofs.Stamp.Compiled
import Stampline.Proofs.Stamp.Complaints
import Stampline.Proofs.Stamp.Meaning

/-!
# Runs of stamped programs

Stamping adds the text of stamps to what a program prints and nothing else. A program in which no
function has the name of the printing function and none ends in an expression is lowered if and only if
the stamped program is, and the runs of the two executables end alike: with the same outcome, with the
same globals, and after the same calls of the printing function. As a stamped function takes the slots
of the function, the engine also refuses and stops both alike.
-/

namespace Stampline

/-! ## The size of a stamped program -/

section Size

variable {place : Option Span → Prop} {stamp : String}

/-- The definitions of a stamped block are those of the block, stamped. -/
theorem StampedBlock.forall₂_definedBy : ∀ {block block' : List Stmt} {around around' : List (List Stmt)},
    StampedBlock place stamp block block' → StampedAround place stamp around around' →
      List.Forall₂ (StampedDefinition place stamp) (definedBy around block) (definedBy around' block')
  | [], block', _, _, h, _ => by
    obtain ⟨⟨_, _, hstamps⟩, -, -⟩ := h
    cases hstamps
    exact .nil
  | s :: ss, block', _, _, h, haround => by
    obtain ⟨⟨_, _, hstamps⟩, -, -⟩ := id h
    cases hstamps with
    | cons hs hrest _ =>
      have hrest := h.tail.forall₂_definedBy haround
      cases hs with
      | define =>
        obtain ⟨-, -, -, hbody⟩ := h.body
        have hinner : StampedAround place stamp _ _ := .cons hbody haround
        exact .cons ⟨rfl, hbody, hinner⟩ (List.rel_append (hbody.forall₂_definedBy hinner) hrest)
      | _ => exact hrest
termination_by block => sizeOf block

variable {p p' : Program}

/-- A stamped program is too large exactly if the program is. -/
theorem StampedBlock.tooLarge_iff (h : StampedBlock place stamp p p') : p'.TooLarge ↔ p.TooLarge := by
  have hdefined : List.Forall₂ (StampedDefinition place stamp) p.defined p'.defined :=
    h.forall₂_definedBy (.cons h .nil)
  have hlarge : ∀ {ds ds' : List Definition}, List.Forall₂ (StampedDefinition place stamp) ds ds' →
      ((∃ d ∈ ds', Wasm.maxParams < d.params.length ∨ Wasm.maxLocals < d.slots) ↔
        ∃ d ∈ ds, Wasm.maxParams < d.params.length ∨ Wasm.maxLocals < d.slots) := by
    intro ds ds' hds
    induction hds with
    | nil => exact Iff.rfl
    | cons hd _ ih => simp only [List.exists_mem_cons_iff, ih, hd.params, hd.slots_eq]
  rw [Program.TooLarge, Program.TooLarge, h.slots_eq, hlarge hdefined]

end Size

/-! ## Runs of both executables -/

/-- An evaluation comes to one result. -/
theorem Reaches.unique {α : Type} {run : Nat → Eval α} {σ : Store} {r r' : Result α}
    (h : Reaches run σ r) (h' : Reaches run σ r') : r = r' := by
  obtain ⟨k, hk⟩ := h
  obtain ⟨k', hk'⟩ := h'
  rw [← hk (max k k') (Nat.le_max_left ..), hk' _ (Nat.le_max_right ..)]

section Runs

variable {p p' : Program} {place : Option Span → Prop} {stamp : String} {limits : Limits}
  {env : Environment} {τ τ' : Store}

/-- A program ends in one way. -/
theorem Program.EndsIn.unique {outcome outcome' : Except Error Unit}
    (h : p.EndsIn limits env τ outcome) (h' : p.EndsIn limits env τ' outcome') :
    outcome' = outcome ∧ τ' = τ := by
  rcases Program.endsIn_iff.1 h with ⟨rfl, h⟩ | ⟨f, rfl, h⟩
  · rcases Program.endsIn_iff.1 h' with ⟨rfl, h'⟩ | ⟨f', rfl, h'⟩
    · exact ⟨rfl, (Result.done.inj (Reaches.unique h' h)).2⟩
    · cases Reaches.unique h h'
  · rcases Program.endsIn_iff.1 h' with ⟨rfl, h'⟩ | ⟨f', rfl, h'⟩
    · cases Reaches.unique h h'
    · obtain ⟨rfl, rfl⟩ := Result.fault.inj (Reaches.unique h' h)
      exact ⟨rfl, rfl⟩

theorem StampedBlock.reaches (h : StampedBlock place stamp p p') {σ : Store} {r : Result Unit}
    (hreach : Reaches (p.meaning limits) σ r) :
    Reaches (p'.meaning limits) (σ.stamped stamp) (r.stamped stamp) := by
  obtain ⟨k, hk⟩ := hreach
  refine ⟨k, fun fuel hfuel => ?_⟩
  rw [← hk fuel hfuel]
  exact Program.meaning_stamped h limits fuel σ

/-- A stamped program ends as the program does, with its printouts stamped. -/
theorem Program.EndsIn.stamped (h : StampedBlock place stamp p p') : ∀ {outcome : Except Error Unit},
    p.EndsIn limits env τ outcome → p'.EndsIn limits env (τ.stamped stamp) outcome
  | .ok (), hends => h.reaches hends
  | .error (.execution _), hends => h.reaches hends

end Runs

/-- Whenever a program and the stamped program are run in one environment and both runs end, they end
with the same outcome and the same globals, after the same calls of the printing function. The output
of the second run is that of the first with `text` in front of what each call prints, and behind `text`
the separator of the call if the call has positional arguments.

The calls are those that the meanings of both programs have within the limits of the engine, unless the
engine refuses both executables. They are those within all limits that let in as much, unless the engine
stops both runs. Apart from this the engine may refuse an executable that has more bytes than a module
can have. -/
def Executable.RunsStamped (text : String) (p p' : Program) (x x' : Executable) : Prop :=
  ∀ (env : Environment) (fuel fuel' : Nat) (r r' : Run), x.run fuel env = some r →
    x'.run fuel' env = some r' →
      (x.Oversized ∧ r.Refused p x env ∨ x'.Oversized ∧ r'.Refused p' x' env) ∨
      ∃ τ : Store, r'.outcome = r.outcome ∧ r.env = env.after τ ∧
        r'.env = { r.env with output := env.output ++ String.join (τ.printed.map fun call =>
          (if call.items = [] then text else text ++ call.separator) ++ call.print) } ∧
        (r.Refused p x env ∧ r'.Refused p' x' env ∨
          (p.EndsIn .engine env τ r.outcome ∧ p'.EndsIn .engine env (τ.stamped text) r.outcome) ∧
            (r.Stopped ∨ ∀ limits, Limits.engine.Within limits →
              p.EndsIn limits env τ r.outcome ∧ p'.EndsIn limits env (τ.stamped text) r.outcome))

theorem Environment.after_stamped (env : Environment) (τ : Store) (stamp : String) :
    env.after (τ.stamped stamp) =
      { env.after τ with output := env.output ++ String.join (τ.printed.map fun call =>
        (if call.items = [] then stamp else stamp ++ call.separator) ++ call.print) } := by
  rw [Environment.after, Store.print_stamped]
  rfl

/-- The runs of both executables that end agree with the meanings of both programs, and these are
alike. -/
theorem StampedBlock.runsStamped {p p' : Program} {place : Option Span → Prop} {stamp : String}
    (h : StampedBlock place stamp p p') {source : String} {x x' : Executable}
    (hx : p.executable source = .ok x) (hx' : p'.executable source = .ok x') :
    x.RunsStamped stamp p p' x' := by
  intro env fuel fuel' r r' hr hr'
  have hlarge := h.tooLarge_iff
  by_cases hsize : x.Oversized ∧ r.Refused p x env ∨ x'.Oversized ∧ r'.Refused p' x' env
  · exact .inl hsize
  right
  rcases Executable.run_cases hx hr with hrefused | ⟨hsmall, τ, hends, henv⟩
  · rcases Executable.run_cases hx' hr' with hrefused' | ⟨hsmall', -⟩
    · refine ⟨{ globals := env.globals }, ?_, ?_, ?_, .inl ⟨hrefused, hrefused'⟩⟩
      · rw [hrefused.1, hrefused'.1]
      · simp [hrefused.1, Environment.after, Store.print]
      · simp [hrefused.1, hrefused'.1]
    · rcases hrefused.2 with hbytes | hprogram
      · exact absurd (.inl ⟨hbytes, hrefused⟩) hsize
      · exact absurd (hlarge.2 hprogram) hsmall'
  · rcases Executable.run_cases hx' hr' with hrefused' | ⟨-, τ', hends', henv'⟩
    · rcases hrefused'.2 with hbytes | hprogram
      · exact absurd (.inr ⟨hbytes, hrefused'⟩) hsize
      · exact absurd (hlarge.1 hprogram) hsmall
    · obtain ⟨houtcome, rfl⟩ := (hends.stamped h).unique hends'
      refine ⟨τ, houtcome, henv, by rw [henv', henv, env.after_stamped],
        .inr ⟨⟨hends, hends.stamped h⟩, ?_⟩⟩
      by_cases hstopped : r.Stopped
      · exact .inl hstopped
      · refine .inr fun limits hlimits => ?_
        have hwithin := hends.within hlimits hstopped
        exact ⟨hwithin, hwithin.stamped h⟩

/-! ## Programs that were read -/

/-- Stamping a source in which no function has the name of the printing function and none ends in an
expression, and locating the nodes that are made, only adds the stamps to what is printed. If the source
is lowered then so is what it is stamped to, and the runs of the executables end alike. -/
theorem Program.run_stamped {source text name : String} {p : Program} {stamper : Stamper}
    {x : Executable} (hparse : Program.parse source = .ok p)
    (hprint : ∀ n ∈ p.nodes, n.defines printName = false)
    (hending : ∀ n ∈ p.nodes, n.endsInExpr = false) (hpolicy : stamper.policy = .fixed text)
    (hx : p.executable name = .ok x) : ∃ new progress x',
      p.rewrite (stampRules printName) stamper = (.ok new, progress) ∧
      new.locate.1.executable name = .ok x' ∧ x.RunsStamped text p new.locate.1 x' := by
  obtain ⟨new, progress, texts, hrewrite, htexts, hstamps, -⟩ := p.rewrite_fixed printName hpolicy
  obtain ⟨_, hlies⟩ := Program.lies_of_parse hparse
  have hlocated := (Program.locate_stamped hstamps hlies).1
  have hblock : StampedBlock (fun _ => True) text p new.locate.1 :=
    ⟨⟨texts, fun t ht => List.mem_singleton.2 (htexts t ht), hlocated⟩, hprint, hending⟩
  obtain ⟨m, hm, hbytes⟩ := Program.executable_eq_ok hx
  have hlower := Program.lower_alike hlocated hprint (Program.located_of_parse hparse)
    new.firstUnlocated?_locate
  rw [hm] at hlower
  obtain ⟨m', hm'⟩ : ∃ m', new.locate.1.lower = .ok m' := by
    revert hlower
    generalize new.locate.1.lower = y
    rintro (⟨-⟩ | -)
    exact ⟨_, rfl⟩
  have hx' : new.locate.1.executable name = .ok ⟨name, m'.encode⟩ := by
    rw [Program.executable, hm']
  exact ⟨new, progress, _, hrewrite, hx', hblock.runsStamped hx hx'⟩

/-- A source that prints in a function, in an argument and in a loop, prints nothing but a line break,
and then divides by zero. -/
def faultingSource : String :=
  "def f(a):\n  print(a, \"=\", sep=\"\")\n  return a - 1\nn = 3\nwhile f(print(n) + n):\n  n = n - 1\nprint()\nprint(n / 0)\n"

theorem run_stamped_faultingSource : ∃ (p : Program) (x : Executable), Program.parse faultingSource = .ok p ∧
    p.executable "main" = .ok x ∧ ∃ new progress x',
      p.rewrite (stampRules printName) quotingPipeline.stamper = (.ok new, progress) ∧
      new.locate.1.executable "main" = .ok x' ∧
        x.RunsStamped "\"at\"\n\\" p new.locate.1 x' := by
  have hparsed : ((Program.parse faultingSource).toOption.any fun p =>
      (p.nodes.all fun n => !n.defines printName && !n.endsInExpr) &&
        (p.executable "main").toOption.isSome) = true := by decide +kernel
  cases h : Program.parse faultingSource with
  | error e => simp [h, Except.toOption] at hparsed
  | ok p =>
    rw [h] at hparsed
    obtain ⟨hnodes, hlowered⟩ := Bool.and_eq_true_iff.1 hparsed
    have hnodes : ∀ n ∈ Program.nodes p, n.defines printName = false ∧ n.endsInExpr = false := by
      simpa using hnodes
    cases hx : p.executable "main" with
    | error e => simp [hx, Except.toOption] at hlowered
    | ok x =>
      have hpolicy : quotingPipeline.stamper.policy = .fixed "\"at\"\n\\" := rfl
      exact ⟨p, x, rfl, hx, Program.run_stamped h (fun n hn => (hnodes n hn).1)
        (fun n hn => (hnodes n hn).2) hpolicy hx⟩

end Stampline
