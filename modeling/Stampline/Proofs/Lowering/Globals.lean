import Stampline.Proofs.Evaluation.Writes
import Stampline.Proofs.Lowering.Correct
import Stampline.Proofs.Syntax.Lineages

/-!
# The globals that a run binds

A run binds the names that the program assigns outside its definitions, and keeps all other globals as
they are; no name ceases to be bound. This holds of every run that ends, also of one that the machine
stops in the middle of a call, since the program is followed by its meaning up to there.
-/

namespace Stampline

variable {p : Program}

/-- Whatever a run ends in, it binds the names that the program assigns outside its definitions. -/
theorem Program.bindsOnly_of_run {source : String} {x : Executable}
    (hx : p.executable source = .ok x) {fuel : Nat} {env : Environment} {r : Run}
    (hr : x.run fuel env = some r) : env.globals.BindsOnly (targetsIn p) r.env.globals := by
  rcases Executable.run_cases hx hr with ⟨rfl, -⟩ | ⟨-, τ, hends, henv⟩
  · exact .refl
  rw [henv]
  show env.globals.BindsOnly (targetsIn p) τ.globals
  have hwrites := fun fuel => p.writes_meaning .engine fuel { globals := env.globals }
  rcases Program.endsIn_iff.1 hends with ⟨-, k, hk⟩ | ⟨f, -, k, hk⟩
  · have hdone := hwrites k
    rw [hk k (Nat.le_refl k)] at hdone
    exact hdone.1
  · have hfault := hwrites k
    rw [hk k (Nat.le_refl k)] at hfault
    exact hfault

/-! ## Assignments outside definitions -/

/-- An assignment to a name that stands in no definition. -/
def Lineage.AssignsOutside (name : String) (l : Lineage) : Prop :=
  (∃ span value, l.node = .stmt (.assign span name value)) ∧ ∀ n ∈ l.above, n.kind ≠ .define

mutual

/-- What a statement assigns is assigned at or below it, with no definition in between. -/
theorem Stmt.exists_lineage_of_mem_targets {name : String} : ∀ (s : Stmt) {above : List Node},
    (∀ n ∈ above, n.kind ≠ .define) → name ∈ s.targets →
      ∃ l ∈ (Node.stmt s).lineages above, l.AssignsOutside name
  | .assign span target value, above, habove, h => by
    obtain rfl := List.mem_singleton.1 h
    rw [Node.lineages_eq]
    exact ⟨_, .head _, ⟨span, value, rfl⟩, habove⟩
  | .branch span test body orelse, above, habove, h => by
    have hbelow : ∀ n ∈ Node.stmt (.branch span test body orelse) :: above, n.kind ≠ .define :=
      List.forall_mem_cons.2 ⟨NodeKind.noConfusion, habove⟩
    rw [Node.lineages_eq, Node.children, List.flatMap_cons, List.flatMap_append]
    rcases List.mem_append.1 h with h | h
    · obtain ⟨l, hl, hassigns⟩ := exists_lineage_of_mem_targetsIn body hbelow h
      exact ⟨l, .tail _ (List.mem_append_right _ (List.mem_append_left _ hl)), hassigns⟩
    · obtain ⟨l, hl, hassigns⟩ := exists_lineage_of_mem_targetsIn orelse hbelow h
      exact ⟨l, .tail _ (List.mem_append_right _ (List.mem_append_right _ hl)), hassigns⟩
  | .loop span test body, above, habove, h => by
    have hbelow : ∀ n ∈ Node.stmt (.loop span test body) :: above, n.kind ≠ .define :=
      List.forall_mem_cons.2 ⟨NodeKind.noConfusion, habove⟩
    rw [Node.lineages_eq, Node.children, List.flatMap_cons]
    obtain ⟨l, hl, hassigns⟩ := exists_lineage_of_mem_targetsIn body hbelow h
    exact ⟨l, .tail _ (List.mem_append_right _ hl), hassigns⟩
  | .define .., _, _, h | .give .., _, _, h | .eval .., _, _, h | .pass .., _, _, h => by cases h

/-- What a block assigns is assigned in it, with no definition around. -/
theorem exists_lineage_of_mem_targetsIn {name : String} : ∀ (ss : List Stmt) {above : List Node},
    (∀ n ∈ above, n.kind ≠ .define) → name ∈ targetsIn ss →
      ∃ l ∈ (ss.map Node.stmt).flatMap (Node.lineages above), l.AssignsOutside name
  | [], _, _, h => by cases h
  | s :: ss, above, habove, h => by
    rw [List.map_cons, List.flatMap_cons]
    rcases List.mem_append.1 h with h | h
    · obtain ⟨l, hl, hassigns⟩ := s.exists_lineage_of_mem_targets habove h
      exact ⟨l, List.mem_append_left _ hl, hassigns⟩
    · obtain ⟨l, hl, hassigns⟩ := exists_lineage_of_mem_targetsIn ss habove h
      exact ⟨l, List.mem_append_right _ hl, hassigns⟩

end

/-- Functions bind no globals. Whenever a run ends, with a fault or without one, a name that is bound to
something else than before, or was not bound before, is assigned by a statement of the program that
stands in no definition, and every name that was bound is bound still. -/
theorem Program.globals_of_run {source : String} {x : Executable}
    (hx : p.executable source = .ok x) {fuel : Nat} {env : Environment} {r : Run}
    (hr : x.run fuel env = some r) :
    (∀ name, r.env.global? name ≠ env.global? name → ∃ l ∈ p.lineages, l.AssignsOutside name) ∧
      ∀ name, env.global? name ≠ none → r.env.global? name ≠ none := by
  have hbinds := Program.bindsOnly_of_run hx hr
  refine ⟨fun name hname => ?_, hbinds.bound⟩
  have htarget : name ∈ targetsIn p := by
    by_contra hother
    exact hname (hbinds.kept name hother)
  exact exists_lineage_of_mem_targetsIn p (List.forall_mem_nil _) htarget

/-- A function that assigns a name, and a program that calls it, assigns another name and stops with a
fault. -/
def hidingSource : String :=
  "def f(n):\n  hidden = n\n  return hidden\ns = f(7)\nif s:\n  s = s / 0\n"

/-- A run that binds a global and stops with a fault behind it. -/
theorem globals_of_run_hidingSource : ∃ p x r, Program.parse hidingSource = .ok p ∧
    p.executable "main" = .ok x ∧ x.run 100 {} = some r ∧
      (r.env.global? "s" = some 7 ∧ r.outcome.isOk = false) ∧
        (∀ name, r.env.global? name ≠ ({} : Environment).global? name →
          ∃ l ∈ p.lineages, l.AssignsOutside name) ∧
          ∀ name, ({} : Environment).global? name ≠ none → r.env.global? name ≠ none := by
  have hrun : ((Program.parse hidingSource).toOption.any fun p =>
      (p.executable "main").toOption.any fun x => (x.run 100 {}).any fun r =>
        decide (r.env.global? "s" = some 7) && !r.outcome.isOk) = true := by decide +kernel
  cases hp : Program.parse hidingSource with
  | error e => simp [hp, Except.toOption] at hrun
  | ok p =>
    rw [hp] at hrun
    cases hx : p.executable "main" with
    | error e => simp [hx, Except.toOption] at hrun
    | ok x =>
      obtain ⟨r, hr, hends⟩ : ∃ r, x.run 100 {} = some r ∧
          r.env.global? "s" = some 7 ∧ r.outcome.isOk = false := by
        simpa [hx, Except.toOption, Option.any_eq_true] using hrun
      exact ⟨p, x, r, rfl, hx, hr, hends, Program.globals_of_run hx hr⟩

end Stampline
