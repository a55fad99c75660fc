import Stampline.Syntax.Printer

/-!
# Induction on statements

The second block of a conditional is written in one of three ways, according to whether it is empty,
is one conditional, or neither. What is said of written statements is said by an induction that keeps
these ways apart.
-/

namespace Stampline

/-- A block is one conditional, and as the second block of another is written as a link. -/
def IsLink (block : List Stmt) : Prop :=
  ∃ span test body orelse, block = [.branch span test body orelse]

/-- The second block of a conditional, where it is not written as a link. -/
theorem orelseText_of_not_isLink {depth : Nat} : ∀ {block : List Stmt}, block ≠ [] →
    ¬IsLink block → orelseText depth block = margin depth ++ "else:\n" ++ blockText (depth + 1) block
  | s :: ss, _, hlink => by
    rw [orelseText, blockText, String.append_assoc]
    rintro span test body orelse rfl rfl
    exact hlink ⟨span, test, body, orelse, rfl⟩

/-- The cases of an induction that proves `S` of statements, `B` of blocks, and `O` of the second
blocks of conditionals. -/
structure ByStatement (S : Stmt → Prop) (B O : List Stmt → Prop) : Prop where
  define : ∀ span name params body, B body → S (.define span name params body)
  giveZero : ∀ span, S (.give span none)
  give : ∀ span value, S (.give span (some value))
  assign : ∀ span target value, S (.assign span target value)
  eval : ∀ span value, S (.eval span value)
  branch : ∀ span test body orelse, B body → O orelse → S (.branch span test body orelse)
  loop : ∀ span test body, B body → S (.loop span test body)
  pass : ∀ span, S (.pass span)
  nil : B []
  cons : ∀ s ss, S s → B ss → B (s :: ss)
  absent : O []
  link : ∀ span test body orelse, B body → O orelse → O [.branch span test body orelse]
  otherwise : ∀ block, block ≠ [] → ¬IsLink block → B block → O block

namespace ByStatement

variable {S : Stmt → Prop} {B O : List Stmt → Prop}

mutual

theorem stmt (h : ByStatement S B O) : ∀ s : Stmt, S s
  | .define span name params body => h.define span name params body (h.blocks body).1
  | .give span none => h.giveZero span
  | .give span (some value) => h.give span value
  | .assign span target value => h.assign span target value
  | .eval span value => h.eval span value
  | .branch span test body orelse =>
    h.branch span test body orelse (h.blocks body).1 (h.blocks orelse).2
  | .loop span test body => h.loop span test body (h.blocks body).1
  | .pass span => h.pass span

theorem blocks (h : ByStatement S B O) : ∀ block : List Stmt, B block ∧ O block
  | [] => ⟨h.nil, h.absent⟩
  | [.branch span test body orelse] =>
    ⟨h.cons _ _ (h.branch span test body orelse (h.blocks body).1 (h.blocks orelse).2) h.nil,
      h.link span test body orelse (h.blocks body).1 (h.blocks orelse).2⟩
  | s :: t :: ss => by
    have hblock := h.cons s (t :: ss) (h.stmt s) (h.blocks (t :: ss)).1
    exact ⟨hblock, h.otherwise _ (by simp) (by simp [IsLink]) hblock⟩
  | [.define span name params body] => by
    have hblock := h.cons _ _ (h.define span name params body (h.blocks body).1) h.nil
    exact ⟨hblock, h.otherwise _ (by simp) (by simp [IsLink]) hblock⟩
  | [.loop span test body] => by
    have hblock := h.cons _ _ (h.loop span test body (h.blocks body).1) h.nil
    exact ⟨hblock, h.otherwise _ (by simp) (by simp [IsLink]) hblock⟩
  | [.give span value] => by
    have hblock := h.cons _ _ (h.stmt (.give span value)) h.nil
    exact ⟨hblock, h.otherwise _ (by simp) (by simp [IsLink]) hblock⟩
  | [.assign span target value] => by
    have hblock := h.cons _ _ (h.assign span target value) h.nil
    exact ⟨hblock, h.otherwise _ (by simp) (by simp [IsLink]) hblock⟩
  | [.eval span value] => by
    have hblock := h.cons _ _ (h.eval span value) h.nil
    exact ⟨hblock, h.otherwise _ (by simp) (by simp [IsLink]) hblock⟩
  | [.pass span] => by
    have hblock := h.cons _ _ (h.pass span) h.nil
    exact ⟨hblock, h.otherwise _ (by simp) (by simp [IsLink]) hblock⟩

end

theorem block (h : ByStatement S B O) (block : List Stmt) : B block := (h.blocks block).1

theorem orelse (h : ByStatement S B O) (block : List Stmt) : O block := (h.blocks block).2

end ByStatement

end Stampline
