import Stampline.Syntax.Basic

/-!
# Targets

The names that statements assign. Inside a function they are local, wherever in its body the
assignment stands and whether it is reached or not. A definition inside a body has targets of its
own, which do not count. A name that is assigned more than once is one local.
-/

namespace Stampline

mutual

/-- The names that a statement assigns, definitions inside it aside. -/
def Stmt.targets : Stmt → List String
  | .assign _ target _ => [target]
  | .branch _ _ body orelse => targetsIn body ++ targetsIn orelse
  | .loop _ _ body => targetsIn body
  | _ => []

/-- The names that a block assigns, definitions inside it aside. -/
def targetsIn : List Stmt → List String
  | [] => []
  | s :: ss => s.targets ++ targetsIn ss

end

/-- Names with each repetition left out, behind the names that are there before. -/
def distinctAfter (before : List String) : List String → List String
  | [] => before
  | n :: ns =>
    if before.contains n then distinctAfter before ns else distinctAfter (before ++ [n]) ns

end Stampline
