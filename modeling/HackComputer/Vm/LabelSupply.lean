import HackComputer.Text.Numeral

/-!
# `HackComputer.Vm.LabelSupply`: labels that no source can spell

Generated code needs labels of its own. Each is `$`, a word for its
purpose, a dot and a number. Return labels are counted by themselves;
all others share one count.
-/

set_option autoImplicit false

namespace HackComputer.Vm

/-- What a generated label is for. -/
inductive LabelKind where
  | equal
  | greater
  | less
  | zeroLocals
  | returnPoint
  deriving DecidableEq, Repr

/-- The word for the purpose. -/
def LabelKind.text : LabelKind → String
  | equal => "EQ"
  | greater => "GT"
  | less => "LT"
  | zeroLocals => "FUNCTION_INIT"
  | returnPoint => "RET"

/-- How many labels have been handed out. -/
structure LabelSupply where
  /-- Labels inside the code of one command. -/
  inner : Nat := 0
  /-- Labels that calls return to. -/
  returns : Nat := 0
  deriving DecidableEq, Repr, Inhabited

/-- A generated label. -/
def generatedLabel (kind : LabelKind) (n : Nat) : String :=
  "$" ++ kind.text ++ "." ++ Text.decimal n

/-- The next label of a kind, and the supply without it. -/
def LabelSupply.fresh (supply : LabelSupply) (kind : LabelKind) : String × LabelSupply :=
  match kind with
  | .returnPoint =>
      (generatedLabel kind (supply.returns + 1), { supply with returns := supply.returns + 1 })
  | _ => (generatedLabel kind (supply.inner + 1), { supply with inner := supply.inner + 1 })

end HackComputer.Vm
