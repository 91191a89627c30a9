import HackComputer.Proofs.Vm.Grammar
import HackComputer.Proofs.Vm.SourceLines

/-!
# `HackComputer.Proofs.Vm.SourceNames`: names of a source hold no `$`

The mark `$` starts the labels that the compiler makes up, so reading a
source refuses it in names. `SourceUnit.Clean` says what that leaves: in
every line of a unit that was read, no name of a label or a function
holds the mark. Nothing is said about the name of the unit itself, which
does not come from the source.

* `Command.clean_of_parse`: a command that is read is clean.
* `SourceUnit.clean_of_parse`: so are all lines of a unit.
-/

set_option autoImplicit false

namespace HackComputer.Vm

/-- The names of labels and functions in a command. -/
def Command.names : Command → List String
  | .label name | .goto name | .ifGoto name | .function name _ | .call name _ => [name]
  | .arithmetic _ | .push _ _ | .pop _ _ | .ret => []

/-- No name of the command holds a `$`. -/
def Command.Clean (command : Command) : Prop :=
  ∀ name ∈ command.names, isSourceName name

/-- No name in the lines of the unit holds a `$`. -/
def SourceUnit.Clean (unit : SourceUnit) : Prop :=
  ∀ line ∈ unit.lines, line.command.Clean

namespace Command

/-- Commands without names of labels or functions are clean. -/
theorem clean_of_names_eq_nil {command : Command} (h : command.names = []) : command.Clean := by
  intro name hname
  rw [h] at hname
  cases hname

/-- Commands with one name are clean if the name is. -/
theorem clean_of_names_eq_singleton {command : Command} {name : String}
    (h : command.names = [name]) (hname : isSourceName name) : command.Clean := by
  intro name' hname'
  rw [h, List.mem_singleton] at hname'
  rw [hname']
  exact hname

/-- The grammar asks of every name that it is clean. -/
theorem Written.clean {words : List String} {command : Command} (h : Written words command) :
    command.Clean := by
  cases h with
  | arithmetic | push | pop | ret => exact clean_of_names_eq_nil rfl
  | label hname | goto hname | ifGoto hname | function hname | call hname =>
      exact clean_of_names_eq_singleton rfl hname

/-- A command that is read is clean. -/
theorem clean_of_parse {line : List Char} {command : Command} (h : parse line = .ok command) :
    command.Clean :=
  (ofWords_eq_ok_iff.mp h).clean

end Command

namespace SourceUnit

/-- **A unit that is read is clean.** -/
theorem clean_of_parse {name : String} {source : List Char} {unit : SourceUnit}
    (h : parse name source = .ok unit) : unit.Clean := by
  intro line hline
  exact Command.clean_of_parse ((parse_eq_ok_iff.mp h).2.2 line hline)

end SourceUnit

end HackComputer.Vm
