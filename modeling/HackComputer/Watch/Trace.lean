import HackComputer.Machine.Hook
import HackComputer.Text.Quoted
import HackComputer.Watch.Point

/-!
# `HackComputer.Watch.Trace`: showing a run

While the machine runs, every watched instruction is shown after it was
performed, with the registers and whatever its point asks for; on
request all others are shown as well.

* `registerLine`, `stackLines`: the machine for the reader.
* `Watcher.afterStep`: what is shown after one step.
* `Watcher.hook`: the watcher, attached to a run.
* `Watcher.steps`, `Watcher.run`: a run with everything that is shown on
  the way.
-/

set_option autoImplicit false

namespace HackComputer.Watch

open Isa Machine

/-- The registers of the machine and some named cells. -/
def registerLine (s : State) (registers : List Register) : String :=
  " | pc: " ++ Text.hex4 s.pc.toNat ++ " | a: " ++ Text.hex4 s.a.toNat ++ " | d: "
    ++ Text.hex4 s.d.toNat ++ " |"
    ++ String.join (registers.map fun r =>
      " " ++ r.name ++ ": " ++ Text.hex4 (s.read r.address).toNat ++ " |")
    ++ "\n"

/-- The stack, one cell a line, in base sixteen and as signed numbers. -/
def stackLines (s : State) : String :=
  " +-[stack]-----+\n"
    ++ String.join (s.stack.mapIdx fun i w =>
      " | " ++ Text.hex4 (stackBase.toNat + i) ++ " : " ++ Text.hex4 w.toNat ++ " | "
        ++ Text.padLeft ' ' 6 (Text.signedDecimal w.signed) ++ "\n")
    ++ " +-------------+\n"

/-- Some cells, one a line. -/
def cellLines (s : State) (cells : List Word) : String :=
  String.join (cells.map fun w =>
    " | " ++ Text.hex4 w.toNat ++ " : " ++ Text.hex4 (s.read w).toNat ++ " |\n")

/-- The instruction performed at a time, with its address and its
word. -/
def operationLine (time : Nat) (address : Word) (op : Operation) : String :=
  "[" ++ Text.padLeft '0' 6 (Text.decimal time) ++ "] "
    ++ Text.styled [.dim]
      (Text.hex4 address.toNat ++ ": " ++ Text.hex4 op.encode.toNat)
    ++ " " ++ op.painted ++ "\n"

/-- What to show of a run. -/
structure Watcher where
  /-- Show every instruction. -/
  all : Bool := false
  /-- The name of the watch document. -/
  file : Option String := none
  points : Points := []

namespace Watcher

/-- What is said before the run. -/
def announcement (w : Watcher) : String :=
  (if w.all then " * Dump all\n" else "")
    ++ w.file.elim "" fun file =>
      " * Dump[" ++ Text.decimal w.points.length ++ "] " ++ Text.quoted file ++ "\n"

/-- What is shown after an instruction was performed; `s` is the machine
afterwards. -/
def afterStep (w : Watcher) (time : Nat) (address : Word) (op : Operation) (s : State) : String :=
  match w.points.lookup address with
  | some point =>
      let registers := if point.registers.isEmpty then Register.bases else point.registers
      operationLine time address op ++ registerLine s registers
        ++ (if point.stack then stackLines s else "") ++ cellLines s point.cells
  | none =>
      if w.all then operationLine time address op ++ registerLine s Register.bases else ""

/-- The watcher as a hook. What it keeps is the text that has been
shown; the machine is given back as it is. -/
def hook (w : Watcher) : Hook String where
  init shown s := (shown ++ w.announcement, s)
  exec shown time address op s := (shown ++ w.afterStep time address op s, s)

/-- Runs until the machine halts, but for at most `limit` steps, the
first of which is at `time`. Yields what is shown after each step, the
time afterwards and the machine. -/
def steps (w : Watcher) (time limit : Nat) (s : State) : Array String × Nat × State :=
  s.runObserved (fun shown time address op s => shown.push (w.afterStep time address op s))
    time #[] limit

/-- Runs from time zero with the watcher as a hook. Yields all that is
shown as one text, the number of steps and the machine. -/
def run (w : Watcher) (limit : Nat) (s : State) : String × Nat × State :=
  s.runHooked w.hook 0 0 "" limit

end Watcher

end HackComputer.Watch
