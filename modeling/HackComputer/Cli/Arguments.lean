import HackComputer.Text.Numeral

/-!
# `HackComputer.Cli.Arguments`: options on a command line

Arguments are read from left to right. An option has a long name behind
two dashes and perhaps a letter behind one dash. Letters without values
can share a dash, and a value can follow its option in the next argument,
behind an equals sign, or right behind the letter. The argument `--`
ends the options, and each option and the one free argument may come
only once.

A value in an argument of its own may not look like an option. The
first argument that asks for the version or for help, or that makes no
sense, decides.
-/

set_option autoImplicit false

namespace HackComputer.Cli

/-- An option. -/
structure OptionSpec where
  /-- The name behind two dashes. -/
  long : String
  /-- The letter behind one dash. -/
  short : Option Char := none
  /-- The values that the option takes, if it takes one. -/
  value? : Option (String → Bool) := none

/-- Why the arguments lead to no run. -/
inductive Stop where
  | usage
  | version
  | help
  deriving DecidableEq, Repr

/-- The arguments read so far. -/
structure Arguments where
  /-- The options by long name, with their values if they have one. -/
  options : List (String × Option String) := []
  /-- The argument that belongs to no option. -/
  free : Option String := none
  deriving DecidableEq, Repr

namespace Arguments

/-- The option was given. -/
def has (a : Arguments) (long : String) : Bool :=
  (a.options.lookup long).isSome

/-- The value that was given for an option. -/
def get? (a : Arguments) (long : String) : Option String :=
  (a.options.lookup long).join

/-- Adds an option. Each may come only once. -/
def addOption (a : Arguments) (long : String) (value : Option String) : Except Stop Arguments :=
  if a.has long then .error .usage
  else .ok { a with options := a.options ++ [(long, value)] }

/-- Adds an option with its value, which has to be one that the option
takes. -/
def addValue (a : Arguments) (spec : OptionSpec) (value : String) : Except Stop Arguments :=
  if spec.value?.any (· value) then a.addOption spec.long (some value) else .error .usage

/-- Adds a free argument. -/
def addFree (a : Arguments) (value : String) : Except Stop Arguments :=
  if a.free.isSome then .error .usage else .ok { a with free := some value }

/-- An argument that starts like an option. A single dash does not. -/
def looksLikeOption (cs : List Char) : Bool :=
  match cs with
  | '-' :: _ :: _ => true
  | _ => false

/-- Reads what follows two dashes: a name, and a value if there is an
equals sign. Yields the option whose value is still to come. -/
def long (specs : List OptionSpec) (a : Arguments) (cs : List Char) :
    Except Stop (Arguments × Option OptionSpec) :=
  let name := String.ofList (cs.takeWhile (· != '='))
  let attached := match cs.dropWhile (· != '=') with
    | [] => none
    | _ :: value => some (String.ofList value)
  match specs.find? (·.long == name) with
  | some spec =>
      match spec.value?, attached with
      | some _, some value => (a.addValue spec value).map (·, none)
      | some _, none => .ok (a, some spec)
      | none, some _ => .error .usage
      | none, none => (a.addOption name none).map (·, none)
  | none =>
      if attached.isSome then .error .usage
      else if name == "version" then .error .version
      else if name == "help" then .error .help
      else .error .usage

/-- Reads the letters behind one dash. The first one that takes a value
takes the rest as its value. Yields the option whose value is still to
come. -/
def letters (specs : List OptionSpec) (a : Arguments) :
    List Char → Except Stop (Arguments × Option OptionSpec)
  | [] => .ok (a, none)
  | c :: cs =>
      match specs.find? (·.short == some c) with
      | some spec =>
          match spec.value?, cs with
          | none, _ => do
              let a ← a.addOption spec.long none
              letters specs a cs
          | some _, [] => .ok (a, some spec)
          | some _, '=' :: value => (a.addValue spec (String.ofList value)).map (·, none)
          | some _, value => (a.addValue spec (String.ofList value)).map (·, none)
      | none =>
          if c == 'V' then .error .version else if c == 'h' then .error .help else .error .usage

/-- Reads the arguments. `pending` is an option whose value comes next,
and behind `--` all arguments are free. -/
def readFrom (specs : List OptionSpec) (a : Arguments) (onlyFree : Bool)
    (pending : Option OptionSpec) : List String → Except Stop Arguments
  | [] => if pending.isSome then .error .usage else .ok a
  | arg :: args =>
      let cs := arg.toList
      match pending with
      | some spec =>
          if looksLikeOption cs then .error .usage
          else do
            let a ← a.addValue spec arg
            readFrom specs a onlyFree none args
      | none =>
          if onlyFree || !looksLikeOption cs then do
            let a ← a.addFree arg
            readFrom specs a onlyFree none args
          else match cs with
            | ['-', '-'] => readFrom specs a true none args
            | '-' :: '-' :: name => do
                let (a, pending) ← long specs a name
                readFrom specs a onlyFree pending args
            | _ => do
                let (a, pending) ← letters specs a (cs.drop 1)
                readFrom specs a onlyFree pending args

/-- Reads the arguments of a command with the given options. -/
def read (specs : List OptionSpec) (args : List String) : Except Stop Arguments :=
  readFrom specs {} false none args

end Arguments

/-! ### Values -/

/-- Every text is taken. -/
def anyText (_ : String) : Bool := true

/-- A number without a minus sign of up to 64 bits. -/
def number64? (s : String) : Option Nat :=
  (Text.unsigned? s.toList).filter (· < UInt64.size)

/-- A number of 16 bits. Zero may carry a minus sign. -/
def number16? (s : String) : Option Nat :=
  match s.toList with
  | '-' :: cs => (Text.decimal? cs).filter (· == 0)
  | cs => (Text.unsigned? cs).filter (· < UInt16.size)

end HackComputer.Cli
