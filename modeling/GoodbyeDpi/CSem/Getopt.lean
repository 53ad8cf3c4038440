import Mathlib.Data.List.Basic

/-!
# Command lines

`getopt_long` as glibc has it: the results of its calls one after the other, for the arguments of the command line
after the name of the program.  Arguments that are no options are passed over, unless `POSIXLY_CORRECT` is set; `--`
ends the options; a long option may be abbreviated as long as it is unique.
-/

namespace CSem

variable {α : Type}

/-- A letter of `optstring`, with the colon that may follow it. -/
structure ShortOption (α : Type) where
  letter : UInt8
  hasArg : Bool
  val : α

/-- `struct option`; an option takes an argument or none. -/
structure LongOption (α : Type) where
  name : List UInt8
  hasArg : Bool
  val : α

/-- The result of one call: an option with `optarg`, or `?` for an error. -/
inductive OptResult (α : Type) where
  | opt (val : α) (optarg : List UInt8)
  | question
deriving DecidableEq, Repr

/-- The options in one argument: the results, and the option that takes the next argument as its own. -/
structure OptArgument (α : Type) where
  results : List (OptResult α)
  waiting : Option α

/-- The letters of an argument after the `-`. -/
def shortOptions (short : List (ShortOption α)) : List UInt8 → OptArgument α
  | [] => ⟨[], none⟩
  | c :: cs =>
    match short.find? fun o => o.letter == c with
    | none => ⟨.question :: (shortOptions short cs).results, (shortOptions short cs).waiting⟩
    | some o =>
      if o.hasArg then
        -- what is left of the argument belongs to the option
        if cs.isEmpty then ⟨[], some o.val⟩ else ⟨[.opt o.val cs], none⟩
      else ⟨.opt o.val [] :: (shortOptions short cs).results, (shortOptions short cs).waiting⟩

/-- The option with a name: the one that has exactly this name, or the only one that starts with it. -/
def findLongOption (long : List (LongOption α)) (name : List UInt8) : Option (LongOption α) :=
  match long.find? fun o => o.name == name with
  | some o => some o
  | none =>
    match long.filter fun o => name.isPrefixOf o.name with
    | [o] => some o
    | _ => none

/-- An argument after the `--`; 61 is the `=`. -/
def longOption (long : List (LongOption α)) (arg : List UInt8) : OptArgument α :=
  match findLongOption long (arg.takeWhile (· != 61)) with
  | none => ⟨[.question], none⟩
  | some o =>
    match arg.dropWhile (· != 61) with
    | [] => if o.hasArg then ⟨[], some o.val⟩ else ⟨[.opt o.val []], none⟩
    | _ :: value => if o.hasArg then ⟨[.opt o.val value], none⟩ else ⟨[.question], none⟩

/-- The calls of `getopt_long` on the arguments that are left; `waiting` is the option that takes the next one.  45 is
the `-`. -/
def getoptCalls (short : List (ShortOption α)) (long : List (LongOption α)) (posixlyCorrect : Bool) :
    Option α → List (List UInt8) → List (OptResult α)
  | none, [] => []
  | some _, [] => [.question]
  | some val, arg :: args => .opt val arg :: getoptCalls short long posixlyCorrect none args
  | none, arg :: args =>
    if arg.head? ≠ some 45 ∨ arg.length = 1 then
      if posixlyCorrect then [] else getoptCalls short long posixlyCorrect none args
    else if arg = [45, 45] then []
    else if arg.take 2 = [45, 45] then
      (longOption long (arg.drop 2)).results ++
        getoptCalls short long posixlyCorrect (longOption long (arg.drop 2)).waiting args
    else
      (shortOptions short (arg.drop 1)).results ++
        getoptCalls short long posixlyCorrect (shortOptions short (arg.drop 1)).waiting args

/-- The results of `getopt_long` until it returns -1. -/
def getoptLong (short : List (ShortOption α)) (long : List (LongOption α)) (posixlyCorrect : Bool)
    (args : List (List UInt8)) : List (OptResult α) := getoptCalls short long posixlyCorrect none args

end CSem
