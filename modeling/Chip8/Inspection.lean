import Chip8.Fault
import Chip8.Numeral.Duration

/-!
# Inspection texts

An inspection shows a value on one line with the names of its parts: records
between braces, lists between brackets, and cases by their names.
-/
namespace Chip8

open Numeral

/-- Named fields between braces. -/
def record (name : String) (fields : List (String × String)) : String :=
  name ++ " \x7b " ++ commaSeparated (fields.map fun (field, value) => field ++ ": " ++ value) ++
    " \x7d"

/-- Elements between brackets. -/
def bracketed (items : List String) : String := "[" ++ commaSeparated items ++ "]"

def quoted (text : String) : String := "\"" ++ text ++ "\""

def truthText (b : Bool) : String := if b then "true" else "false"

def Duration.optionText : Option Duration → String
  | none => "None"
  | some d => "Some(" ++ d.text ++ ")"

/-! ### Faults -/

def HostFailure.inspect : HostFailure → String
  | .file failure =>
    record "Os"
      [("code", decimal failure.code), ("kind", failure.kind), ("message", quoted failure.message)]
  | .entityNotFound => "Kind(NotFound)"

/-- The name of the kind of fault. -/
def Fault.kind : Fault → String
  | .unknownInstruction _ _ _ => "UnimplementedInstruction"
  | .stackOverflow _ => "StackOverflow"
  | .stackUnderflow _ => "StackUnderflow"
  | .invalidKey _ => "InvalidKey"
  | .invalidRegister _ => "InvalidRegister"
  | .programTooLarge _ _ => "ProgramTooLarge"
  | .interrupted => "Interrupted"
  | .host _ => "IoError"

def Fault.inspect (f : Fault) : String :=
  match f with
  | .unknownInstruction word address offset =>
    record f.kind
      [("word", decimal word.toNat), ("addr", decimal address.toNat),
       ("offset", (if offset < 0 then "-" else "") ++ decimal offset.natAbs)]
  | .stackOverflow address => record f.kind [("addr", decimal address.toNat)]
  | .stackUnderflow address => record f.kind [("addr", decimal address.toNat)]
  | .invalidKey key => record f.kind [("key", decimal key)]
  | .invalidRegister register => record f.kind [("reg", decimal register)]
  | .programTooLarge length capacity =>
    record f.kind [("len", decimal length), ("max", decimal capacity)]
  | .interrupted => f.kind
  | .host failure => f.kind ++ "(" ++ failure.inspect ++ ")"

end Chip8
