import Chip8.CommandLine.Disassembler
import Chip8.CommandLine.Player
import Chip8.Noise

/-!
# The program

The first argument names the command and the others are its arguments. All that
happens here is reading the file, drawing random bytes and writing the output.
-/
namespace Chip8.CommandLine

/-- The contents of a file. -/
def readProgram (path : String) : IO (Except Fault (List UInt8)) := do
  try
    let bytes ← IO.FS.readBinFile path
    return .ok bytes.toList
  catch
    | .inappropriateType _ code _ =>
      return .error (.host (.file (if code = 21 then .isADirectory else .notADirectory)))
    | .invalidArgument .. => return .error (.host (.file .nameTooLong))
    | _ => return .error (.host (.file .notFound))

def Output.write (o : Output) : IO UInt32 := do
  IO.print o.standard
  IO.eprint o.diagnostic
  return UInt32.ofNat o.code

/-- Times of a usual machine, in nanoseconds. -/
def host : Player.Host := ⟨200, 50000, 500000⟩

/-- More instructions than a run executes in a lifetime. -/
def endless : Nat := 4611686018427387904

def play (arguments : List String) : IO UInt32 := do
  match Player.parse arguments with
  | .error output => output.write
  | .ok (file, options) =>
    let contents ← readProgram file
    let seed ← IO.rand 0 4294967296
    match options.run? host contents (Noise.byte (UInt64.ofNat seed)) endless with
    | some output => output.write
    | none => (Output.mk 0 "" "").write

def disassemble (arguments : List String) : IO UInt32 := do
  match Disassembler.parse arguments with
  | .error output => output.write
  | .ok (file, options) => (options.run .terminal (← readProgram file)).write

end Chip8.CommandLine

open Chip8.CommandLine in
def main (arguments : List String) : IO UInt32 :=
  match arguments with
  | command :: rest =>
    if command = Player.command then play rest
    else if command = Disassembler.command then disassemble rest
    else (Output.badArguments command (.unrecognized command)).write
  | [] => (Output.badArguments Player.command .missingFree).write
