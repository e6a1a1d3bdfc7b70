import Chip8.CommandLine.Options
import Chip8.Inspection
import Chip8.Listing
import Chip8.Numeral.Reading

/-!
# The disassembler command

Lists a program file from an offset on. The offset moves the addresses as well,
so that each line shows the address its word has in the whole program.
-/
namespace Chip8.CommandLine.Disassembler

def command : String := "chirp-disasm"

def usage : String := String.intercalate "\n"
  ["Usage: chirp-disasm [OPTIONS]",
   "",
   "Positional arguments:",
   "  file                 Load a ROM to disassemble",
   "",
   "Optional arguments:",
   "  -h, --help           Show help text",
   "  -l, --loadaddr ADDR  Load address, in hex (usually 200) (default: 200)",
   "  -o, --offset OFFSET  Start disassembling at offset...",
   "  -p, --plain          Disable colored output",
   ""]

def helpSwitch : Switch := { short := 'h', long := "help" }

def addressSwitch : Switch := { short := 'l', long := "loadaddr", takesValue := true }

def offsetSwitch : Switch := { short := 'o', long := "offset", takesValue := true }

def plainSwitch : Switch := { short := 'p', long := "plain" }

def switches : List Switch := [helpSwitch, addressSwitch, offsetSwitch, plainSwitch]

structure Options where
  file : Option String := none
  help : Bool := false
  address : Word := 0x200
  offset : Nat := 0
  plain : Bool := false
deriving DecidableEq, Repr

def Options.accept (o : Options) : Item → Except ArgumentError Options
  | .free text =>
    match o.file with
    | none => .ok { o with file := some text }
    | some _ => .error (.unexpectedFree text)
  | .flag switch =>
    .ok { o with help := o.help || switch == helpSwitch, plain := o.plain || switch == plainSwitch }
  | .value switch spelling text =>
    if switch = addressSwitch then
      match Numeral.readAddress text.toList with
      | .ok address => .ok { o with address }
      | .error e => .error (.invalidValue spelling e.message)
    else
      match Numeral.read 10 maxCount text.toList with
      | .ok offset => .ok { o with offset }
      | .error e => .error (.invalidValue spelling e.message)

/-- The options with the file to list, or what there is to say instead. -/
def parse (arguments : List String) : Except Output (String × Options) :=
  match acceptAll switches Options.accept { } arguments with
  | .error e => .error (.badArguments command e)
  | .ok o =>
    if o.help then .error (.help usage)
    else match o.file with
      | some file => .ok (file, o)
      | none => .error (.badArguments command .missingFree)

section

variable {Style : Type} (painter : Painter Style)

def Options.palette (o : Options) : Palette Style :=
  if o.plain then Palette.plain painter else Palette.colored painter

/-- The listing of a program from the offset on. -/
def Options.lines (o : Options) (program : List UInt8) : List String :=
  (o.palette painter).listing painter (o.address + UInt16.ofNat o.offset) (program.drop o.offset)

/-- The command, applied to the contents of its file. -/
def Options.run (o : Options) (contents : Except Fault (List UInt8)) : Output :=
  match contents with
  | .error fault => ⟨1, "", "Error: " ++ fault.inspect ++ "\n"⟩
  | .ok program => ⟨0, String.join ((o.lines painter program).map (· ++ "\n")), ""⟩

end

end Chip8.CommandLine.Disassembler
