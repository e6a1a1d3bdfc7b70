import Chip8.CommandLine.Options
import Chip8.CommandLine.Performance
import Chip8.Machine.Report
import Chip8.Numeral.Reading

/-!
# The player command

Runs a program file without anyone at the keypad and shows what is on the screen
in the end. The time that instructions take, and the pause that the user asks
for, decide when the timers count and when the time is up. A wait for a key can
only end with the time.
-/
namespace Chip8.CommandLine.Player

def command : String := "chirp-vm"

def usage : String := String.intercalate "\n"
  ["Usage: chirp-vm [OPTIONS]",
   "",
   "Positional arguments:",
   "  file             Load a ROM to run.",
   "",
   "Optional arguments:",
   "  -h, --help       Print this help message.",
   "  -d, --debug      Enable live disassembly.",
   "  -p, --pace US    Wait this many microseconds between instructions.",
   "  -t, --time SECS  Stop after this many seconds. If unspecified, run until the program halts.",
   "  -r, --regs       Dump the registers once stopped.",
   ""]

def helpSwitch : Switch := { short := 'h', long := "help" }

def debugSwitch : Switch := { short := 'd', long := "debug" }

def paceSwitch : Switch := { short := 'p', long := "pace", takesValue := true }

def timeSwitch : Switch := { short := 't', long := "time", takesValue := true }

def regsSwitch : Switch := { short := 'r', long := "regs" }

def switches : List Switch := [helpSwitch, debugSwitch, paceSwitch, timeSwitch, regsSwitch]

structure Options where
  file : Option String := none
  help : Bool := false
  debug : Bool := false
  /-- Microseconds between instructions. -/
  pace : Option Nat := none
  /-- Seconds after which to stop. -/
  time : Option DecimalValue := none
  regs : Bool := false
deriving DecidableEq, Repr

def Options.accept (o : Options) : Item → Except ArgumentError Options
  | .free text =>
    match o.file with
    | none => .ok { o with file := some text }
    | some _ => .error (.unexpectedFree text)
  | .flag switch =>
    .ok { o with
      help := o.help || switch == helpSwitch
      debug := o.debug || switch == debugSwitch
      regs := o.regs || switch == regsSwitch }
  | .value switch spelling text =>
    if switch = paceSwitch then
      match Numeral.read 10 maxCount text.toList with
      | .ok pace => .ok { o with pace := some pace }
      | .error e => .error (.invalidValue spelling e.message)
    else
      match DecimalValue.read text.toList with
      | .ok time => .ok { o with time := some time }
      | .error e => .error (.invalidValue spelling e.message)

/-- The options with the file to run, or what there is to say instead. -/
def parse (arguments : List String) : Except Output (String × Options) :=
  match acceptAll switches Options.accept { } arguments with
  | .error e => .error (.badArguments command e)
  | .ok o =>
    if o.help then .error (.help usage)
    else match o.file with
      | some file => .ok (file, o)
      | none => .error (.badArguments command .missingFree)

/-! ### Time -/

/-- How fast a host is, in nanoseconds. -/
structure Host where
  /-- The time that an instruction takes. -/
  instructionTime : Nat
  /-- How late a thread wakes, also when the machine is started. -/
  wakeDelay : Nat
  /-- What a slice of a performance may take. -/
  sliceLength : Nat
deriving DecidableEq, Repr

/-- The host looks at the time once in a while, and asks for a stop when it finds
that the time is up. -/
def Host.pollInterval (host : Host) : Nat := 10000000 + host.wakeDelay

/-- From one instruction to the next. A pause ends a little late. -/
def Options.stride (o : Options) (host : Host) : Nat :=
  match o.pace with
  | none => host.instructionTime
  | some pace => host.instructionTime + (if pace = 0 then 0 else pace * 1000 + host.wakeDelay)

/-- The first look at the time that finds it up. -/
def Options.stopTime (o : Options) (host : Host) : Option Nat :=
  let interval := host.pollInterval
  (o.time.bind Duration.ofDecimalSeconds?).map fun limit =>
    (limit.nanoseconds - host.wakeDelay + (interval - 1)) / interval * interval

def Options.tempo (o : Options) (host : Host) : Tempo where
  stride := o.stride host
  wakeDelay := host.wakeDelay
  sliceLength := host.sliceLength
  stopTime := o.stopTime host

/-- The time until the host finds that a run has ended. -/
def Host.noticeDelay (host : Host) (now : Nat) : Nat := host.pollInterval - now % host.pollInterval

/-! ### Playing -/

/-- A fault, painted for the terminal. -/
def alarm (text : String) : String :=
  escape "31" ++ escape "1" ++ text ++ escape "0" ++ escape "39" ++ "\n"

def Options.settings (o : Options) : Settings :=
  { debug := o.debug, pace := o.pace.map Duration.ofMicroseconds }

/-- What is shown of a machine that has stopped. -/
def Options.show (o : Options) (m : Machine) : String :=
  m.screen.braille ++ (if o.regs then m.dump else "")

/-- The output at the end of a run. Timers go on until the end of a run has been
noticed; a stop is made when the host looks. A run that has not ended has no
output, and no run ends in a trap. -/
def Options.output? (o : Options) (host : Host) (outcome : Outcome) (p : Performance) :
    Option Output :=
  let traced := String.join p.session.printed.toList
  match outcome with
  | .done => some ⟨0, traced ++ o.show p.session.machine, ""⟩
  | .failed (.fault fault) =>
    let m := (p.pass (o.tempo host) (host.noticeDelay p.now)).session.machine
    some ⟨0, traced ++ o.show m, alarm fault.message⟩
  | _ => none

/-- The command, applied to the contents of its file. It executes about `budget`
instructions at most and draws random bytes from `random`. Without an output it
would go on for longer, or for ever. -/
def Options.run? (o : Options) (host : Host) (contents : Except Fault (List UInt8))
    (random : Nat → UInt8) (budget : Nat) : Option Output :=
  match contents with
  | .error fault => some ⟨1, "", "Error: " ++ fault.inspect ++ "\n"⟩
  | .ok program =>
    match (Machine.new o.settings).loadProgram program with
    | (.error (.fault fault), _) => some ⟨1, "", "Error: " ++ fault.inspect ++ "\n"⟩
    | (.error (.trap _), _) => none
    | (.ok (), machine) =>
      match Performance.perform (o.tempo host) random budget { session := { machine } } with
      | some (outcome, p) => o.output? host outcome p
      | none => none

end Chip8.CommandLine.Player
