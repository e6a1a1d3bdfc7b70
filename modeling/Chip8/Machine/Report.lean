import Chip8.Inspection
import Chip8.Machine
import Chip8.Screen.Picture

/-!
# Reports

Two texts about a machine. The dump is a table of its registers for a user. The
inspection is one line that names every part, the stack limited to the addresses
that are on it.
-/
namespace Chip8

open Numeral

def Settings.inspect (s : Settings) : String :=
  record "Flags"
    [("debug", truthText s.debug), ("pace", Duration.optionText s.pace),
     ("timer_period", s.period.text)]

def Timer.inspect (t : Timer) : String :=
  record "Timer"
    [("name", quoted t.name), ("value", decimal t.value.toNat),
     ("running", truthText t.running)]

def Latch.inspect (l : Latch) : String :=
  record "Latch"
    [("key", decimal l.key.toNat), ("ready", truthText l.ready),
     ("interrupted", truthText l.interrupted)]

/-- The keys that are held, in ascending order, and the latch. -/
def Keypad.inspect (k : Keypad) : String :=
  let held := (List.finRange 16).filter k.held.read
  record "Keypad"
    [("held", bracketed (held.map fun key => decimal key.val)), ("latch", k.latch.inspect)]

/-- The screen by its counter alone, under the name of whoever shows it. -/
def Screen.inspect (s : Screen) (name : String) : String :=
  record name [("generation", decimal s.generation.toNat ++ ", ..")]

namespace Machine

def inspect (m : Machine) : String :=
  record "CPU"
    [("flags", m.settings.inspect), ("state", m.status.name),
     ("stack", bracketed (m.registers.live.map fun a => decimal a.toNat)),
     ("pc", decimal m.registers.pc.toNat), ("i", decimal m.registers.i.toNat),
     ("v", bracketed (m.registers.v.toList.map fun b => decimal b.toNat)),
     ("delay", m.delay.inspect), ("sound", m.sound.inspect), ("keypad", m.keypad.inspect),
     ("cycle", decimal m.cycle.toNat), ("screen", m.screen.inspect "Screen" ++ ", ..")]

/-- Every fourth register ends a line. -/
def registerEntry (m : Machine) (x : Fin 16) : String :=
  "v" ++ hex .upper 0 x.val ++ ": " ++ hex .lower 2 (m.registers.v.read x).toNat ++ " " ++
    (if x.val % 4 = 3 then "\n" else "")

def dump (m : Machine) : String :=
  "PC: " ++ hex .lower 4 m.registers.pc.toNat ++ ", SP: " ++ hex .lower 2 m.registers.sp.toNat ++
    ", I: " ++ hex .lower 4 m.registers.i.toNat ++ "\n" ++
    String.join ((List.finRange 16).map m.registerEntry) ++
    "DLY: " ++ decimal m.delay.value.toNat ++ ", SND: " ++ decimal m.sound.value.toNat ++
    ", CYC: " ++ padLeft 6 (decimal m.cycle.toNat) ++ "\n"

end Machine

end Chip8
