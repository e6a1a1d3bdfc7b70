import Chip8.Numeral
import Chip8.Numeral.Reading
import Chip8.Numeral.Duration
import Chip8.Cells
import Chip8.Fault
import Chip8.Word
import Chip8.Instruction
import Chip8.Instruction.Encoding
import Chip8.Instruction.Assembly
import Chip8.Painter
import Chip8.Listing
import Chip8.Memory
import Chip8.Screen
import Chip8.Screen.Canvas
import Chip8.Screen.Picture
import Chip8.Waiting
import Chip8.Interleaving
import Chip8.Keypad
import Chip8.Keypad.Rendezvous
import Chip8.Timer
import Chip8.Timer.Interleaving
import Chip8.Timer.Schedule
import Chip8.Registers
import Chip8.Machine
import Chip8.Machine.Execution
import Chip8.Machine.Simulation
import Chip8.Machine.Tick
import Chip8.Machine.Run
import Chip8.Machine.Idling
import Chip8.Inspection
import Chip8.Machine.Report
import Chip8.Noise
import Chip8.Machine.StopRequests
import Chip8.Machine.History
import Chip8.Json
import Chip8.Snapshot
import Chip8.CommandLine.Options
import Chip8.CommandLine.Disassembler
import Chip8.CommandLine.Files
import Chip8.CommandLine.Performance
import Chip8.CommandLine.Player
import Chip8.Main
import Chip8.Proofs.Instruction.Operands
import Chip8.Proofs.Instruction.Encoding
import Chip8.Proofs.Memory.Windows
import Chip8.Proofs.Memory.Circle
import Chip8.Proofs.Memory.Regions
import Chip8.Proofs.Screen.Sprites
import Chip8.Proofs.Screen.Drawing
import Chip8.Proofs.Keypad.Rendezvous
import Chip8.Proofs.Timer.Countdown
import Chip8.Proofs.Timer.Observers
import Chip8.Proofs.Machine.Effects
import Chip8.Proofs.Machine.Events
import Chip8.Proofs.Machine.Ticks
import Chip8.Proofs.Machine.Invariant
import Chip8.Proofs.Machine.Faults
import Chip8.Proofs.Machine.Calls
import Chip8.Proofs.Machine.Lockstep
import Chip8.Proofs.Machine.Settings
import Chip8.Proofs.Machine.Runs
import Chip8.Proofs.Machine.StopDuringRun
import Chip8.Proofs.Machine.StopDuringReset
import Chip8.Proofs.Machine.Companions
import Chip8.Proofs.Machine.Resets
import Chip8.Proofs.Machine.DeadSlots
import Chip8.Proofs.Machine.Aliases
import Chip8.Proofs.Machine.Footprints
import Chip8.Proofs.Machine.Operations
import Chip8.Proofs.Machine.Stores
import Chip8.Proofs.Machine.Repaints
import Chip8.Proofs.Numeral.Digits
import Chip8.Proofs.Instruction.Assembly
import Chip8.Proofs.Listing.Painting
import Chip8.Proofs.Machine.Successors
import Chip8.Proofs.Registers.Arithmetic
import Chip8.Proofs.Screen.Collisions
import Chip8.Proofs.Machine.Transfers
import Chip8.Proofs.Machine.Loading
import Chip8.Proofs.Lines
import Chip8.Proofs.CommandLine.Disassembler
import Chip8.Proofs.CommandLine.Performance
import Chip8.Proofs.Screen.Pictures
import Chip8.Proofs.Screen.Counter
import Chip8.Proofs.Machine.Restored
import Chip8.Proofs.Snapshot
import Chip8.Proofs.Numeral.Addresses
