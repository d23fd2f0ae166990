import Handheld.CommandLine.Transcript
import Handheld.Main
import Handheld.Proofs.Bus.Footprint
import Handheld.Proofs.Bus.JoypadHistory
import Handheld.Proofs.Cartridge.Checksum
import Handheld.Proofs.CommandLine.Addresses
import Handheld.Proofs.CommandLine.Dump
import Handheld.Proofs.Cpu.Assembly
import Handheld.Proofs.Cpu.Drain
import Handheld.Proofs.Cpu.EnableDelay
import Handheld.Proofs.Cpu.Shifts
import Handheld.Proofs.Cpu.WordAddition
import Handheld.Proofs.Debugger.Breakpoints
import Handheld.Proofs.Debugger.Ring
import Handheld.Proofs.Emulator.Executed
import Handheld.Proofs.Emulator.KeyDelivery
import Handheld.Proofs.Emulator.Observed
import Handheld.Proofs.Emulator.Pause
import Handheld.Proofs.Machine.Interchange
import Handheld.Proofs.Machine.LineRegister
import Handheld.Proofs.Machine.Lockstep
import Handheld.Proofs.Machine.Waking
import Handheld.Proofs.Pacing.Measurement
import Handheld.Proofs.Pacing.Readings
import Handheld.Proofs.Video.Failure
