import SnesSound.Main
import SnesSound.Player.Recording
import SnesSound.Proofs.Boot.Astray
import SnesSound.Proofs.Checked.Session
import SnesSound.Proofs.Cpu.Bus
import SnesSound.Proofs.Dsp.Resample
import SnesSound.Proofs.Dsp.SoundUnit
import SnesSound.Proofs.Player.Sink
import SnesSound.Proofs.Session.Calls
import SnesSound.Proofs.Session.Drift
import SnesSound.Proofs.Session.Mask
import SnesSound.Proofs.Snapshot.Agree
import SnesSound.Proofs.Snapshot.Clear
import SnesSound.Proofs.Session.Halted
import SnesSound.Proofs.Boot.Waiting
import SnesSound.Proofs.Dsp.KeyOff
import SnesSound.Proofs.Dsp.Rate
import SnesSound.Proofs.Dsp.Envelope
import SnesSound.Proofs.Dsp.Retrigger
import SnesSound.Proofs.Dsp.SoftReset
import SnesSound.Proofs.Snapshot.Tag
import SnesSound.Proofs.Dsp.Influence
import SnesSound.Proofs.Dsp.Convolution
import SnesSound.Proofs.Dsp.Predictor
import SnesSound.Proofs.Session.Timers
import SnesSound.Proofs.Cpu.Stack
import SnesSound.Proofs.Cpu.Division
import SnesSound.Proofs.Cpu.Operation
import SnesSound.Proofs.Cpu.Carry
import SnesSound.Proofs.Cpu.Decimal
import SnesSound.Proofs.Cpu.Flags
import SnesSound.Proofs.Cpu.Turns
import SnesSound.Proofs.Dsp.Period
import SnesSound.Proofs.Dsp.Sheet
import SnesSound.Proofs.Dsp.Interpolation
