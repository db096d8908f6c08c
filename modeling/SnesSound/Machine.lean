import SnesSound.Cpu.Run
import SnesSound.Dsp

/-!
# The machine

The CPU and the sound unit side by side, sharing audio RAM and the registers of the sound unit.
-/

namespace SnesSound

/-- The complete sound subsystem. -/
structure Machine extends Core where
  dsp : Dsp := {}

namespace Machine

/-- CPU cycles per output frame. -/
def cyclesPerFrame : Nat := 32

/-- The machine after power-on. -/
def powerOn : Machine := { cpu := .powerOn .powerOn, memory := .powerOn }

instance : Inhabited Machine := ⟨powerOn⟩

/-- Runs the CPU. No cycles are no run at all. -/
def runCpu (m : Machine) (cycles : Nat) : Machine :=
  if cycles = 0 then m else { m with toCore := m.toCore.run cycles }

/-- Produces one frame, without the voices in `mask`. -/
def tick (m : Machine) (mask : UInt8) : Frame × Machine :=
  let ⟨⟨cpu, memory, registers⟩, dsp⟩ := m
  let (frame, dsp, registers, memory) := dsp.tick registers memory mask
  (frame, { cpu, memory, registers, dsp })

/-- Produces `n` frames behind those in `frames`, each followed by its share of CPU cycles. -/
def produce (mask : UInt8) : Nat → Machine → Array Frame → Machine × Array Frame
  | 0, m, frames => (m, frames)
  | n + 1, m, frames =>
    let (frame, m) := m.tick mask
    produce mask n (m.runCpu cyclesPerFrame) (frames.push frame)

@[simp] theorem size_produce (mask : UInt8) (n : Nat) (m : Machine) (frames : Array Frame) :
    (produce mask n m frames).2.size = frames.size + n := by
  induction n generalizing m frames with
  | zero => rfl
  | succ n ih =>
    simp only [produce, ih, Array.size_push]
    omega

end Machine

end SnesSound
