import SnesSound.Proofs.Dsp.Tick

/-!
# The sound unit with its registers and RAM

A tick works on three things: what the sound unit keeps to itself, its registers, and audio RAM. Taken together they go
on by themselves from tick to tick as long as nobody writes to the registers or to RAM.

Main statement: ticks change RAM only where the delay line has its current frame (`get_memory_after`).
-/

namespace SnesSound

/-- The sound unit with its registers and RAM. -/
structure SoundUnit where
  dsp : Dsp
  registers : Registers
  memory : Memory

namespace SoundUnit

/-- One tick. Returns its frame. -/
def tick (u : SoundUnit) (mask : UInt8) : Frame × SoundUnit :=
  let (frame, dsp, registers, memory) := u.dsp.tick u.registers u.memory mask
  (frame, { dsp, registers, memory })

/-- The sound unit after a tick under each of the masks, one after the other. -/
def after (u : SoundUnit) (masks : List UInt8) : SoundUnit := masks.foldl (fun u mask => (u.tick mask).2) u

/-- The frames of these ticks. -/
def frames : SoundUnit → List UInt8 → List Frame
  | _, [] => []
  | u, mask :: masks => (u.tick mask).1 :: (u.tick mask).2.frames masks

/-- The address of the current frame of the delay line. -/
def frameAddress (u : SoundUnit) : UInt16 := u.dsp.echo.address u.registers

theorem after_cons (u : SoundUnit) (mask : UInt8) (masks : List UInt8) :
    u.after (mask :: masks) = (u.tick mask).2.after masks := List.foldl_cons ..

theorem after_append (u : SoundUnit) (xs ys : List UInt8) : u.after (xs ++ ys) = (u.after xs).after ys :=
  List.foldl_append

theorem frames_append (u : SoundUnit) (xs ys : List UInt8) :
    u.frames (xs ++ ys) = u.frames xs ++ (u.after xs).frames ys := by
  induction xs generalizing u with
  | nil => rfl
  | cons mask xs ih => rw [List.cons_append, frames, frames, ih, after_cons, List.cons_append]

/-- Ticks change RAM only where the delay line has its current frame, and only while it is not read-only. -/
theorem get_memory_after (u : SoundUnit) (masks : List UInt8) {a : UInt16}
    (h : ∀ k < masks.length, (u.after (masks.take k)).registers.echoReadOnly = true ∨
      ¬Within (u.after (masks.take k)).frameAddress 4 a) : (u.after masks).memory.get a = u.memory.get a := by
  induction masks generalizing u with
  | nil => rfl
  | cons mask masks ih =>
    have hstart : u.registers.echoReadOnly = true ∨ ¬Within u.frameAddress 4 a := h 0 (Nat.succ_pos _)
    have hfirst : (u.tick mask).2.memory.get a = u.memory.get a := by
      rcases hstart with hreadOnly | hwithin
      · exact congrArg (Memory.get · a) (Dsp.memory_tick_of_readOnly u.dsp u.memory mask hreadOnly)
      · exact Dsp.get_memory_tick_of_not_within u.dsp mask hwithin
    rw [after_cons, ← hfirst]
    refine ih (u.tick mask).2 fun k hk => ?_
    have hnext := h (k + 1) (Nat.succ_lt_succ hk)
    rwa [List.take_succ_cons, after_cons] at hnext

/-! ## Sound units that a program can get to -/

/-- A write of the CPU to a register. -/
def write (u : SoundUnit) (address value : UInt8) : SoundUnit :=
  { u with registers := u.registers.write address value }

/-- The sound units that ticks and writes to registers and RAM lead to. -/
inductive Reachable : SoundUnit → Prop
  /-- A new sound unit, with any registers and any RAM. -/
  | new (registers : Registers) (memory : Memory) : Reachable ⟨{}, registers, memory⟩
  | tick {u : SoundUnit} (mask : UInt8) (h : Reachable u) : Reachable (u.tick mask).2
  | write {u : SoundUnit} (address value : UInt8) (h : Reachable u) : Reachable (u.write address value)
  | memory {u : SoundUnit} (m : Memory) (h : Reachable u) : Reachable { u with memory := m }

/-- Ticks lead from sound units that a program can get to to others. -/
theorem Reachable.after {u : SoundUnit} (h : Reachable u) (masks : List UInt8) : Reachable (u.after masks) := by
  induction masks generalizing u with
  | nil => exact h
  | cons mask masks ih =>
    rw [after_cons]
    exact ih (h.tick mask)

end SoundUnit

end SnesSound
