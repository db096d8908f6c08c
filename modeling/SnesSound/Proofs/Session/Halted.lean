import SnesSound.Proofs.Cpu.Timer
import SnesSound.Proofs.Dsp.SoundUnit
import SnesSound.Proofs.Session.Calls
import SnesSound.Proofs.Session.Progress
import SnesSound.Proofs.Snapshot.Encode

/-!
# Sessions whose CPU has been halted

SLEEP and STOP halt the CPU for good. Time goes on to pass for its timers, but it executes nothing, so there is nobody
left to write to RAM, to the registers of the sound unit or to the latches that the host reads: what goes on is the
sound unit, by itself.

What a stretch of time makes of such a session is stated as a relation to the session before it (`Idles`), which holds
of single cycles and of writes to ports and is put together along cycles and along calls.

Main statement: a halted CPU stays as it is and leaves only the sound unit running (`halted_stays_halted`).
-/

namespace SnesSound

/-! ## What is left to a halted CPU -/

/-- What a halted CPU keeps: everything but its budget, the cycles it has used, how far its timers have counted, and
the latches that the host writes. -/
structure Cpu.Held extends RegisterSet where
  runState : RunState
  test : UInt8
  control : Control
  dspAddress : UInt8
  divisors : Vector UInt8 3
  /-- Latches that the host reads. -/
  toHost : Vector UInt8 4
  notices : Array Notice

/-- The part of the CPU that stays once it has been halted. -/
def Cpu.held (c : Cpu) : Cpu.Held where
  toRegisterSet := c.toRegisterSet
  runState := c.runState
  test := c.test
  control := c.control
  dspAddress := c.dspAddress
  divisors := c.timers.map Timer.divisor
  toHost := c.ports.toHost
  notices := c.notices

/-- Timers count towards the divisors that they have. -/
theorem Timers.divisor_advance (ts : Timers) (cycles : Nat) (control : Control) :
    (ts.advance cycles control).map Timer.divisor = ts.map Timer.divisor := by
  apply Vector.ext
  intro i hi
  simp only [advance, Vector.getElem_map, Vector.getElem_mapFinIdx, Timer.divisor_advance]

theorem Cpu.held_pass (c : Cpu) (cycles : Nat) : (c.pass cycles).held = c.held := by
  rw [held, held, pass, Timers.divisor_advance]

/-- SLEEP and STOP halt the CPU. -/
theorem Core.runState_step_of_halt {s : Core} (h : s.peek s.cpu.pc = 0xEF ∨ s.peek s.cpu.pc = 0xFF) :
    s.step.2.cpu.runState ≠ .running := by
  have hnext : s.step.2.cpu.runState = ((((Opcode.decode (s.peek s.cpu.pc)).execute : Exec Bool)
      ((Processor.fetch : Exec UInt8) s).2).2).cpu.runState := rfl
  rw [hnext]
  rcases h with h | h <;> rw [h] <;> exact nofun

namespace Machine

/-- The sound unit of a machine, with its registers and RAM. -/
def soundUnit (m : Machine) : SoundUnit := { dsp := m.dsp, registers := m.registers, memory := m.memory }

/-- A cycle of a halted CPU pays for what was overdrawn or goes by. -/
theorem runCpu_one_of_halted {m : Machine} (h : m.OnTime) (hr : m.cpu.runState ≠ .running) :
    (m.runCpu 1).cpu.held = m.cpu.held ∧ (m.runCpu 1).soundUnit = m.soundUnit ∧
      (m.runCpu 1).cpu.budget = min (m.cpu.budget + 1) 0 := by
  have hle := h.2
  by_cases hb : m.cpu.budget < 0
  · have hbudget : (m.withBudget (m.cpu.budget + 1)).cpu.budget = m.cpu.budget + 1 := rfl
    rw [runCpu_one_of_neg h hb, hbudget]
    exact ⟨rfl, rfl, by omega⟩
  · have hzero : m.cpu.budget = 0 := Int.le_antisymm hle (Int.not_lt.mp hb)
    have hone : m.cpu.budget + (1 : Nat) = 1 := by
      rw [hzero]
      rfl
    have hmax : ((1 : Nat) : Int) ≤ Core.maxBudget := by decide
    have hrun := Core.run_eq_spend (s := m.toCore) hle hmax
    rw [runCpu, if_neg (by decide), hrun, hone, Core.spend_of_halted (by decide) hr, hzero]
    exact ⟨m.cpu.held_pass 1, rfl, rfl⟩

end Machine

namespace Session

/-- What `time` cycles have made of the halted session `s`: the CPU keeps what it holds and pays for what it had
overdrawn, and the sound unit has made a tick under each of the masks, whose frames are the audio. -/
structure Idles (s : Session) (masks : List UInt8) (audio : ByteArray) (time : Nat) (t : Session) : Prop where
  held : t.machine.cpu.held = s.machine.cpu.held
  soundUnit : t.machine.soundUnit = s.machine.soundUnit.after masks
  audio : audio = Frame.encode (s.machine.soundUnit.frames masks).toArray
  budget : t.machine.cpu.budget = min (s.machine.cpu.budget + time) 0

variable {s t v : Session} {calls : List Call}

namespace Idles

theorem runState {masks : List UInt8} {audio : ByteArray} {time : Nat} (h : Idles s masks audio time t) :
    t.machine.cpu.runState = s.machine.cpu.runState := congrArg Cpu.Held.runState h.held

/-- No time has passed. -/
theorem of_eq (h : s.OnTime) (held : t.machine.cpu.held = s.machine.cpu.held)
    (soundUnit : t.machine.soundUnit = s.machine.soundUnit)
    (budget : t.machine.cpu.budget = s.machine.cpu.budget) : Idles s [] .empty 0 t := by
  have hle := h.machine.2
  exact ⟨held, soundUnit, rfl, by omega⟩

/-- Time after time. -/
theorem trans {masks masks' : List UInt8} {audio audio' : ByteArray} {time time' : Nat}
    (h : Idles s masks audio time t) (h' : Idles t masks' audio' time' v) :
    Idles s (masks ++ masks') (audio ++ audio') (time + time') v where
  held := h'.held.trans h.held
  soundUnit := by rw [h'.soundUnit, h.soundUnit, SoundUnit.after_append]
  audio := by
    rw [h'.audio, h.audio, h.soundUnit, SoundUnit.frames_append, ← List.append_toArray, Frame.encode_append]
  budget := by
    have hfirst := h.budget
    have hlast := h'.budget
    omega

end Idles

/-! ## Cycles -/

/-- A cycle that begins a frame makes a tick of the sound unit. -/
theorem idles_begin (h : s.OnTime) (hr : s.machine.cpu.runState ≠ .running) :
    Idles s [s.channelMask] (Frame.encode #[(s.machine.tick s.channelMask).1]) 1
      { s with machine := (s.machine.tick s.channelMask).2.runCpu 1, owed := Machine.cyclesPerFrame - 1 } := by
  obtain ⟨hheld, hunit, hbudget⟩ := Machine.runCpu_one_of_halted (h.machine.tick s.channelMask) hr
  exact ⟨hheld, hunit, rfl, hbudget⟩

/-- A cycle that pays for one that is owed does not. -/
theorem idles_pay (h : s.OnTime) (hr : s.machine.cpu.runState ≠ .running) :
    Idles s [] .empty 1 { s with machine := s.machine.runCpu 1, owed := s.owed - 1 } := by
  obtain ⟨hheld, hunit, hbudget⟩ := Machine.runCpu_one_of_halted h.machine hr
  exact ⟨hheld, hunit, rfl, hbudget⟩

/-- Cycles leave nothing but the sound unit running. -/
theorem idles_elapse (h : s.OnTime) (hr : s.machine.cpu.runState ≠ .running) (n : Nat) :
    Idles s (.replicate (s.elapse n).2.size s.channelMask) (Frame.encode (s.elapse n).2) n (s.elapse n).1 := by
  refine (h.elapse_induction (P := fun n t frames => t.channelMask = s.channelMask ∧
    Idles s (.replicate frames.size s.channelMask) (Frame.encode frames) n t) ?_ ?_ ?_ n).2
  · exact ⟨rfl, .of_eq h rfl rfl rfl⟩
  · rintro n t frames ht h0 ⟨hmask, ih⟩
    refine ⟨hmask, ?_⟩
    rw [← hmask] at ih ⊢
    rw [Array.size_push, List.replicate_succ', ← Array.append_singleton, Frame.encode_append]
    exact ih.trans (idles_begin ht (ih.runState ▸ hr))
  · rintro n t frames ht hpos ⟨hmask, ih⟩
    have hnext := ih.trans (idles_pay ht (ih.runState ▸ hr))
    rw [List.append_nil, ByteArray.append_empty] at hnext
    exact ⟨hmask, hnext⟩

/-! ## Calls -/

/-- A call that loads nothing leaves nothing but the sound unit running. -/
theorem idles_perform (h : s.OnTime) (hr : s.machine.cpu.runState ≠ .running) {call : Call}
    (hload : call.loads = false) : Idles s (s.masks call) (s.audio call) (s.asked call) (s.perform call) := by
  cases call with
  | load => exact Bool.noConfusion hload
  | run maxCycles maxBytes =>
    rw [masks_run h, audio_run h, perform_run h]
    exact idles_elapse h hr _
  | writePort number data =>
    rcases s.perform_writePort number data with he | ⟨p, -, he⟩ <;> rw [he]
    · exact .of_eq h rfl rfl rfl
    · exact .of_eq h rfl rfl rfl
  | readPort | mute => exact .of_eq h rfl rfl rfl

/-- So do calls one after the other. -/
theorem idles_performAll (h : s.OnTime) (hr : s.machine.cpu.runState ≠ .running)
    (hload : ∀ call ∈ calls, call.loads = false) :
    Idles s (s.masksAll calls) (s.audioAll calls) (s.askedAll calls) (s.performAll calls) := by
  induction calls generalizing s with
  | nil => exact .of_eq h rfl rfl rfl
  | cons call calls ih =>
    rw [List.forall_mem_cons] at hload
    have hfirst := idles_perform h hr hload.1
    exact hfirst.trans (ih (h.perform hload.1) (hfirst.runState ▸ hr) hload.2)

/-- What the host reads from the ports is what the CPU left there. -/
theorem readPort_of_held (h : t.machine.cpu.held = s.machine.cpu.held) (number : Nat) :
    t.readPort number = s.readPort number := by
  have hports : t.machine.cpu.ports.hostRead = s.machine.cpu.ports.hostRead :=
    congrArg Vector.get (congrArg Cpu.Held.toHost h)
  rw [readPort, readPort, hports]

/-- A CPU that has executed SLEEP or STOP stays halted and leaves only the sound unit running. Whatever calls the host
has made `before` since the session was created or loaded, which is how it gets to any session
(`Reachable.exists_performAll`), and whatever calls it makes `after` that load nothing: the CPU keeps what it holds, so
that the host goes on reading the same from the ports; the sound unit makes its ticks by itself, one under each mask,
and the audio consists of its frames; RAM changes only where the delay line has its current frame, and only while it is
not read-only. The cycles that the CPU has used are those that were asked for and at most 11 more, and no more from the
time on when those that the last instruction has overdrawn have been paid for. -/
theorem halted_stays_halted {s₀ : Session} (h : Fresh s₀) {before after : List Call}
    (hload : ∀ call ∈ before ++ after, call.loads = false)
    (hhalt : (s₀.performAll before).machine.cpu.runState ≠ .running) :
    let s := s₀.performAll before
    let t := s.performAll after
    let masks := s.masksAll after
    let time := s₀.askedAll (before ++ after)
    t.machine.cpu.held = s.machine.cpu.held ∧
      (∀ number, t.readPort number = s.readPort number) ∧
      t.machine.soundUnit = s.machine.soundUnit.after masks ∧
      s.audioAll after = Frame.encode (s.machine.soundUnit.frames masks).toArray ∧
      (∀ a, (∀ k < masks.length, (s.machine.soundUnit.after (masks.take k)).registers.echoReadOnly = true ∨
          ¬Within (s.machine.soundUnit.after (masks.take k)).frameAddress 4 a) →
        t.machine.memory.get a = s.machine.memory.get a) ∧
      time ≤ t.totalCycles ∧ t.totalCycles ≤ time + 11 ∧ (s.totalCycles ≤ time → t.totalCycles = time) := by
  intro s t masks time
  obtain ⟨hs₀, -, hcycles, hbudget⟩ := h.start
  have hbefore : ∀ call ∈ before, call.loads = false := fun call hc => hload call (List.mem_append_left _ hc)
  have hafter : ∀ call ∈ after, call.loads = false := fun call hc => hload call (List.mem_append_right _ hc)
  have hs : s.OnTime := hs₀.performAll hbefore
  have hidles : Idles s masks (s.audioAll after) (s.askedAll after) t := idles_performAll hs hhalt hafter
  have hmemory : t.machine.memory = (s.machine.soundUnit.after masks).memory :=
    congrArg SoundUnit.memory hidles.soundUnit
  have htime : time = s₀.askedAll before + s.askedAll after := s₀.askedAll_append before after
  have hspent := cycles_performAll hs₀ hbefore
  have hspent' := cycles_performAll hs hafter
  have hlow := (hs.performAll hafter).machine.1
  have hpaid := hidles.budget
  rw [hcycles, hbudget] at hspent
  refine ⟨hidles.held, readPort_of_held hidles.held, hidles.soundUnit, hidles.audio, fun a ha => ?_, ?_⟩
  · rw [hmemory]
    exact SoundUnit.get_memory_after _ masks ha
  · change (s.totalCycles : Int) + s.machine.cpu.budget = (0 : Nat) + 0 + s₀.askedAll before at hspent
    change (t.totalCycles : Int) + t.machine.cpu.budget = s.totalCycles + s.machine.cpu.budget + _ at hspent'
    change -11 ≤ t.machine.cpu.budget at hlow
    omega

/-- A program that consists of SLEEP is halted by its first cycle. -/
theorem halted_stays_halted_first_cycle :
    ∃ s₀, ({} : Session).load (SpcFile.encode { pc := 0x200 } (Memory.zero.set 0x200 0xEF)
        (Registers.zero.store Register.flg 0x20)) = .ok s₀ ∧
      let s := s₀.performAll [.run (some 1) 4]
      let t := s.performAll [.writePort 0 5, .mute 1, .run none 8]
      s.machine.cpu.runState ≠ .running ∧ t.machine.cpu.held = s.machine.cpu.held ∧
        s₀.askedAll [.run (some 1) 4, .writePort 0 5, .mute 1, .run none 8] ≤ t.totalCycles := by
  have hload := load_encode {} { pc := 0x200 } (Memory.zero.set 0x200 0xEF) (Registers.zero.store Register.flg 0x20)
  refine ⟨_, hload, ?_⟩
  generalize hs₀ : ({} : Session).install _ = s₀
  have hfresh : Fresh s₀ := hs₀ ▸ .loaded hload
  have honTime : s₀.OnTime := hfresh.start.1
  have hhalt : (s₀.performAll [.run (some 1) 4]).machine.cpu.runState ≠ .running := by
    have hasked : s₀.asked (.run (some 1) 4) = 1 := by
      subst hs₀
      decide
    have hrun : s₀.performAll [.run (some 1) 4] = (s₀.elapse 1).1 := (perform_run honTime _ _).trans (by rw [hasked])
    have howed : s₀.owed = 0 := hfresh.start.2.1
    have hmemory : (s₀.machine.tick s₀.channelMask).2.memory = Memory.zero.set 0x200 0xEF := by
      subst hs₀
      exact Dsp.memory_tick_of_readOnly _ _ _ (by decide)
    have hsleep : (s₀.machine.tick s₀.channelMask).2.toCore.peek 0x200 = 0xEF := by
      change (s₀.machine.tick s₀.channelMask).2.memory.read 0x200 _ = 0xEF
      rw [hmemory, Memory.read, dif_neg fun hr => absurd hr.2 (by decide)]
      exact Memory.get_set_self ..
    have hpc : s₀.machine.cpu.pc = 0x200 := by
      subst hs₀
      rfl
    have hrunning : s₀.machine.cpu.runState = .running := by
      subst hs₀
      rfl
    have hbudget : s₀.machine.cpu.budget = 0 := hfresh.start.2.2.2
    rw [hrun, elapse, Function.iterate_one, cycle_of_owed_eq_zero howed]
    rw [Machine.runCpu_one_of_zero (m := (s₀.machine.tick s₀.channelMask).2) hrunning hbudget]
    exact Core.runState_step_of_halt (.inl ((congrArg _ hpc).trans hsleep))
  have hcalls : ∀ call ∈ [Call.run (some 1) 4] ++ [.writePort 0 5, .mute 1, .run none 8], call.loads = false := by
    decide
  have hmain := halted_stays_halted hfresh hcalls hhalt
  exact ⟨hhalt, hmain.1, hmain.2.2.2.2.2.1⟩

end Session

end SnesSound
