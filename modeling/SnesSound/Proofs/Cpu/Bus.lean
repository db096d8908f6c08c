import SnesSound.Cpu.Core
import SnesSound.Proofs.Dsp.RegisterFile

/-!
# The bus and its history

On its bus the CPU reads and writes, the host writes to ports, and time passes for the timers. Many addresses stand for
several things: a write reaches RAM and an I/O register, a read sees one of RAM, boot ROM and a register, and the two
directions of a port have latches of their own at the same address.

What a read returns is nevertheless determined by a short part of the history: one latch, register or byte of RAM holds
its latest value, and only a few kinds of events give it one. For each of them there is a lemma about a single event
(`control_happen`, `cpuRead_happen`, …) and from it one about a whole history.

Main statement: the bus obeys its history (`Core.obeys_history`).
-/

namespace SnesSound

/-- Something that happens to the CPU on its bus. -/
inductive BusEvent
  /-- The CPU reads a byte. -/
  | read (address : UInt16)
  /-- The CPU writes a byte. -/
  | write (address : UInt16) (value : UInt8)
  /-- The host writes to a port. -/
  | hostWrite (port : Fin 4) (value : UInt8)
  /-- Time passes. -/
  | pass (cycles : Nat)

/-! ## What events say about a latch -/

namespace BusEvent

open IoRegister

/-- The value that the CPU writes to a register. -/
def written (r : IoRegister) : BusEvent → Option UInt8
  | .write address value => if address = r.address then some value else none
  | _ => none

/-- The bit of CONTROL that zeroes what arrived at a port. -/
def clearBit : Fin 4 → Nat
  | 0 | 1 => 4
  | 2 | 3 => 5

/-- The value that arrives at a port: what the host writes to it, or zero if the CPU has it cleared. -/
def arrived (port : Fin 4) : BusEvent → Option UInt8
  | .hostWrite p value => if p = port then some value else none
  | .write address value => if address = control.address ∧ bit value (clearBit port) then some 0 else none
  | _ => none

/-- RAM after an event. -/
def onMemory (m : Memory) : BusEvent → Memory
  | .write address value => m.set address value
  | _ => m

/-- CONTROL and a timer after an event. -/
def onTimer (n : Fin 3) (c : Control × Timer) : BusEvent → Control × Timer
  | .read address => (c.1, if address = (timerOutput n).address then c.2.clearOutput else c.2)
  | .write address value =>
    if address = control.address then
      (⟨value⟩, if !c.1.timerEnabled n && (⟨value⟩ : Control).timerEnabled n then c.2.restart else c.2)
    else (c.1, if address = (timerDivisor n).address then { c.2 with divisor := value } else c.2)
  | .hostWrite .. => c
  | .pass cycles => (c.1, c.2.advance (Timers.period n) cycles (c.1.timerEnabled n))

/-- The writes to registers of the sound unit, each with the address that was selected for it. -/
def dspWrites (selected : UInt8) : List BusEvent → List (UInt8 × UInt8)
  | [] => []
  | e :: events =>
    ((written dspData e).map fun value => (selected, value)).toList ++
      dspWrites ((written dspAddress e).getD selected) events

end BusEvent

namespace Core

open BusEvent

/-- The core after an event. -/
def happen (s : Core) : BusEvent → Core
  | .read address => s.afterRead address
  | .write address value => s.write address value
  | .hostWrite port value => { s with cpu := { s.cpu with ports := s.cpu.ports.hostWrite port value } }
  | .pass cycles => s.pass cycles

variable (s : Core)

/-! ## Single events -/

theorem written_write (r : IoRegister) (address : UInt16) (value : UInt8) :
    written r (.write address value) =
      if IoRegister.ofAddress? address = some r then some value else none := by
  simp only [written, IoRegister.ofAddress?_eq_some_iff]

theorem memory_happen (e : BusEvent) : (s.happen e).memory = onMemory s.memory e := by
  cases e with
  | read address => exact memory_afterRead s address
  | write address value => exact memory_write s address value
  | hostWrite | pass => rfl

/-- What the CPU writes to CONTROL is the new value of CONTROL. -/
theorem control_happen (e : BusEvent) :
    (s.happen e).cpu.control.bits = (written .control e).getD s.cpu.control.bits := by
  cases e with
  | read address =>
    simp only [happen, afterRead]
    split <;> rfl
  | write address value =>
    rw [written_write]
    simp only [happen, write, writeIo]
    split <;> simp [*, Cpu.writeTest, Cpu.writeControl]
  | hostWrite | pass => rfl

theorem dspAddress_happen (e : BusEvent) :
    (s.happen e).cpu.dspAddress = (written .dspAddress e).getD s.cpu.dspAddress := by
  cases e with
  | read address =>
    simp only [happen, afterRead]
    split <;> rfl
  | write address value =>
    rw [written_write]
    simp only [happen, write, writeIo]
    split <;> simp [*, Cpu.writeTest, Cpu.writeControl]
  | hostWrite | pass => rfl

/-! ### Ports -/

theorem cpuRead_clear (ports : Ports) (n p : Fin 4) :
    (ports.clear n).cpuRead p = if n = p then 0 else ports.cpuRead p := by
  split
  next h => rw [h, Ports.clear, Ports.cpuRead_hostWrite_self]
  next h => exact Ports.cpuRead_hostWrite_of_ne ports 0 h

/-- Writing CONTROL zeroes what arrived at a port if the bit for the port is set. -/
theorem cpuRead_writeControl (c : Cpu) (value : UInt8) (p : Fin 4) :
    (c.writeControl value).ports.cpuRead p = if bit value (clearBit p) then 0 else c.ports.cpuRead p := by
  have h4 : (⟨value⟩ : Control).clearsPorts01 = bit value 4 := rfl
  have h5 : (⟨value⟩ : Control).clearsPorts23 = bit value 5 := rfl
  simp only [Cpu.writeControl, h4, h5]
  match p with
  | 0 | 1 | 2 | 3 => by_cases b4 : bit value 4 <;> by_cases b5 : bit value 5 <;> simp [clearBit, cpuRead_clear, b4, b5]

theorem hostRead_writeControl (c : Cpu) (value : UInt8) (p : Fin 4) :
    (c.writeControl value).ports.hostRead p = c.ports.hostRead p := by
  simp only [Cpu.writeControl]
  split <;> split <;> rfl

/-- What the host writes to a port arrives there, and what the CPU writes to it does not. -/
theorem cpuRead_happen (p : Fin 4) (e : BusEvent) :
    (s.happen e).cpu.ports.cpuRead p = (arrived p e).getD (s.cpu.ports.cpuRead p) := by
  cases e with
  | read address =>
    simp only [happen, afterRead]
    split <;> rfl
  | write address value =>
    simp only [arrived, ← IoRegister.ofAddress?_eq_some_iff, happen, write, writeIo]
    cases h : IoRegister.ofAddress? address with
    | none => rfl
    | some r =>
      cases r with
      | control =>
        simp only [cpuRead_writeControl, true_and]
        split <;> rfl
      | _ => rfl
  | hostWrite port value =>
    by_cases hp : port = p
    · simp [happen, arrived, hp]
    · simp [happen, arrived, hp, Ports.cpuRead_hostWrite_of_ne]
  | pass => rfl

/-- What the CPU writes to a port is sent, and what the host writes to it is not. -/
theorem hostRead_happen (p : Fin 4) (e : BusEvent) :
    (s.happen e).cpu.ports.hostRead p = (written (.port p) e).getD (s.cpu.ports.hostRead p) := by
  cases e with
  | read address =>
    simp only [happen, afterRead]
    split <;> rfl
  | write address value =>
    rw [written_write]
    simp only [happen, write, writeIo]
    cases h : IoRegister.ofAddress? address with
    | none => rfl
    | some r =>
      cases r with
      | control => exact hostRead_writeControl s.cpu value p
      | port n =>
        by_cases hn : n = p
        · simp [hn]
        · simp [hn, Ports.hostRead_cpuWrite_of_ne]
      | _ => rfl
  | hostWrite | pass => rfl

/-! ### Timers -/

theorem get_set_timer (ts : Timers) (k n : Fin 3) (t : Timer) :
    (ts.set k t k.isLt).get n = if k = n then t else ts.get n := by
  rw [get_eq_getElem, get_eq_getElem]
  by_cases h : k = n
  · simp [h]
  · have hne : k.val ≠ n.val := fun e => h (Fin.ext e)
    simp [h, hne]

/-- A timer sees its own registers, CONTROL and the time, and nothing else. -/
theorem timer_happen (n : Fin 3) (e : BusEvent) :
    ((s.happen e).cpu.control, (s.happen e).cpu.timers.get n) = onTimer n (s.cpu.control, s.cpu.timers.get n) e := by
  cases e with
  | read address =>
    simp only [onTimer, ← IoRegister.ofAddress?_eq_some_iff, happen, afterRead]
    split
    next k h =>
      simp only [h, get_set_timer, Option.some.injEq, IoRegister.timerOutput.injEq]
      by_cases hk : k = n <;> simp [hk]
    next h => rw [if_neg (h n)]
  | write address value =>
    simp only [onTimer, ← IoRegister.ofAddress?_eq_some_iff, happen, write, writeIo]
    cases h : IoRegister.ofAddress? address with
    | none => rfl
    | some r =>
      cases r with
      | control => simp [Cpu.writeControl, get_eq_getElem]
      | timerDivisor k =>
        simp only [get_set_timer, Option.some.injEq, IoRegister.timerDivisor.injEq]
        by_cases hk : k = n <;> simp [hk]
      | _ => rfl
  | hostWrite => rfl
  | pass cycles =>
    simp only [onTimer, happen, pass, Cpu.pass, Timers.advance, get_eq_getElem, Fin.getElem_fin,
      Vector.getElem_mapFinIdx]

/-! ### Registers of the sound unit -/

/-- A write to the data register is one to the register that is selected. -/
theorem registers_happen (e : BusEvent) :
    (s.happen e).registers =
      s.registers.writeAll ((written .dspData e).map fun value => (s.cpu.dspAddress, value)).toList := by
  cases e with
  | read address =>
    simp only [happen, afterRead]
    split <;> rfl
  | write address value =>
    rw [written_write]
    simp only [happen, write, writeIo]
    cases h : IoRegister.ofAddress? address with
    | none => rfl
    | some r => cases r <;> rfl
  | hostWrite | pass => rfl

/-! ## Histories -/

/-- The core after several events. -/
def happenAll (events : List BusEvent) : Core := events.foldl happen s

variable (events : List BusEvent)

/-- RAM holds what the CPU wrote, in order. -/
theorem memory_happenAll : (s.happenAll events).memory = events.foldl onMemory s.memory :=
  (List.foldl_hom memory fun s e => (memory_happen s e).symm).symm

theorem control_happenAll :
    (s.happenAll events).cpu.control.bits = latest (written .control) s.cpu.control.bits events :=
  foldl_latest happen (·.cpu.control.bits) _ control_happen s events

theorem dspAddress_happenAll :
    (s.happenAll events).cpu.dspAddress = latest (written .dspAddress) s.cpu.dspAddress events :=
  foldl_latest happen (·.cpu.dspAddress) _ dspAddress_happen s events

theorem cpuRead_happenAll (p : Fin 4) :
    (s.happenAll events).cpu.ports.cpuRead p = latest (arrived p) (s.cpu.ports.cpuRead p) events :=
  foldl_latest happen (·.cpu.ports.cpuRead p) _ (cpuRead_happen · p) s events

theorem hostRead_happenAll (p : Fin 4) :
    (s.happenAll events).cpu.ports.hostRead p = latest (written (.port p)) (s.cpu.ports.hostRead p) events :=
  foldl_latest happen (·.cpu.ports.hostRead p) _ (hostRead_happen · p) s events

theorem timer_happenAll (n : Fin 3) :
    ((s.happenAll events).cpu.control, (s.happenAll events).cpu.timers.get n) =
      events.foldl (onTimer n) (s.cpu.control, s.cpu.timers.get n) :=
  (List.foldl_hom (fun s : Core => (s.cpu.control, s.cpu.timers.get n)) fun s e => (timer_happen s n e).symm).symm

/-- The sound unit has seen the writes to its data register, each at the address that was selected. -/
theorem registers_happenAll :
    (s.happenAll events).registers = s.registers.writeAll (dspWrites s.cpu.dspAddress events) := by
  induction events generalizing s with
  | nil => rfl
  | cons e events ih =>
    change ((s.happen e).happenAll events).registers = _
    rw [ih, dspAddress_happen, registers_happen, dspWrites, Registers.writeAll_append]

/-! ## Reads -/

theorem peek_register (r : IoRegister) : s.peek r.address =
    match r with
    | .test | .control | .timerDivisor _ => 0
    | .dspAddress => s.cpu.dspAddress
    | .dspData => s.registers.read s.cpu.dspAddress
    | .port n => s.cpu.ports.cpuRead n
    | .timerOutput n => (s.cpu.timers.get n).output := by
  rw [peek, IoRegister.ofAddress?_address]
  cases r <;> rfl

/-- Where there is no register, the CPU reads memory. -/
theorem peek_memory {address : UInt16} (h : ∀ r : IoRegister, address ≠ r.address) :
    s.peek address = s.memory.read address s.cpu.control.bootRomEnabled := by
  have hnone : IoRegister.ofAddress? address = none := by
    apply Option.eq_none_iff_forall_ne_some.mpr
    intro r hr
    exact h r (IoRegister.ofAddress?_eq_some_iff.mp hr)
  rw [peek, hnone]

/-- The boot ROM lies behind all registers. -/
theorem rom_ne_register (i : Fin 64) (r : IoRegister) : bootRomStart + UInt16.ofNat i ≠ r.address := by
  intro h
  have hrom : ∀ i : Fin 64, IoRegister.ofAddress? (bootRomStart + UInt16.ofNat i) = none := by decide
  have hr := hrom i
  rw [h, IoRegister.ofAddress?_address] at hr
  cases hr

theorem read_rom (m : Memory) (i : Fin 64) (enabled : Bool) :
    m.read (bootRomStart + UInt16.ofNat i) enabled =
      if enabled then bootRom.get i else m.get (bootRomStart + UInt16.ofNat i) := by
  have hle : ∀ i : Fin 64, bootRomStart ≤ bootRomStart + UInt16.ofNat i := by decide
  have hsub : ∀ i : Fin 64, (bootRomStart + UInt16.ofNat i - bootRomStart).toNat = i.val := by decide
  cases enabled with
  | false => simp [Memory.read]
  | true =>
    rw [Memory.read, dif_pos ⟨rfl, hle i⟩]
    simp only [hsub, if_true]

theorem read_ram (m : Memory) {address : UInt16} (h : address < bootRomStart) (enabled : Bool) :
    m.read address enabled = m.get address := by
  rw [Memory.read, dif_neg fun hr => UInt16.not_le.mpr h hr.2]

/-- A read changes the counter that it reads, if it reads one, and nothing else that can be read. -/
theorem peek_afterRead (a b : UInt16) : (s.afterRead a).peek b =
    if a = b ∧ ∃ n, a = (IoRegister.timerOutput n).address then 0 else s.peek b := by
  unfold afterRead
  split
  next n h =>
    obtain rfl := IoRegister.ofAddress?_eq_some_iff.mp h
    by_cases hb : (IoRegister.timerOutput n).address = b
    · subst hb
      rw [if_pos ⟨rfl, n, rfl⟩, peek_register]
      simp only [get_set_timer, if_true]
      rfl
    · rw [if_neg fun hab => hb hab.1]
      unfold peek
      cases hr : IoRegister.ofAddress? b with
      | none => rfl
      | some r =>
        obtain rfl := IoRegister.ofAddress?_eq_some_iff.mp hr
        cases r with
        | timerOutput k =>
          have hk : n ≠ k := fun e => hb (e ▸ rfl)
          simp only [get_set_timer, if_neg hk]
        | _ => rfl
  next h =>
    rw [if_neg]
    rintro ⟨-, n, rfl⟩
    exact h n (IoRegister.ofAddress?_address _)

/-! ## The law of the bus -/

/-- What the events that a core `s` has seen say about the core `t` that it has become: what is in RAM, and what the
CPU and the host read. -/
structure Obeys (s : Core) (events : List BusEvent) (t : Core) : Prop where
  /-- RAM has every write of the CPU, also those to registers and behind the boot ROM, and nothing else. -/
  memory : t.memory = events.foldl onMemory s.memory
  /-- From a port the CPU reads what the host wrote or the zero of CONTROL, whatever is later, and nothing that it wrote
  there itself. -/
  port : ∀ p, t.peek (IoRegister.port p).address = latest (arrived p) (s.cpu.ports.cpuRead p) events
  /-- From a port the host reads what the CPU wrote. -/
  host : ∀ p, t.cpu.ports.hostRead p = latest (written (.port p)) (s.cpu.ports.hostRead p) events
  /-- The last 64 addresses read as the boot ROM while bit 7 of CONTROL is set and as RAM while it is not. -/
  rom : ∀ i : Fin 64, t.peek (bootRomStart + UInt16.ofNat i) =
    if bit (latest (written .control) s.cpu.control.bits events) 7 then bootRom.get i
    else t.memory.get (bootRomStart + UInt16.ofNat i)
  /-- The selected address can be read back. -/
  dspAddress : t.peek IoRegister.dspAddress.address = latest (written .dspAddress) s.cpu.dspAddress events
  /-- The data register reads as the selected register of the sound unit, in both halves of the addresses. -/
  dspData : t.peek IoRegister.dspData.address =
    t.registers.get (Registers.ofByte (latest (written .dspAddress) s.cpu.dspAddress events))
  /-- A register of the sound unit holds what was written while it was selected. -/
  registers : ∀ r, t.registers.get r =
    latest (Registers.stored r) (s.registers.get r) (dspWrites s.cpu.dspAddress events)
  /-- TEST, CONTROL and the divisors of the timers read as zero. -/
  zero : t.peek IoRegister.test.address = 0 ∧ t.peek IoRegister.control.address = 0 ∧
    ∀ n, t.peek (IoRegister.timerDivisor n).address = 0
  /-- The output of a timer reads as the counter that its own events have left. -/
  counter : ∀ n, t.peek (IoRegister.timerOutput n).address =
    (events.foldl (onTimer n) (s.cpu.control, s.cpu.timers.get n)).2.output
  /-- A read zeroes the counter that it reads and changes nothing else that can be read. -/
  read : ∀ a b, (t.afterRead a).peek b =
    if a = b ∧ ∃ n, a = (IoRegister.timerOutput n).address then 0 else t.peek b
  /-- All other addresses read as RAM. -/
  ram : ∀ a < bootRomStart, (∀ r : IoRegister, a ≠ r.address) → t.peek a = t.memory.get a

/-- The bus obeys its history: whatever has happened, what RAM holds and what the CPU and the host read are what the
latest events say. -/
theorem obeys_history : s.Obeys events (s.happenAll events) where
  memory := memory_happenAll s events
  port p := (peek_register ..).trans (cpuRead_happenAll s events p)
  host p := hostRead_happenAll s events p
  rom i := by
    rw [peek_memory _ (rom_ne_register i), read_rom, Control.bootRomEnabled, control_happenAll]
  dspAddress := (peek_register ..).trans (dspAddress_happenAll s events)
  dspData := by
    rw [peek_register, ← dspAddress_happenAll]
    rfl
  registers r := by
    rw [registers_happenAll]
    exact Registers.get_writeAll ..
  zero := ⟨peek_register .., peek_register .., fun n => peek_register ..⟩
  counter n := by
    rw [peek_register, ← timer_happenAll]
  read := peek_afterRead _
  ram a ha h := by
    rw [peek_memory _ h, read_ram _ ha]

end Core

end SnesSound
