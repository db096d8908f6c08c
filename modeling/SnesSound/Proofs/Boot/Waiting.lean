import SnesSound.Proofs.Boot.Astray
import SnesSound.Proofs.Dsp.Silent
import SnesSound.Proofs.Session.Calls

/-!
# New sessions without a request

Until a host asks the boot program of a new session for something, the program clears page 0, announces itself and
waits, while the sound unit is at rest. The announcement comes when the CPU has used 2404 cycles, whatever else the host
does in the meantime: it may divide the time in any way, write to other ports, and write anything but the command `CC`
to port 0.

The cycles that the CPU has used and those that the program needs until its announcement always make 2404; this is the
invariant that carries the time of the announcement.

Main statement: a new session that is not asked for anything waits silently (`waits_silently`).
-/

namespace SnesSound

/-- Whether a call leaves the boot program waiting: it loads nothing, and it does not write the command `CC` to
port 0. -/
def Call.Quiet : Call → Prop
  | .load _ => False
  | .writePort number data => number = 0 → data.toInt % 256 ≠ 0xCC
  | _ => True

theorem Call.Quiet.loads {call : Call} (h : call.Quiet) : call.loads = false := by
  cases call with
  | load => exact h.elim
  | _ => rfl

namespace Frame

/-- Silence is encoded as zeros. -/
theorem encode_silence {frames : Array Frame} (h : ∀ frame ∈ frames, frame = .both 0) :
    ∀ b ∈ (encode frames).data, b = 0 := by
  rw [encode, ← Array.foldl_toList]
  refine List.foldlRecOn (motive := fun bytes : ByteArray => ∀ b ∈ bytes.data, b = 0) _ _
    (fun b hb => absurd hb (Array.not_mem_empty b)) fun bytes hbytes frame hframe b hb => ?_
  rw [h frame (Array.mem_toList_iff.mp hframe)] at hb
  have hpushed : b ∈ (((bytes.data.push 0).push 0).push 0).push 0 := hb
  simp only [Array.mem_push] at hpushed
  rcases hpushed with (((hold | rfl) | rfl) | rfl) | rfl
  · exact hbytes b hold
  all_goals rfl

end Frame

namespace Boot

/-! ## Nothing is uploaded -/

/-- RAM as far as the program keeps it as it was when the power was switched on, until there is a request. -/
def noUpload : Delivery where
  destination := 0
  data := []
  holds
    | .unknown, m => ∀ a, ¬Scratch a → m.get a = Memory.powerOn.get a
    | _, _ => True
  unknown_set {m a} value h ha b hb := by
    have hne : a ≠ b := by
      rintro rfl
      exact hb ha
    exact (Memory.get_set_of_ne _ _ hne).trans (h b hb)
  ready_zero _ := trivial
  ready_set _ _ := trivial
  plain _ hk := absurd hk (by simp)
  placed_set _ _ := trivial
  ready_of_placed _ _ := trivial
  ready_of_placed_of_zero _ _ _ := trivial

/-- A sound unit at rest whose delay line is the first four bytes of RAM. -/
structure Resting (r : Registers) (d : Dsp) : Prop where
  silent : d.Silent r
  overlaid : Overlaid r d

theorem harmless_resting : Harmless noUpload Resting where
  tick m mask h := ⟨h.silent.tick m mask, h.overlaid.tick m mask⟩
  ram {r d m f} mask h hram := by
    cases f with
    | unknown =>
      intro a ha
      have hout : 4 ≤ a.toNat := by
        unfold Scratch at ha
        omega
      exact (h.overlaid.get_tick m mask hout).trans (hram a ha)
    | ready | placed => trivial

/-! ## What the host does in the meantime -/

/-- Only numbers congruent to 204 are the command `CC` as a byte. -/
theorem ofInt_ne_command {data : Int} (h : data % 256 ≠ 0xCC) : UInt8.ofInt data ≠ 0xCC := by
  intro he
  have hbyte := toNat_ofInt data
  rw [he] at hbyte
  exact h hbyte.symm

/-- Whether the value of a write to a port is no request. -/
def NoRequest (p : Fin 4) (value : UInt8) : Prop := p = 0 → value ≠ 0xCC

section Cores

variable {u : Delivery} {r : Registers} {s : Core} {p : Fin 4} {value : UInt8}

theorem cpuRead_hostWrite_ne (h : s.cpu.ports.cpuRead 0 ≠ 0xCC) (hw : NoRequest p value) :
    (s.cpu.ports.hostWrite p value).cpuRead 0 ≠ 0xCC := by
  by_cases hp : p = 0
  · subst hp
    rw [Ports.cpuRead_hostWrite_self]
    exact hw rfl
  · rw [Ports.cpuRead_hostWrite_of_ne _ _ hp]
    exact h

theorem Starting.hostWrite {n : Nat} (h : Starting u r n s) (hw : NoRequest p value) :
    Starting u r n { s with cpu := { s.cpu with ports := s.cpu.ports.hostWrite p value } } :=
  ⟨⟨h.boots.running, h.boots.rom, h.boots.page⟩, h.registers, cpuRead_hostWrite_ne h.quiet hw, h.silent, h.ram,
    h.clears⟩

theorem Listening.hostWrite (h : Listening u r s) (hw : NoRequest p value) :
    Listening u r { s with cpu := { s.cpu with ports := s.cpu.ports.hostWrite p value } } :=
  ⟨⟨h.boots.running, h.boots.rom, h.boots.page⟩, h.registers, cpuRead_hostWrite_ne h.quiet hw, h.announced, h.ram,
    h.polls⟩

/-- The program needs time for its announcement. -/
theorem Clears.pos {shown : UInt8} {c : RegisterSet} {n : Nat} (h : Clears shown c n) : 0 < n := by
  cases h <;> omega

theorem Clears.pc_mem {shown : UInt8} {c : RegisterSet} {n : Nat} (h : Clears shown c n) :
    0xFFC0 ≤ c.pc ∧ c.pc ≤ 0xFFD3 := by
  cases h <;> rw [‹c.pc = _›] <;> decide

theorem Listening.pc_mem (h : Listening u r s) : 0xFFC0 ≤ s.cpu.pc ∧ s.cpu.pc ≤ 0xFFD3 := by
  rcases h.polls with hpc | ⟨hpc, -⟩ <;> rw [hpc] <;> decide

end Cores

/-! ## Machines that wait -/

/-- A machine on its way to the announcement, at a known time, or one that waits for a request. -/
inductive Waits (m : Machine) : Prop
  | starting (n : Nat) (h : In Resting (fun r => Starting noUpload r n) m) (time : m.cpu.cycles + n = 2404)
  | listening (h : In Resting (Listening noUpload) m)

namespace Waits

variable {m : Machine}

theorem resting (h : Waits m) : Resting m.registers m.dsp := by
  cases h with
  | starting n h => exact h.sound
  | listening h => exact h.sound

theorem invariant : Machine.Invariant Waits where
  running h := by
    cases h with
    | starting n h => exact h.program.boots.running
    | listening h => exact h.program.boots.running
  stepCpu {m} h := by
    cases h with
    | starting n h time =>
      have hcycles : m.stepCpu.cpu.cycles = m.cpu.cycles + m.toCore.step.1 := m.toCore.cycles_step
      rcases h.program.step with ⟨hend, -⟩ | ⟨k, hn, hnear⟩
      · exact .listening (h.stepCpu Listening.stage hend)
      · exact .starting k (h.stepCpu (Starting.stage k) hnear) (by omega)
    | listening h => exact .listening (h.stepCpu Listening.stage h.program.step)
  withBudget budget h := by
    cases h with
    | starting n h time => exact .starting n (h.withBudget (Starting.stage n) budget) time
    | listening h => exact .listening (h.withBudget Listening.stage budget)
  tick mask h := by
    cases h with
    | starting n h time => exact .starting n (h.tick harmless_resting (Starting.stage n) mask) time
    | listening h => exact .listening (h.tick harmless_resting Listening.stage mask)

/-- After 2404 cycles the announcement has been made. -/
theorem announced (h : Waits m) (htime : 2404 ≤ m.cpu.cycles) :
    m.cpu.ports.hostRead 0 = 0xAA ∧ m.cpu.ports.hostRead 1 = 0xBB := by
  cases h with
  | starting n h time =>
    have hpos := h.program.clears.pos
    omega
  | listening h => exact h.program.announced

theorem pc_mem (h : Waits m) : 0xFFC0 ≤ m.cpu.pc ∧ m.cpu.pc ≤ 0xFFD3 := by
  cases h with
  | starting n h => exact h.program.clears.pc_mem
  | listening h => exact h.program.pc_mem

theorem ram (h : Waits m) : noUpload.holds .unknown m.memory := by
  cases h with
  | starting n h => exact h.program.ram
  | listening h => exact h.program.ram

end Waits

/-! ## Sessions that wait -/

/-- A session on time whose machine waits. -/
structure Idle (s : Session) : Prop where
  onTime : s.OnTime
  waits : Waits s.machine

namespace Idle

variable {s : Session} {calls : List Call}

theorem new : Idle {} :=
  have hvoices (i : Fin 8) : ((Vector.replicate 8 ({} : Voice)).get i).Silent := by
    rw [get_eq_getElem, Fin.getElem_fin, Vector.getElem_replicate]
    exact ⟨rfl, rfl⟩
  have hstarting := atReset_new.starting (u := noUpload) (T := Resting)
    ⟨⟨rfl, fun i => hvoices i⟩, overlaid_new⟩ fun _ _ => rfl
  ⟨hstarting.onTime, .starting 2404 hstarting.machine rfl⟩

theorem hostWrite (h : Idle s) {p : Fin 4} {value : UInt8} (hw : NoRequest p value) : Idle (s.hostWrite p value) := by
  refine ⟨h.onTime.hostWrite p value, ?_⟩
  cases h.waits with
  | starting n h time => exact .starting n ⟨h.sound, h.program.hostWrite hw⟩ time
  | listening h => exact .listening ⟨h.sound, h.program.hostWrite hw⟩

/-- A quiet call leaves the session waiting and returns silence. -/
theorem perform (h : Idle s) {call : Call} (hq : call.Quiet) :
    Idle (s.perform call) ∧ ∀ b ∈ (s.audio call).data, b = 0 := by
  have hempty : ∀ b ∈ ByteArray.empty.data, b = 0 := fun b hb => absurd hb (Array.not_mem_empty b)
  cases call with
  | load => exact hq.elim
  | run maxCycles maxBytes =>
    rw [Session.perform_run h.onTime, Session.audio_run h.onTime]
    have hframes := Waits.invariant.frames_elapse (Q := (· = .both 0))
      (fun {m} mask hm => hm.resting.silent.frame_tick m.memory mask) h.onTime h.waits
    exact ⟨⟨h.onTime.elapse _, Waits.invariant.elapse h.onTime h.waits _⟩, Frame.encode_silence (hframes _)⟩
  | writePort number data =>
    refine ⟨?_, hempty⟩
    rcases s.perform_writePort number data with he | ⟨p, hp, he⟩ <;> rw [he]
    · exact h
    · refine h.hostWrite fun h0 => ofInt_ne_command (hq ?_)
      rw [h0] at hp
      exact UInt64.toNat_inj.mp hp.symm
  | readPort => exact ⟨h, hempty⟩
  | mute => exact ⟨⟨⟨h.onTime.owed, h.onTime.machine⟩, h.waits⟩, hempty⟩

/-- So do quiet calls one after the other. -/
theorem performAll (h : Idle s) (hq : ∀ call ∈ calls, call.Quiet) :
    Idle (s.performAll calls) ∧ ∀ b ∈ (s.audioAll calls).data, b = 0 := by
  induction calls generalizing s with
  | nil => exact ⟨h, fun b hb => absurd hb (Array.not_mem_empty b)⟩
  | cons call calls ih =>
    rw [List.forall_mem_cons] at hq
    obtain ⟨hfirst, hsilent⟩ := h.perform hq.1
    obtain ⟨hrest, hsilent'⟩ := ih hfirst hq.2
    refine ⟨hrest, fun b hb => ?_⟩
    have hparts : (s.audioAll (call :: calls)).data = (s.audio call).data ++ ((s.perform call).audioAll calls).data :=
      ByteArray.data_append
    rw [hparts] at hb
    exact (Array.mem_append.mp hb).elim (hsilent b) (hsilent' b)

end Idle

/-- A new session that is not asked for anything waits silently, whatever else a host does and for as long as it does
it: all the audio is zeros, the program counter stays in the boot program's first twenty bytes, all registers of the
sound unit are zero, and RAM is as it was when the power was switched on, but for the page that is cleared, the first
four bytes of it, and the copies of ports 0 and 1. As soon as the CPU has used 2404 cycles, the host reads the
announcement, and it goes on reading it. -/
theorem waits_silently {calls : List Call} (h : ∀ call ∈ calls, call.Quiet) :
    let s := ({} : Session).performAll calls
    (∀ b ∈ (({} : Session).audioAll calls).data, b = 0) ∧
      (0xFFC0 ≤ s.machine.cpu.pc ∧ s.machine.cpu.pc ≤ 0xFFD3) ∧
      (∀ a, s.machine.registers.get a = 0) ∧
      (∀ a : UInt16, ¬(a.toNat < 0xF0 ∨ a = 0xF4 ∨ a = 0xF5) → s.machine.memory.get a = Memory.powerOn.get a) ∧
      ∀ before after, calls = before ++ after → 2404 ≤ (({} : Session).performAll before).totalCycles →
        s.readPort 0 = .ok 0xAA ∧ s.readPort 1 = .ok 0xBB := by
  intro s
  obtain ⟨hidle, hsilent⟩ := Idle.new.performAll h
  have hregisters : s.machine.registers = .zero := hidle.waits.resting.silent.registers
  refine ⟨hsilent, hidle.waits.pc_mem, fun a => ?_, hidle.waits.ram, fun before after hcalls htime => ?_⟩
  · rw [hregisters]
    exact Registers.get_zero a
  · have hbefore : ∀ call ∈ before, call.Quiet := fun call hc => h call (hcalls ▸ List.mem_append_left _ hc)
    have hafter : ∀ call ∈ after, call.Quiet := fun call hc => h call (hcalls ▸ List.mem_append_right _ hc)
    have hidle₁ := (Idle.new.performAll hbefore).1
    have hpassed := Session.totalCycles_le_performAll hidle₁.onTime fun call hc => (hafter call hc).loads
    rw [← Session.performAll_append, ← hcalls] at hpassed
    obtain ⟨h0, h1⟩ := hidle.waits.announced (Nat.le_trans htime hpassed)
    exact ⟨(readPort_eq_hostRead s 0).trans (congrArg _ h0), (readPort_eq_hostRead s 1).trans (congrArg _ h1)⟩

/-- A host that waits for 2404 cycles and writes something else than the command to port 0 in the meantime. -/
theorem waits_silently_2404 :
    let calls : List Call := [.run (some 404) 64, .writePort 0 0xCB, .run (some 2000) 1024]
    let s := ({} : Session).performAll calls
    s.readPort 0 = .ok 0xAA ∧ s.readPort 1 = .ok 0xBB ∧ ∀ b ∈ (({} : Session).audioAll calls).data, b = 0 := by
  intro calls s
  have hquiet : ∀ call ∈ calls, call.Quiet := by
    simp only [calls, List.forall_mem_cons, List.not_mem_nil, false_implies, implies_true, and_true]
    exact ⟨trivial, fun _ => by decide, trivial⟩
  have hasked : ({} : Session).askedAll calls = 2404 := by
    have hrun (t : Session) (cycles bytes : UInt64)
        (h : cycles.toNat ≤ Machine.cyclesPerFrame * (bytes.toNat / bytesPerFrame)) :
        t.asked (.run (some cycles) bytes) = cycles.toNat := Nat.min_eq_left (Nat.le_trans h (Nat.le_add_right _ _))
    have hwrite (t : Session) : t.asked (.writePort 0 0xCB) = 0 := rfl
    rw [Session.askedAll, Session.askedAll, Session.askedAll, Session.askedAll, hwrite, hrun _ _ _ (by decide),
      hrun _ _ _ (by decide)]
    rfl
  have htime : 2404 ≤ s.totalCycles := by
    rw [← hasked]
    exact Session.askedAll_le_totalCycles .new fun call hc => (hquiet call hc).loads
  obtain ⟨hsilent, -, -, -, hannounced⟩ := waits_silently hquiet
  obtain ⟨h0, h1⟩ := hannounced calls [] (List.append_nil calls).symm htime
  exact ⟨h0, h1, hsilent⟩

end Boot

end SnesSound
