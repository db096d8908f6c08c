import SnesSound.Proofs.Boot.Transfer
import SnesSound.Proofs.Dsp.Tick
import SnesSound.Proofs.Session.Progress

/-!
# Stages of an upload

What holds of the boot program between two instructions goes on to hold while time passes and while the sound unit makes
its ticks, as long as the sound unit keeps what the upload asks of RAM. So the stages of an upload are invariants and
phases of the whole machine, and the host leads from one stage to the next by writing to the ports.

Main statements: the program announces itself (`starting_phase`), answers a request (`requested_phase`) and every byte
that is posted (`receiving_phase`), and stores a byte after it has answered it (`storing_phase`), all of this within a
number of cycles.
-/

namespace SnesSound

namespace Boot

variable {u : Delivery} {r : Registers} {s t : Core} {n k : Nat}

/-! ## What the program does not notice -/

/-- Two cores that are the same to the boot program, as far as the upload can tell. -/
structure Alike (u : Delivery) (s t : Core) : Prop where
  state : t.cpu.toRegisterSet = s.cpu.toRegisterSet
  ports : t.cpu.ports = s.cpu.ports
  runState : t.cpu.runState = s.cpu.runState
  control : t.cpu.control = s.cpu.control
  ram : ∀ {f}, u.holds f s.memory → u.holds f t.memory

theorem Alike.boots (e : Alike u s t) (h : s.Boots) : t.Boots := by
  refine ⟨e.runState.trans h.running, ?_, ?_⟩
  · rw [e.control]
    exact h.rom
  · rw [e.state]
    exact h.page

theorem alike_pass (s : Core) (cycles : Nat) : Alike u s (s.pass cycles) := ⟨rfl, rfl, rfl, rfl, id⟩

theorem alike_withBudget (s : Core) (budget : Int) : Alike u s (s.withBudget budget) := ⟨rfl, rfl, rfl, rfl, id⟩

/-- What holds of the registers of the sound unit and of the core between two instructions. -/
structure Stage (u : Delivery) (P : Registers → Core → Prop) : Prop where
  boots : ∀ {r s}, P r s → s.Boots
  registers : ∀ {r s}, P r s → s.registers = r
  alike : ∀ {r s t}, Alike u s t → P r s → P t.registers t

theorem Starting.stage (n : Nat) : Stage u fun r => Starting u r n where
  boots h := h.boots
  registers h := h.registers
  alike e h := by
    refine ⟨e.boots h.boots, rfl, ?_, ?_, e.ram h.ram, ?_⟩
    · rw [e.ports]
      exact h.quiet
    · rw [e.ports]
      exact h.silent
    · rw [e.ports, e.state]
      exact h.clears

theorem Listening.stage : Stage u (Listening u) where
  boots h := h.boots
  registers h := h.registers
  alike e h := by
    refine ⟨e.boots h.boots, rfl, ?_, ?_, e.ram h.ram, ?_⟩
    · rw [e.ports]
      exact h.quiet
    · rw [e.ports]
      exact h.announced
    · rw [e.state]
      exact h.polls

theorem Requested.stage (n : Nat) : Stage u fun r => Requested u r n where
  boots h := h.boots
  registers h := h.registers
  alike e h := by
    obtain ⟨f, hram, haccepts⟩ := h.accepts
    refine ⟨e.boots h.boots, rfl, ?_, ?_, ?_, f, e.ram hram, ?_⟩
    · rw [e.ports]
      exact h.command
    · rw [e.ports]
      exact h.destination
    · rw [e.ports]
      exact h.unanswered
    · rw [e.state]
      exact haccepts

theorem Receiving.stage (k : Nat) (posted : Bool) (n : Nat) : Stage u fun r => Receiving u r k posted n where
  boots h := h.boots
  registers h := h.registers
  alike e h := by
    obtain ⟨f, hram, hreceives⟩ := h.receives
    refine ⟨e.boots h.boots, rfl, ?_, ?_, ?_, f, e.ram hram, ?_⟩
    · rw [e.ports]
      exact h.answer
    · rw [e.ports]
      exact h.latch
    · rw [e.ports]
      exact h.byte
    · rw [e.state]
      exact hreceives

/-- The program has answered `k` bytes and waits for the next one. Its way to the next answer is one of 11 instructions
right after an answer, when the byte is still to be stored, and one of at most 10 afterwards. -/
def Answered (u : Delivery) (k n : Nat) (r : Registers) (s : Core) : Prop := ∃ i ≤ n, Receiving u r k false i s

theorem Answered.stage (k n : Nat) : Stage u (Answered u k n) where
  boots h := h.elim fun _ h => h.2.boots
  registers h := h.elim fun _ h => h.2.registers
  alike e h := h.imp fun i h => ⟨h.1, (Receiving.stage k false i).alike e h.2⟩

/-- As long as no byte is posted, the program stores what it has received and waits. -/
theorem Answered.step (h : Answered u k n r s) : Answered u k 10 r s.after := by
  obtain ⟨i, -, h⟩ := h
  rcases h.step with ⟨hp, -⟩ | ⟨j, hj, -, h⟩
  · exact absurd hp (by decide)
  · exact ⟨j, hj, h⟩

theorem Answered.mono {m : Nat} (h : Answered u k n r s) (hn : n ≤ m) : Answered u k m r s :=
  h.imp fun _ h => ⟨Nat.le_trans h.1 hn, h.2⟩

theorem Receives.le_eleven {posted : Bool} {c : RegisterSet} {f : Filling} (h : Receives u k posted c f n) :
    n ≤ 11 := by
  cases h <;> decide

theorem Receiving.answered (h : Receiving u r k false n s) : Answered u k 11 r s := by
  obtain ⟨f, -, hreceives⟩ := h.receives
  exact ⟨n, hreceives.le_eleven, h⟩

/-- Once a byte has been stored, it counts among those in RAM. -/
theorem Receives.filling {posted : Bool} {c : RegisterSet} {f : Filling} (h : Receives u k posted c f n) (hn : n ≤ 10) :
    f = .ready k ∨ f = .placed k := by
  cases h with
  | FFE2 => exact absurd hn (by decide)
  | FFE4 | FFE5 | FFE7 => exact .inr rfl
  | _ => exact .inl rfl

/-! ## What the host does -/

/-- The host requests an upload. -/
theorem Listening.request (h : Listening u r s) : ∃ n, Requested u r n { s with cpu := { s.cpu with
    ports := (((s.cpu.ports.hostWrite 1 1).hostWrite 2 (lowByte u.destination)).hostWrite 3
      (highByte u.destination)).hostWrite 0 0xCC } } := by
  have haccepts : ∃ n, Accepts u s.cpu.toRegisterSet .unknown n := by
    rcases h.polls with hpc | ⟨hpc, hz⟩
    · exact ⟨7, .FFCF hpc⟩
    · exact ⟨8, .FFD2_again hpc hz⟩
  obtain ⟨n, haccepts⟩ := haccepts
  have hunanswered : s.cpu.ports.hostRead 0 ≠ 0xCC := by
    rw [h.announced.1]
    decide
  refine ⟨n, ⟨h.boots.running, h.boots.rom, h.boots.page⟩, h.registers, ?_, ?_, hunanswered, _, h.ram, haccepts⟩ <;>
    simp (disch := decide) [Ports.cpuRead_hostWrite_of_ne]

/-- Where the program can be while it waits depends neither on whether a byte has been posted nor on the bytes to
come. -/
theorem Receives.wait {w : Delivery} {c : RegisterSet} {f : Filling} (h : Receives u k false c f n) (posted : Bool)
    (hdata : ∀ i b, k = i + 1 → u.data[i]? = some b → w.data[i]? = some b) : Receives w k posted c f n := by
  cases h with
  | FFF7 hpc hk hy => exact .FFF7 hpc hk hy
  | FFF8 hpc hk ha => exact .FFF8 hpc hk ha
  | FFF9 hpc hk hz => exact .FFF9 hpc hk hz
  | FFD6 hpc hk => exact .FFD6 hpc hk
  | FFD8_again hpc hk hz => exact .FFD8_again hpc hk hz
  | FFDA hpc hy hp => exact .FFDA hpc hy fun hk => absurd (hp hk) (by decide)
  | FFDC_again hpc hk hz hn hy => exact .FFDC_again hpc hk hz hn hy
  | FFE2 i hpc hk hy ha => exact .FFE2 i hpc hk hy (hdata i _ hk ha)
  | FFE4 i hpc hk hy => exact .FFE4 i hpc hk hy
  | FFE5 hpc hk hy hz => exact .FFE5 hpc hk hy hz
  | FFE7 hpc hk hy h0 => exact .FFE7 hpc hk hy h0
  | FFE9 hpc hk hy => exact .FFE9 hpc hk hy
  | FFEB hpc hk hy => exact .FFEB hpc hk hy
  | FFED hpc hk hy hn => exact .FFED hpc hk hy hn
  | FFD8 _ _ _ _ hp | FFDC _ _ _ hp | FFDE _ _ hp | FFE0 _ _ hp => exact absurd hp (by decide)

/-- The host posts the next byte. -/
theorem Answered.post (h : Answered u k n r s) {b : UInt8} (hb : u.data[k]? = some b) :
    ∃ i, Receiving u r k true i { s with cpu := { s.cpu with
      ports := (s.cpu.ports.hostWrite 1 b).hostWrite 0 (UInt8.ofNat k) } } := by
  obtain ⟨i, -, h⟩ := h
  obtain ⟨f, hram, hreceives⟩ := h.receives
  refine ⟨i, ⟨h.boots.running, h.boots.rom, h.boots.page⟩, h.registers, h.answer, ?_, fun _ => ?_, f, hram,
    hreceives.wait true fun _ _ _ hdata => hdata⟩
  · exact Ports.cpuRead_hostWrite_self ..
  · rw [Ports.cpuRead_hostWrite_of_ne _ _ (by decide), Ports.cpuRead_hostWrite_self]
    exact hb

/-- As long as a byte has not been answered, the host sees another answer. -/
theorem Receiving.hostRead_ne (h : Receiving u r k true n s) : s.cpu.ports.hostRead 0 ≠ UInt8.ofNat k := by
  rw [h.answer]
  exact echoed_ne k

/-! ## Machines -/

/-- A sound unit that keeps what an upload asks of RAM: whenever `T` holds of its registers and its state, it goes on to
hold after a tick, and RAM is as good for the upload as it was. -/
structure Harmless (u : Delivery) (T : Registers → Dsp → Prop) : Prop where
  tick : ∀ {r d} m mask, T r d → T (d.tick r m mask).2.2.1 (d.tick r m mask).2.1
  ram : ∀ {r d m f} mask, T r d → u.holds f m → u.holds f (d.tick r m mask).2.2.2

/-- A machine in a stage of an upload. -/
structure In (T : Registers → Dsp → Prop) (P : Registers → Core → Prop) (m : Machine) : Prop where
  sound : T m.registers m.dsp
  program : P m.registers m.toCore

section Machines

variable {T : Registers → Dsp → Prop} {P Q : Registers → Core → Prop} {m : Machine}

theorem In.withBudget (hP : Stage u P) (h : In T P m) (budget : Int) : In T P (m.withBudget budget) :=
  ⟨h.sound, hP.alike (alike_withBudget _ _) h.program⟩

theorem In.tick (hu : Harmless u T) (hP : Stage u P) (h : In T P m) (mask : UInt8) : In T P (m.tick mask).2 := by
  obtain ⟨s, d⟩ := m
  have hsound := hu.tick s.memory mask h.sound
  have hram {f : Filling} : u.holds f s.memory → u.holds f (d.tick s.registers s.memory mask).2.2.2 :=
    hu.ram mask h.sound
  have halike : Alike u s (({ s with dsp := d } : Machine).tick mask).2.toCore := ⟨rfl, rfl, rfl, rfl, hram⟩
  exact ⟨hsound, hP.alike halike h.program⟩

/-- An instruction leads from a stage to the one of the core after it. -/
theorem In.stepCpu (hQ : Stage u Q) (h : In T P m) (hstep : Q m.registers m.toCore.after) : In T Q m.stepCpu := by
  have hpass := hQ.alike (alike_pass m.toCore.after m.toCore.step.1) hstep
  constructor
  · change T m.toCore.after.registers m.dsp
    rw [hQ.registers hstep]
    exact h.sound
  · change Q m.toCore.step.2.registers m.toCore.step.2
    rw [m.toCore.step_eq_after]
    exact hpass

/-- A stage that instructions keep is an invariant of machines. -/
theorem Stage.invariant (hu : Harmless u T) (hP : Stage u P) (step : ∀ {r s}, P r s → P r s.after) :
    Machine.Invariant (In T P) where
  running h := (hP.boots h.program).running
  stepCpu h := h.stepCpu hP (step h.program)
  withBudget budget h := h.withBudget hP budget
  tick mask h := h.tick hu hP mask

/-- Stages that instructions lead through are a phase of machines. -/
theorem Stage.phase {P : Nat → Registers → Core → Prop} (hu : Harmless u T) (hP : ∀ n, Stage u (P n)) (hQ : Stage u Q)
    (step : ∀ {n r s}, P n r s → Q r s.after ∨ ∃ k < n, P k r s.after) (keep : ∀ {r s}, Q r s → Q r s.after) :
    Machine.Phase (fun n => In T (P n)) (In T Q) where
  running h := ((hP _).boots h.program).running
  stepCpu h := by
    rcases step h.program with hend | ⟨k, hk, hnear⟩
    · exact .inl (h.stepCpu hQ hend)
    · exact .inr ⟨k, hk, h.stepCpu (hP k) hnear⟩
  withBudget budget h := h.withBudget (hP _) budget
  tick mask h := h.tick hu (hP _) mask
  goal := hQ.invariant hu keep

variable (hu : Harmless u T)

include hu

theorem answered_invariant (k : Nat) (hn : 10 ≤ n) : Machine.Invariant (In T (Answered u k n)) :=
  (Answered.stage k n).invariant hu fun h => h.step.mono hn

/-- The program announces itself. -/
theorem starting_phase : Machine.Phase (fun n => In T fun r => Starting u r n) (In T (Listening u)) :=
  Stage.phase hu Starting.stage Listening.stage
    (fun {n r s} h => by
      have hcost := s.two_le_step
      exact h.step.imp (fun h => h.1) fun ⟨k, hk, h⟩ => ⟨k, by omega, h⟩)
    Listening.step

/-- The program answers a request. -/
theorem requested_phase : Machine.Phase (fun n => In T fun r => Requested u r n) (In T (Answered u 0 11)) :=
  Stage.phase hu Requested.stage (Answered.stage 0 11)
    (fun h => h.step.imp (fun ⟨_, h⟩ => h.answered) id) fun h => h.step.mono (by decide)

/-- The program answers a byte that is posted. -/
theorem receiving_phase (k : Nat) :
    Machine.Phase (fun n => In T fun r => Receiving u r k true n) (In T (Answered u (k + 1) 11)) :=
  Stage.phase hu (Receiving.stage k true) (Answered.stage (k + 1) 11)
    (fun h => h.step.imp (fun ⟨_, _, h⟩ => h.answered) fun ⟨i, _, hi, h⟩ => ⟨i, hi rfl, h⟩)
    fun h => h.step.mono (by decide)

/-- The program stores a byte as soon as it has answered it. -/
theorem storing_phase (k : Nat) :
    Machine.Phase (fun n => In T fun r s => n = 1 ∧ Answered u k 11 r s) (In T (Answered u k 10)) :=
  Stage.phase hu
    (fun _ =>
      { boots := fun h => (Answered.stage k 11).boots h.2
        registers := fun h => (Answered.stage k 11).registers h.2
        alike := fun e h => ⟨h.1, (Answered.stage k 11).alike e h.2⟩ })
    (Answered.stage k 10) (fun h => .inl h.2.step) Answered.step

end Machines

end Boot

end SnesSound
