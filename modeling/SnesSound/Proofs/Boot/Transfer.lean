import SnesSound.Proofs.Boot.Program

/-!
# How the boot program receives bytes

The host and the boot program take turns on port 0. The program announces itself with `AA` and `BB` and waits for the
command `CC`, which comes with a destination on ports 2 and 3. It answers `CC`, and from then on the host posts byte
after byte on port 1, each together with its number on port 0, and the program answers every number.

What is known about the program between two instructions is stated address by address, as are the flags and registers
that the next branch depends on. RAM comes in through what an upload asks of it (`Delivery`), so that the same invariant
serves uploads that reach RAM and uploads that do not. The host may write to the ports between any two instructions,
which is why the program may have looked at port 0 just before a byte was posted (`again`).

Main statements: the program goes from its start to its announcement in 2404 cycles (`Starting.step`), waits for a
request (`Listening.step`), answers it (`Requested.step`), and answers every byte that is posted (`Receiving.step`); as
long as there is something for it to answer, every instruction brings it nearer to its answer.
-/

namespace SnesSound

namespace Core

variable {s : Core}

theorem Boots.setRegisters (h : s.Boots) {c : RegisterSet} (hc : c.psw.directPage = false) : (s.setRegisters c).Boots :=
  ⟨h.running, h.rom, hc⟩

/-- A write to a port. -/
theorem write_port (s : Core) (value : UInt8) {a : UInt16} {n : Fin 4} (h : IoRegister.ofAddress? a = some (.port n)) :
    s.write a value =
      { s with cpu := { s.cpu with ports := s.cpu.ports.cpuWrite n value }, memory := s.memory.set a value } := by
  rw [write, writeIo, h]

end Core

/-- A comparison finds whether two bytes are the same. -/
theorem Status.zero_compare (p : Status) (x y : UInt8) : (p.compare x y).zero = (x == y) := by
  change (x - y == 0) = (x == y)
  rw [Bool.eq_iff_iff, beq_iff_eq, beq_iff_eq]
  constructor
  · intro h
    rw [← UInt8.sub_add_cancel x y, h, UInt8.zero_add]
  · rintro rfl
    exact UInt8.sub_self x

/-- A comparison with the same byte or the one before is not negative. -/
theorem Status.negative_compare (p : Status) {x y : UInt8} (h : x = y ∨ x = y + 1) :
    (p.compare x y).negative = false := by
  change bit (x - y) 7 = false
  rcases h with rfl | rfl
  · rw [UInt8.sub_self]
    rfl
  · rw [UInt8.add_comm, UInt8.add_sub_cancel]
    rfl

namespace Boot

/-! ## What is asked of RAM -/

/-- The addresses that the program writes to before there is a request. -/
def Scratch (a : UInt16) : Prop := a.toNat < 0xF0 ∨ a = 0xF4 ∨ a = 0xF5

/-- They are part of page 0. -/
theorem Scratch.toNat_lt {a : UInt16} (h : Scratch a) : a.toNat < 0x100 := by
  rcases h with hlow | rfl | rfl
  · omega
  · decide
  · decide

/-- How far an upload has got in RAM. -/
inductive Filling
  /-- The destination is not known. -/
  | unknown
  /-- So many bytes have been stored, and the pointer is the one for the next byte. -/
  | ready (k : Nat)
  /-- So many bytes have been stored, and the pointer is still the one for the last of them. -/
  | placed (k : Nat)

/-- An upload as far as RAM is concerned: the bytes, where they are to go, and what holds of RAM in the meantime. -/
structure Delivery where
  destination : UInt16
  data : List UInt8
  holds : Filling → Memory → Prop
  unknown_set : ∀ {m a} value, holds .unknown m → Scratch a → holds .unknown (m.set a value)
  ready_zero : ∀ {m}, holds .unknown m →
    holds (.ready 0) ((m.set 0 (lowByte destination)).set 1 (highByte destination))
  ready_set : ∀ {k m} value, holds (.ready k) m → holds (.ready k) (m.set 0xF4 value)
  plain : ∀ {k m value}, holds (.ready k) m → data[k]? = some value →
    IoRegister.ofAddress? (m.readWord 0 + (UInt8.ofNat k).toUInt16) = none
  placed_set : ∀ {k m value}, holds (.ready k) m → data[k]? = some value →
    holds (.placed (k + 1)) (m.set (m.readWord 0 + (UInt8.ofNat k).toUInt16) value)
  ready_of_placed : ∀ {k m}, holds (.placed k) m → UInt8.ofNat k ≠ 0 → holds (.ready k) m
  ready_of_placed_of_zero : ∀ {k m}, holds (.placed k) m → 0 < k → UInt8.ofNat k = 0 →
    holds (.ready k) (m.set 1 (m.get 1 + 1))

variable {u : Delivery} {r : Registers} {s : Core}

/-! ## Start -/

/-- Where the program clears page 0 and announces itself, and how many cycles it needs for that, while the host sees
`shown` on port 0. -/
inductive Clears (shown : UInt8) (c : RegisterSet) : Nat → Prop
  | FFC0 (hpc : c.pc = 0xFFC0) : Clears shown c 2404
  | FFC2 (hpc : c.pc = 0xFFC2) (hx : c.x = 0xEF) : Clears shown c 2402
  | FFC3 (hpc : c.pc = 0xFFC3) (hx : c.x = 0xEF) : Clears shown c 2400
  | FFC5 (k : Nat) (hpc : c.pc = 0xFFC5) (hx : c.x.toNat = k + 1) (hk : k < 0xEF) : Clears shown c (10 * k + 18)
  | FFC6 (k : Nat) (hpc : c.pc = 0xFFC6) (hx : c.x.toNat = k + 1) (hk : k < 0xEF) : Clears shown c (10 * k + 14)
  | FFC7 (k : Nat) (hpc : c.pc = 0xFFC7) (hx : c.x.toNat = k) (hk : k < 0xEF) (hz : c.psw.zero = (c.x == 0)) :
    Clears shown c (10 * k + 12)
  | FFC9 (hpc : c.pc = 0xFFC9) : Clears shown c 10
  | FFCC (hpc : c.pc = 0xFFCC) (hout : shown = 0xAA) : Clears shown c 5

/-- The program is `n` cycles away from having announced itself. -/
structure Starting (u : Delivery) (r : Registers) (n : Nat) (s : Core) : Prop where
  boots : s.Boots
  registers : s.registers = r
  quiet : s.cpu.ports.cpuRead 0 ≠ 0xCC
  silent : s.cpu.ports.hostRead 1 ≠ 0xBB
  ram : u.holds .unknown s.memory
  clears : Clears (s.cpu.ports.hostRead 0) s.cpu.toRegisterSet n

/-- The program has announced itself and waits for a request. -/
structure Listening (u : Delivery) (r : Registers) (s : Core) : Prop where
  boots : s.Boots
  registers : s.registers = r
  quiet : s.cpu.ports.cpuRead 0 ≠ 0xCC
  announced : s.cpu.ports.hostRead 0 = 0xAA ∧ s.cpu.ports.hostRead 1 = 0xBB
  ram : u.holds .unknown s.memory
  polls : s.cpu.pc = 0xFFCF ∨ s.cpu.pc = 0xFFD2 ∧ s.cpu.psw.zero = false

/-- The program clears page 0 and announces itself. -/
theorem Starting.step {n : Nat} (h : Starting u r n s) :
    Listening u r s.after ∧ n = s.step.1 ∨ ∃ k, n = k + s.step.1 ∧ Starting u r k s.after := by
  have hpage := h.boots.page
  have keep {c : RegisterSet} {k : Nat} (hc : c.psw.directPage = false)
      (hclears : Clears (s.cpu.ports.hostRead 0) c k) : Starting u r k (s.setRegisters c) :=
    ⟨h.boots.setRegisters hc, h.registers, h.quiet, h.silent, h.ram, hclears⟩
  have hclears := h.clears
  cases hclears with
  | FFC0 hpc =>
    have hcost : s.step.1 = 2 := Core.cost_of_unconditional h.boots (by decide) hpc (by decide)
    rw [s.after_FFC0 h.boots hpc, hcost]
    exact .inr ⟨2402, rfl, keep hpage (.FFC2 rfl rfl)⟩
  | FFC2 hpc hx =>
    have hcost : s.step.1 = 2 := Core.cost_of_unconditional h.boots (by decide) hpc (by decide)
    rw [s.after_FFC2 h.boots hpc, hcost]
    exact .inr ⟨2400, rfl, keep hpage (.FFC3 rfl hx)⟩
  | FFC3 hpc hx =>
    have hcost : s.step.1 = 2 := Core.cost_of_unconditional h.boots (by decide) hpc (by decide)
    have hx' : s.cpu.x.toNat = 0xEE + 1 := congrArg UInt8.toNat hx
    rw [s.after_FFC3 h.boots hpc, hcost]
    exact .inr ⟨_, rfl, keep hpage (.FFC5 0xEE rfl hx' (by decide))⟩
  | FFC5 k hpc hx hk =>
    have hcost : s.step.1 = 4 := Core.cost_of_unconditional h.boots (by decide) hpc (by decide)
    have hlow : (word s.cpu.x 0).toNat = k + 1 := by rw [toNat_word, hx]; rfl
    have hram := u.unknown_set s.cpu.a h.ram (a := word s.cpu.x 0) (.inl (by omega))
    rw [s.after_FFC5 h.boots hpc, Core.write_of_none (IoRegister.ofAddress?_eq_none (.inl (by omega))), hcost]
    exact .inr ⟨10 * k + 14, rfl, ⟨h.boots.running, h.boots.rom, hpage⟩, h.registers, h.quiet, h.silent, hram,
      .FFC6 k rfl hx hk⟩
  | FFC6 k hpc hx hk =>
    have hcost : s.step.1 = 2 := Core.cost_of_unconditional h.boots (by decide) hpc (by decide)
    have hx' : (s.cpu.x - 1).toNat = k := by
      rw [UInt8.toNat_sub_of_le _ _ (UInt8.le_iff_toNat_le.mpr (by rw [hx]; exact Nat.le_add_left 1 k)), hx]
      rfl
    rw [s.after_FFC6 h.boots hpc, hcost]
    exact .inr ⟨10 * k + 12, rfl, keep hpage (.FFC7 k rfl hx' hk rfl)⟩
  | FFC7 k hpc hx hk hz =>
    have hbranch : Opcode.decode (Core.romByte 0xFFC7) = .branch .zero false := rfl
    have hcost := Core.cost_of_branch h.boots (by decide) hpc hbranch
    rw [Condition.test, hz] at hcost
    rw [s.after_FFC7 h.boots hpc, hcost]
    cases k with
    | zero =>
      have hzero : s.cpu.x = 0 := UInt8.toNat_inj.mp hx
      rw [hz, hzero, if_neg (by decide)]
      exact .inr ⟨10, by decide, keep hpage (.FFC9 rfl)⟩
    | succ k =>
      have hzero : s.cpu.x ≠ 0 := fun h0 => by simp [h0] at hx
      rw [hz, if_pos (beq_false_of_ne hzero), beq_false_of_ne hzero]
      exact .inr ⟨10 * k + 18, rfl, keep hpage (.FFC5 k rfl hx (by omega))⟩
  | FFC9 hpc =>
    have hcost : s.step.1 = 5 := Core.cost_of_unconditional h.boots (by decide) hpc (by decide)
    have hout := s.cpu.ports.hostRead_cpuWrite_self 0 0xAA
    have hsilent := (s.cpu.ports.hostRead_cpuWrite_of_ne 0xAA (by decide : (0 : Fin 4) ≠ 1)).symm ▸ h.silent
    have hram := u.unknown_set 0xAA h.ram (a := 0xF4) (.inr (.inl rfl))
    rw [s.after_FFC9 h.boots hpc, Core.write_port _ _ (a := 0xF4) (n := 0) rfl, hcost]
    exact .inr ⟨5, rfl, ⟨h.boots.running, h.boots.rom, hpage⟩, h.registers, h.quiet, hsilent, hram, .FFCC rfl hout⟩
  | FFCC hpc hout =>
    have hcost : s.step.1 = 5 := Core.cost_of_unconditional h.boots (by decide) hpc (by decide)
    have hout0 := (s.cpu.ports.hostRead_cpuWrite_of_ne 0xBB (by decide : (1 : Fin 4) ≠ 0)).trans hout
    have hout1 := s.cpu.ports.hostRead_cpuWrite_self 1 0xBB
    have hram := u.unknown_set 0xBB h.ram (a := 0xF5) (.inr (.inr rfl))
    rw [s.after_FFCC h.boots hpc, Core.write_port _ _ (a := 0xF5) (n := 1) rfl, hcost]
    exact .inl ⟨⟨⟨h.boots.running, h.boots.rom, hpage⟩, h.registers, h.quiet, ⟨hout0, hout1⟩, hram, .inl rfl⟩, rfl⟩

/-- The program goes on waiting until there is a request. -/
theorem Listening.step (h : Listening u r s) : Listening u r s.after := by
  have hpage := h.boots.page
  rcases h.polls with hpc | ⟨hpc, hz⟩
  · have hz : (s.cpu.psw.compare (s.cpu.ports.cpuRead 0) 0xCC).zero = false := by
      rw [Status.zero_compare]
      exact beq_false_of_ne h.quiet
    rw [s.after_FFCF h.boots hpc]
    exact ⟨h.boots.setRegisters hpage, h.registers, h.quiet, h.announced, h.ram, .inr ⟨rfl, hz⟩⟩
  · rw [s.after_FFD2 h.boots hpc, if_pos hz]
    exact ⟨h.boots.goTo _, h.registers, h.quiet, h.announced, h.ram, .inl rfl⟩

/-! ## Requests and bytes -/

/-- Where the program takes in a request, and how many instructions it is away from its answer. -/
inductive Accepts (u : Delivery) (c : RegisterSet) : Filling → Nat → Prop
  | FFCF (hpc : c.pc = 0xFFCF) : Accepts u c .unknown 7
  | FFD2_again (hpc : c.pc = 0xFFD2) (hz : c.psw.zero = false) : Accepts u c .unknown 8
  | FFD2 (hpc : c.pc = 0xFFD2) (hz : c.psw.zero = true) : Accepts u c .unknown 6
  | FFD4 (hpc : c.pc = 0xFFD4) : Accepts u c .unknown 5
  | FFEF (hpc : c.pc = 0xFFEF) : Accepts u c .unknown 4
  | FFF1 (hpc : c.pc = 0xFFF1) (ha : c.a = lowByte u.destination) (hy : c.y = highByte u.destination) :
    Accepts u c .unknown 3
  | FFF3 (hpc : c.pc = 0xFFF3) : Accepts u c (.ready 0) 2
  | FFF5 (hpc : c.pc = 0xFFF5) (ha : c.a = 0xCC) (hy : c.y = 1) : Accepts u c (.ready 0) 1

/-- There is a request, and the program is `n` instructions away from having answered it. -/
structure Requested (u : Delivery) (r : Registers) (n : Nat) (s : Core) : Prop where
  boots : s.Boots
  registers : s.registers = r
  command : s.cpu.ports.cpuRead 0 = 0xCC ∧ s.cpu.ports.cpuRead 1 = 1
  destination : s.cpu.ports.cpuRead 2 = lowByte u.destination ∧ s.cpu.ports.cpuRead 3 = highByte u.destination
  unanswered : s.cpu.ports.hostRead 0 ≠ 0xCC
  accepts : ∃ f, u.holds f s.memory ∧ Accepts u s.cpu.toRegisterSet f n

/-- What both sides have on port 0 when `k` bytes have been received. -/
def echoed : Nat → UInt8
  | 0 => 0xCC
  | k + 1 => UInt8.ofNat k

/-- What both sides have on port 0 is never the number of the next byte. -/
theorem echoed_ne (k : Nat) : echoed k ≠ UInt8.ofNat k := by
  cases k with
  | zero => decide
  | succ k =>
    intro he
    have hnat := congrArg UInt8.toNat he
    simp only [echoed, UInt8.toNat_ofNat'] at hnat
    omega

/-- Where the program receives byte `k`, and how many instructions it is away from its answer if the byte has been
posted. -/
inductive Receives (u : Delivery) (k : Nat) (posted : Bool) (c : RegisterSet) : Filling → Nat → Prop
  | FFF7 (hpc : c.pc = 0xFFF7) (hk : k = 0) (hy : c.y ≠ 0) : Receives u k posted c (.ready k) 10
  | FFF8 (hpc : c.pc = 0xFFF8) (hk : k = 0) (ha : c.a ≠ 0) : Receives u k posted c (.ready k) 9
  | FFF9 (hpc : c.pc = 0xFFF9) (hk : k = 0) (hz : c.psw.zero = false) : Receives u k posted c (.ready k) 8
  | FFD6 (hpc : c.pc = 0xFFD6) (hk : k = 0) : Receives u k posted c (.ready k) 6
  | FFD8_again (hpc : c.pc = 0xFFD8) (hk : k = 0) (hz : c.psw.zero = false) : Receives u k posted c (.ready k) 7
  | FFD8 (hpc : c.pc = 0xFFD8) (hk : k = 0) (hz : c.psw.zero = true) (hy : c.y = 0) (hp : posted = true) :
    Receives u k posted c (.ready k) 5
  | FFDA (hpc : c.pc = 0xFFDA) (hy : c.y = UInt8.ofNat k) (hp : k = 0 → posted = true) :
    Receives u k posted c (.ready k) 4
  | FFDC_again (hpc : c.pc = 0xFFDC) (hk : 0 < k) (hz : c.psw.zero = false) (hn : c.psw.negative = false)
    (hy : c.y = UInt8.ofNat k) : Receives u k posted c (.ready k) 8
  | FFDC (hpc : c.pc = 0xFFDC) (hz : c.psw.zero = true) (hy : c.y = UInt8.ofNat k) (hp : posted = true) :
    Receives u k posted c (.ready k) 3
  | FFDE (hpc : c.pc = 0xFFDE) (hy : c.y = UInt8.ofNat k) (hp : posted = true) : Receives u k posted c (.ready k) 2
  | FFE0 (hpc : c.pc = 0xFFE0) (hy : c.y = UInt8.ofNat k) (hp : posted = true) (ha : u.data[k]? = some c.a) :
    Receives u k posted c (.ready k) 1
  | FFE2 (i : Nat) (hpc : c.pc = 0xFFE2) (hk : k = i + 1) (hy : c.y = UInt8.ofNat i) (ha : u.data[i]? = some c.a) :
    Receives u k posted c (.ready i) 11
  | FFE4 (i : Nat) (hpc : c.pc = 0xFFE4) (hk : k = i + 1) (hy : c.y = UInt8.ofNat i) :
    Receives u k posted c (.placed k) 10
  | FFE5 (hpc : c.pc = 0xFFE5) (hk : 0 < k) (hy : c.y = UInt8.ofNat k) (hz : c.psw.zero = (c.y == 0)) :
    Receives u k posted c (.placed k) 9
  | FFE7 (hpc : c.pc = 0xFFE7) (hk : 0 < k) (hy : c.y = UInt8.ofNat k) (h0 : UInt8.ofNat k = 0) :
    Receives u k posted c (.placed k) 8
  | FFE9 (hpc : c.pc = 0xFFE9) (hk : 0 < k) (hy : c.y = UInt8.ofNat k) : Receives u k posted c (.ready k) 7
  | FFEB (hpc : c.pc = 0xFFEB) (hk : 0 < k) (hy : c.y = UInt8.ofNat k) : Receives u k posted c (.ready k) 6
  | FFED (hpc : c.pc = 0xFFED) (hk : 0 < k) (hy : c.y = UInt8.ofNat k) (hn : c.psw.negative = false) :
    Receives u k posted c (.ready k) 5

/-- The program has answered `k` bytes. If the host has posted the next one, the program is `n` instructions away from
its answer. -/
structure Receiving (u : Delivery) (r : Registers) (k : Nat) (posted : Bool) (n : Nat) (s : Core) : Prop where
  boots : s.Boots
  registers : s.registers = r
  answer : s.cpu.ports.hostRead 0 = echoed k
  latch : s.cpu.ports.cpuRead 0 = if posted then UInt8.ofNat k else echoed k
  byte : posted = true → u.data[k]? = some (s.cpu.ports.cpuRead 1)
  receives : ∃ f, u.holds f s.memory ∧ Receives u k posted s.cpu.toRegisterSet f n

/-- The program takes in a request, one instruction after the other, and answers it. -/
theorem Requested.step {n : Nat} (h : Requested u r n s) :
    (∃ k, Receiving u r 0 false k s.after) ∨ ∃ k < n, Requested u r k s.after := by
  have hpage := h.boots.page
  obtain ⟨hin0, hin1⟩ := h.command
  obtain ⟨hin2, hin3⟩ := h.destination
  obtain ⟨f, hram, haccepts⟩ := h.accepts
  have keep {c : RegisterSet} {k : Nat} (hc : c.psw.directPage = false)
      (haccepts : Accepts u c f k) : Requested u r k (s.setRegisters c) :=
    ⟨h.boots.setRegisters hc, h.registers, h.command, h.destination, h.unanswered, f, hram, haccepts⟩
  cases haccepts with
  | FFCF hpc =>
    have hz : (s.cpu.psw.compare (s.cpu.ports.cpuRead 0) 0xCC).zero = true := by
      rw [Status.zero_compare, hin0]
      rfl
    rw [s.after_FFCF h.boots hpc]
    exact .inr ⟨6, by decide, keep hpage (.FFD2 rfl hz)⟩
  | FFD2_again hpc hz =>
    rw [s.after_FFD2 h.boots hpc, if_pos hz]
    exact .inr ⟨7, by decide, keep hpage (.FFCF rfl)⟩
  | FFD2 hpc hz =>
    rw [s.after_FFD2 h.boots hpc, if_neg (by rw [hz]; decide)]
    exact .inr ⟨5, by decide, keep hpage (.FFD4 rfl)⟩
  | FFD4 hpc =>
    rw [s.after_FFD4 h.boots hpc]
    exact .inr ⟨4, by decide, keep hpage (.FFEF rfl)⟩
  | FFEF hpc =>
    rw [s.after_FFEF h.boots hpc]
    exact .inr ⟨3, by decide, keep hpage (.FFF1 rfl hin2 hin3)⟩
  | FFF1 hpc ha hy =>
    have hready := u.ready_zero hram
    rw [s.after_FFF1 h.boots hpc, Core.write_of_none (by decide), Core.write_of_none (by decide), ha, hy]
    exact .inr ⟨2, by decide, ⟨h.boots.running, h.boots.rom, hpage⟩, h.registers, h.command, h.destination,
      h.unanswered, _, hready, .FFF3 rfl⟩
  | FFF3 hpc =>
    rw [s.after_FFF3 h.boots hpc]
    exact .inr ⟨1, by decide, keep hpage (.FFF5 rfl hin0 hin1)⟩
  | FFF5 hpc ha hy =>
    have hout := s.cpu.ports.hostRead_cpuWrite_self 0 0xCC
    have hready := u.ready_set 0xCC hram
    have hy0 : s.cpu.y ≠ 0 := by rw [hy]; decide
    rw [s.after_FFF5 h.boots hpc, Core.write_port _ _ (a := 0xF4) (n := 0) rfl, ha]
    exact .inl ⟨10, ⟨h.boots.running, h.boots.rom, hpage⟩, h.registers, hout, hin0, fun hp => absurd hp (by decide), _,
      hready, .FFF7 rfl rfl hy0⟩

namespace Receiving

variable {k n : Nat} {posted : Bool}

/-- What the program compares its count with is the count itself or the number before. -/
theorem count (h : Receiving u r k posted n s) (hk : k = 0 → posted = true) :
    UInt8.ofNat k = s.cpu.ports.cpuRead 0 ∨ UInt8.ofNat k = s.cpu.ports.cpuRead 0 + 1 := by
  rw [h.latch]
  cases posted with
  | true => exact .inl rfl
  | false =>
    cases k with
    | zero => exact absurd (hk rfl) (by decide)
    | succ k => exact .inr (UInt8.ofNat_add k 1)

/-- As long as the next byte has not been posted, the program finds another number than its count. -/
theorem zero_compare (h : Receiving u r k posted n s) :
    (s.cpu.psw.compare (UInt8.ofNat k) (s.cpu.ports.cpuRead 0)).zero = posted := by
  rw [Status.zero_compare, h.latch]
  cases posted with
  | true => exact beq_self_eq_true _
  | false => exact beq_false_of_ne (echoed_ne k).symm

/-- The program waits until a byte is posted, and receives one that is. -/
theorem step (h : Receiving u r k posted n s) :
    (posted = true ∧ ∃ i, Receiving u r (k + 1) false i s.after) ∨
      ∃ i ≤ 10, (posted = true → i < n) ∧ Receiving u r k posted i s.after := by
  have hpage := h.boots.page
  obtain ⟨f, hram, hreceives⟩ := h.receives
  have keep' {f : Filling} (hram : u.holds f s.memory) {c : RegisterSet} {i : Nat} (hc : c.psw.directPage = false)
      (hreceives : Receives u k posted c f i) : Receiving u r k posted i (s.setRegisters c) :=
    ⟨h.boots.setRegisters hc, h.registers, h.answer, h.latch, h.byte, f, hram, hreceives⟩
  have keep {c : RegisterSet} {i : Nat} := keep' hram (c := c) (i := i)
  cases hreceives with
  | FFF7 hpc hk hy =>
    rw [s.after_FFF7 h.boots hpc]
    exact .inr ⟨9, by decide, fun _ => by decide, keep hpage (.FFF8 rfl hk hy)⟩
  | FFF8 hpc hk ha =>
    rw [s.after_FFF8 h.boots hpc]
    exact .inr ⟨8, by decide, fun _ => by decide, keep hpage (.FFF9 rfl hk (beq_false_of_ne ha))⟩
  | FFF9 hpc hk hz =>
    rw [s.after_FFF9 h.boots hpc, if_pos hz]
    exact .inr ⟨6, by decide, fun _ => by decide, keep hpage (.FFD6 rfl hk)⟩
  | FFD6 hpc hk =>
    have hlatch := h.latch
    rw [s.after_FFD6 h.boots hpc]
    subst hk
    cases posted with
    | true =>
      have hz : (s.cpu.psw.setNZ (s.cpu.ports.cpuRead 0)).zero = true := by
        rw [hlatch]
        rfl
      exact .inr ⟨5, by decide, fun _ => by decide, keep hpage (.FFD8 rfl rfl hz hlatch rfl)⟩
    | false =>
      have hz : (s.cpu.psw.setNZ (s.cpu.ports.cpuRead 0)).zero = false := by
        rw [hlatch]
        rfl
      exact .inr ⟨7, by decide, fun hp => absurd hp (by decide), keep hpage (.FFD8_again rfl rfl hz)⟩
  | FFD8_again hpc hk hz =>
    rw [s.after_FFD8 h.boots hpc, if_pos hz]
    exact .inr ⟨6, by decide, fun _ => by decide, keep hpage (.FFD6 rfl hk)⟩
  | FFD8 hpc hk hz hy hp =>
    rw [s.after_FFD8 h.boots hpc, if_neg (by rw [hz]; decide)]
    exact .inr ⟨4, by decide, fun _ => by decide, keep hpage (.FFDA rfl (by rw [hk]; exact hy) fun _ => hp)⟩
  | FFDA hpc hy hp =>
    have hn : (s.cpu.psw.compare s.cpu.y (s.cpu.ports.cpuRead 0)).negative = false :=
      Status.negative_compare _ (hy ▸ h.count hp)
    have hz : (s.cpu.psw.compare s.cpu.y (s.cpu.ports.cpuRead 0)).zero = posted := hy ▸ h.zero_compare
    rw [s.after_FFDA h.boots hpc]
    cases posted with
    | true => exact .inr ⟨3, by decide, fun _ => by decide, keep hpage (.FFDC rfl hz hy rfl)⟩
    | false =>
      have hk : 0 < k := Nat.pos_of_ne_zero fun hk => absurd (hp hk) (by decide)
      exact .inr ⟨8, by decide, fun hp' => absurd hp' (by decide), keep hpage (.FFDC_again rfl hk hz hn hy)⟩
  | FFDC_again hpc hk hz hn hy =>
    rw [s.after_FFDC h.boots hpc, if_pos hz]
    exact .inr ⟨7, by decide, fun _ => by decide, keep hpage (.FFE9 rfl hk hy)⟩
  | FFDC hpc hz hy hp =>
    rw [s.after_FFDC h.boots hpc, if_neg (by rw [hz]; decide)]
    exact .inr ⟨2, by decide, fun _ => by decide, keep hpage (.FFDE rfl hy hp)⟩
  | FFDE hpc hy hp =>
    rw [s.after_FFDE h.boots hpc]
    exact .inr ⟨1, by decide, fun _ => by decide, keep hpage (.FFE0 rfl hy hp (h.byte hp))⟩
  | FFE0 hpc hy hp ha =>
    have hanswer := s.cpu.ports.hostRead_cpuWrite_self 0 (UInt8.ofNat k)
    have hlatch := h.latch
    have hready := u.ready_set (UInt8.ofNat k) hram
    rw [s.after_FFE0 h.boots hpc, Core.write_port _ _ (a := 0xF4) (n := 0) rfl, hy]
    rw [if_pos hp] at hlatch
    exact .inl ⟨hp, 11, ⟨h.boots.running, h.boots.rom, hpage⟩, h.registers, hanswer, hlatch,
      fun hp' => absurd hp' (by decide), _, hready, .FFE2 k rfl rfl hy ha⟩
  | FFE2 i hpc hk hy ha =>
    have hplaced := u.placed_set hram ha
    have hplain := u.plain hram ha
    rw [s.after_FFE2 h.boots hpc, hy, Core.write_of_none hplain]
    subst hk
    exact .inr ⟨10, by decide, fun _ => by decide,
      ⟨⟨h.boots.running, h.boots.rom, hpage⟩, h.registers, h.answer, h.latch, h.byte, _, hplaced, .FFE4 i rfl rfl hy⟩⟩
  | FFE4 i hpc hk hy =>
    have hy' : s.cpu.y + 1 = UInt8.ofNat k := by
      rw [hy, hk]
      exact (UInt8.ofNat_add i 1).symm
    rw [s.after_FFE4 h.boots hpc]
    exact .inr ⟨9, by decide, fun _ => by decide, keep hpage (.FFE5 rfl (by omega) hy' rfl)⟩
  | FFE5 hpc hk hy hz =>
    rw [s.after_FFE5 h.boots hpc]
    by_cases h0 : UInt8.ofNat k = 0
    · rw [hz, hy, h0, if_neg (by decide)]
      exact .inr ⟨8, by decide, fun _ => by decide, keep hpage (.FFE7 rfl hk hy h0)⟩
    · rw [hz, hy, if_pos (beq_false_of_ne h0)]
      exact .inr ⟨4, by decide, fun _ => by decide,
        keep' (u.ready_of_placed hram h0) hpage (.FFDA rfl hy fun hk' => absurd hk (by omega))⟩
  | FFE7 hpc hk hy h0 =>
    have hready := u.ready_of_placed_of_zero hram hk h0
    rw [s.after_FFE7 h.boots hpc, Core.write_of_none (by decide)]
    exact .inr ⟨7, by decide, fun _ => by decide,
      ⟨⟨h.boots.running, h.boots.rom, hpage⟩, h.registers, h.answer, h.latch, h.byte, _, hready, .FFE9 rfl hk hy⟩⟩
  | FFE9 hpc hk hy =>
    rw [s.after_FFE9 h.boots hpc]
    split
    · exact .inr ⟨4, by decide, fun _ => by decide, keep hpage (.FFDA rfl hy fun hk' => absurd hk (by omega))⟩
    · exact .inr ⟨6, by decide, fun _ => by decide, keep hpage (.FFEB rfl hk hy)⟩
  | FFEB hpc hk hy =>
    have hn : (s.cpu.psw.compare s.cpu.y (s.cpu.ports.cpuRead 0)).negative = false :=
      Status.negative_compare _ (hy ▸ h.count fun hk' => absurd hk (by omega))
    rw [s.after_FFEB h.boots hpc]
    exact .inr ⟨5, by decide, fun _ => by decide, keep hpage (.FFED rfl hk hy hn)⟩
  | FFED hpc hk hy hn =>
    rw [s.after_FFED h.boots hpc, if_pos hn]
    exact .inr ⟨4, by decide, fun _ => by decide, keep hpage (.FFDA rfl hy fun hk' => absurd hk (by omega))⟩

end Receiving

end Boot

end SnesSound
