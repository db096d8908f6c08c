import Mathlib.Logic.Function.Iterate
import SnesSound.Proofs.Cpu.Budget
import SnesSound.Proofs.Session.Reach

/-!
# Runs cycle by cycle

A run limited by cycles and one limited by the size of the output are the same machine, which goes on by one cycle of
the CPU at a time and produces a frame in front of the first one of its 32 cycles. How many cycles a run takes depends
on its limits and on what the run before left; what it does in them does not.

Main statements: a run is so many cycles (`run_eq_elapse`), and therefore runs one after the other are one run
(`runAll_eq_run`). Both hold of every session that is on time, which is every one that a host can get to
(`Reachable.onTime`).
-/

namespace SnesSound

/-! ## Machines on time -/

namespace Machine

/-- Whether the CPU has used the time that it was given, up to the rest of one instruction. -/
def OnTime (m : Machine) : Prop := -11 ≤ m.cpu.budget ∧ m.cpu.budget ≤ 0

variable {m : Machine}

@[simp] theorem cpu_tick (m : Machine) (mask : UInt8) : (m.tick mask).2.cpu = m.cpu := rfl

theorem OnTime.tick (h : m.OnTime) (mask : UInt8) : (m.tick mask).2.OnTime := h

theorem OnTime.runCpu (h : m.OnTime) (cycles : Nat) : (m.runCpu cycles).OnTime := by
  unfold Machine.runCpu
  split
  · exact h
  · exact Core.budget_run h.1 cycles

/-- It does not matter how the time is divided that the CPU is given. -/
theorem runCpu_add (h : m.OnTime) {a b : Nat} (hab : a + b ≤ cyclesPerFrame) :
    (m.runCpu a).runCpu b = m.runCpu (a + b) := by
  by_cases ha : a = 0
  · simp [runCpu, ha]
  by_cases hb : b = 0
  · simp [runCpu, hb]
  have hmax : ((a + b : Nat) : Int) ≤ Core.maxBudget := Int.le_trans (Int.ofNat_le.mpr hab) (by decide)
  have hbudget := h.2
  have hheld : m.cpu.budget + (a + b : Nat) ≤ Core.maxBudget := by omega
  have hrun := Core.run_add hmax hheld
  simp [runCpu, ha, hb, hrun]

end Machine

namespace Frame

/-- Bytes of frames one behind the other. -/
theorem encode_append (a b : Array Frame) : encode (a ++ b) = encode a ++ encode b := by
  have h : ∀ (l : List Frame) (bytes : ByteArray), l.foldl push bytes = bytes ++ l.foldl push .empty := by
    intro l
    induction l with
    | nil => simp
    | cons frame l ih =>
      intro bytes
      have hpush : push bytes frame = bytes ++ push .empty frame := by
        apply ByteArray.ext
        apply Array.ext'
        simp [push, pushSample]
      rw [List.foldl_cons, List.foldl_cons, ih, ih (push .empty frame), hpush, ByteArray.append_assoc]
  rw [encode, encode, encode, ← Array.foldl_toList, ← Array.foldl_toList, ← Array.foldl_toList, Array.toList_append,
    List.foldl_append, h]

end Frame

namespace Session

/-- Whether less than the cycles of a frame are owed and the machine is on time. -/
structure OnTime (s : Session) : Prop where
  owed : s.owed < Machine.cyclesPerFrame
  machine : s.machine.OnTime

/-! ## Cycles -/

/-- One cycle of the CPU, with the frames produced so far. -/
def cycle : Session × Array Frame → Session × Array Frame
  | (s, frames) =>
    if s.owed = 0 then
      let (frame, m) := s.machine.tick s.channelMask
      ({ s with machine := m.runCpu 1, owed := Machine.cyclesPerFrame - 1 }, frames.push frame)
    else ({ s with machine := s.machine.runCpu 1, owed := s.owed - 1 }, frames)

theorem cycle_of_owed_eq_zero {s : Session} (h : s.owed = 0) (frames : Array Frame) :
    cycle (s, frames) =
      ({ s with
          machine := (s.machine.tick s.channelMask).2.runCpu 1
          owed := Machine.cyclesPerFrame - 1 }, frames.push (s.machine.tick s.channelMask).1) := by
  rw [cycle, if_pos h]

theorem cycle_of_owed_pos {s : Session} (h : 0 < s.owed) (frames : Array Frame) :
    cycle (s, frames) = ({ s with machine := s.machine.runCpu 1, owed := s.owed - 1 }, frames) := by
  rw [cycle, if_neg (Nat.ne_of_gt h)]

theorem OnTime.cycle {s : Session} (h : s.OnTime) (frames : Array Frame) : (cycle (s, frames)).1.OnTime := by
  by_cases h0 : s.owed = 0
  · rw [cycle_of_owed_eq_zero h0]
    exact ⟨Nat.sub_lt (by decide) (by decide), (h.machine.tick _).runCpu _⟩
  · rw [cycle_of_owed_pos (Nat.pos_of_ne_zero h0)]
    exact ⟨Nat.lt_of_le_of_lt (Nat.sub_le _ _) h.owed, h.machine.runCpu _⟩

theorem OnTime.iterate_cycle {s : Session} (h : s.OnTime) (n : Nat) (frames : Array Frame) :
    (Session.cycle^[n] (s, frames)).1.OnTime := by
  induction n with
  | zero => exact h
  | succ n ih =>
    rw [Function.iterate_succ_apply']
    exact ih.cycle _

/-- Frames are put behind those that were there before. -/
theorem iterate_cycle_frames (n : Nat) (s : Session) (frames : Array Frame) :
    cycle^[n] (s, frames) = ((cycle^[n] (s, #[])).1, frames ++ (cycle^[n] (s, #[])).2) := by
  induction n with
  | zero => simp
  | succ n ih =>
    rw [Function.iterate_succ_apply', Function.iterate_succ_apply', ih]
    generalize cycle^[n] (s, #[]) = r
    by_cases h : r.1.owed = 0
    · simp only [cycle_of_owed_eq_zero h, Array.append_push]
    · simp only [cycle_of_owed_pos (Nat.pos_of_ne_zero h)]

/-- Paying off what is owed. -/
theorem iterate_cycle_pay {s : Session} (h : s.OnTime) {n : Nat} (hn : n ≤ s.owed) (frames : Array Frame) :
    cycle^[n] (s, frames) = ({ s with machine := s.machine.runCpu n, owed := s.owed - n }, frames) := by
  induction n with
  | zero => rfl
  | succ n ih =>
    have hlt : n + 1 ≤ Machine.cyclesPerFrame := Nat.le_trans hn (Nat.le_of_lt h.owed)
    rw [Function.iterate_succ_apply', ih (Nat.le_of_succ_le hn), cycle_of_owed_pos (Nat.sub_pos_of_lt hn)]
    simp only [Machine.runCpu_add h.machine hlt, Nat.sub_sub]

/-- Beginning a frame. -/
theorem iterate_cycle_begin {s : Session} (h : s.OnTime) (h0 : s.owed = 0) {n : Nat} (hpos : 0 < n)
    (hn : n ≤ Machine.cyclesPerFrame) (frames : Array Frame) :
    cycle^[n] (s, frames) =
      ({ s with
          machine := (s.machine.tick s.channelMask).2.runCpu n
          owed := Machine.cyclesPerFrame - n }, frames.push (s.machine.tick s.channelMask).1) := by
  obtain ⟨k, rfl⟩ := Nat.exists_eq_add_of_lt hpos
  have hk : k ≤ Machine.cyclesPerFrame - 1 := by omega
  have ht := h.machine.tick s.channelMask
  have hc := h.cycle frames
  rw [Nat.zero_add, Function.iterate_succ_apply]
  rw [cycle_of_owed_eq_zero h0] at hc ⊢
  rw [iterate_cycle_pay hc hk]
  simp only [Machine.runCpu_add ht (a := 1) (b := k) (by omega), Nat.sub_sub, Nat.add_comm 1]

/-- Producing whole frames. -/
theorem iterate_cycle_produce {s : Session} (h : s.OnTime) (h0 : s.owed = 0) (n : Nat) (frames : Array Frame) :
    cycle^[n * Machine.cyclesPerFrame] (s, frames) =
      ({ s with machine := (Machine.produce s.channelMask n s.machine frames).1 },
        (Machine.produce s.channelMask n s.machine frames).2) := by
  induction n generalizing s frames with
  | zero => simp [Machine.produce]
  | succ n ih =>
    have hframe := iterate_cycle_begin h h0 (n := Machine.cyclesPerFrame) (by decide) (Nat.le_refl _) frames
    have ht := h.iterate_cycle Machine.cyclesPerFrame frames
    rw [hframe] at ht
    rw [Nat.succ_mul, Function.iterate_add_apply, hframe, ih ht (Nat.sub_self _)]
    simp only [Machine.produce, Nat.sub_self, h0]

/-! ## Runs -/

/-- The session after a number of cycles, and the frames that they produced. -/
def elapse (s : Session) (n : Nat) : Session × Array Frame := cycle^[n] (s, #[])

theorem OnTime.elapse {s : Session} (h : s.OnTime) (n : Nat) : (s.elapse n).1.OnTime := h.iterate_cycle n #[]

/-- What holds at first and is kept by cycles, whether they begin a frame or pay for one that is owed, holds after any
number of them. -/
theorem elapse_induction {P : Nat → Session → Array Frame → Prop} {s : Session} (zero : P 0 s #[])
    (begins : ∀ {n t frames}, t.owed = 0 → P n t frames →
      P (n + 1) { t with machine := (t.machine.tick t.channelMask).2.runCpu 1, owed := Machine.cyclesPerFrame - 1 }
        (frames.push (t.machine.tick t.channelMask).1))
    (pays : ∀ {n t frames}, 0 < t.owed → P n t frames →
      P (n + 1) { t with machine := t.machine.runCpu 1, owed := t.owed - 1 } frames) (n : Nat) :
    P n (s.elapse n).1 (s.elapse n).2 := by
  induction n with
  | zero => exact zero
  | succ n ih =>
    rw [elapse] at ih
    rw [elapse, Function.iterate_succ_apply']
    generalize cycle^[n] (s, #[]) = r at ih ⊢
    by_cases h0 : r.1.owed = 0
    · rw [cycle_of_owed_eq_zero h0]
      exact begins h0 ih
    · rw [cycle_of_owed_pos (Nat.pos_of_ne_zero h0)]
      exact pays (Nat.pos_of_ne_zero h0) ih

/-- The same for sessions on time, which they are all along. -/
theorem OnTime.elapse_induction {P : Nat → Session → Array Frame → Prop} {s : Session} (h : s.OnTime)
    (zero : P 0 s #[])
    (begins : ∀ {n t frames}, t.OnTime → t.owed = 0 → P n t frames →
      P (n + 1) { t with machine := (t.machine.tick t.channelMask).2.runCpu 1, owed := Machine.cyclesPerFrame - 1 }
        (frames.push (t.machine.tick t.channelMask).1))
    (pays : ∀ {n t frames}, t.OnTime → 0 < t.owed → P n t frames →
      P (n + 1) { t with machine := t.machine.runCpu 1, owed := t.owed - 1 } frames) (n : Nat) :
    P n (s.elapse n).1 (s.elapse n).2 := by
  refine (Session.elapse_induction (P := fun n t frames => t.OnTime ∧ P n t frames) ⟨h, zero⟩ ?_ ?_ n).2
  · rintro n t frames h0 ⟨ht, hp⟩
    have hnext := ht.cycle frames
    rw [cycle_of_owed_eq_zero h0] at hnext
    exact ⟨hnext, begins ht h0 hp⟩
  · rintro n t frames hpos ⟨ht, hp⟩
    have hnext := ht.cycle frames
    rw [cycle_of_owed_pos hpos] at hnext
    exact ⟨hnext, pays ht hpos hp⟩

theorem elapse_add (s : Session) (a b : Nat) :
    s.elapse (a + b) = (((s.elapse a).1.elapse b).1, (s.elapse a).2 ++ ((s.elapse a).1.elapse b).2) := by
  unfold elapse
  rw [Nat.add_comm, Function.iterate_add_apply, iterate_cycle_frames]

/-- The cycles of a run of at most `maxCycles` cycles, if given, and at most `maxBytes` bytes. -/
def demand (s : Session) (maxCycles : Option Nat) (maxBytes : Nat) : Nat :=
  match maxCycles with
  | none => Machine.cyclesPerFrame * (maxBytes / bytesPerFrame) + s.owed
  | some cycles => min cycles (Machine.cyclesPerFrame * (maxBytes / bytesPerFrame) + s.owed)

/-- Paying off what is owed, producing whole frames and beginning a last one. -/
theorem follow_whole {s : Session} (h : s.OnTime) (frames part : Nat) (hp : part < Machine.cyclesPerFrame) :
    s.follow { paid := s.owed, frames, part, owed := if part = 0 then 0 else Machine.cyclesPerFrame - part } =
      s.elapse (s.owed + frames * Machine.cyclesPerFrame + part) := by
  have hpay := iterate_cycle_pay h (Nat.le_refl _) #[]
  have h1 := h.iterate_cycle s.owed #[]
  rw [hpay] at h1
  have hproduce := iterate_cycle_produce h1 (Nat.sub_self _) frames #[]
  have h2 := h1.iterate_cycle (frames * Machine.cyclesPerFrame) #[]
  rw [hproduce] at h2
  rw [elapse, Nat.add_comm, Function.iterate_add_apply, Nat.add_comm s.owed, Function.iterate_add_apply, hpay,
    hproduce]
  unfold follow
  by_cases h0 : part = 0
  · subst h0
    simp
  · rw [iterate_cycle_begin h2 (Nat.sub_self _) (Nat.pos_of_ne_zero h0) (Nat.le_of_lt hp)]
    simp [h0]

/-- Paying off some of what is owed. -/
theorem follow_short {s : Session} (h : s.OnTime) {cycles : Nat} (hc : cycles < s.owed) :
    s.follow { paid := cycles, frames := 0, part := 0, owed := s.owed - cycles } = s.elapse cycles := by
  rw [elapse, iterate_cycle_pay h (Nat.le_of_lt hc)]
  simp [follow, Machine.produce]

/-- A run carries out its cycles one by one. -/
theorem follow_eq_elapse {s : Session} (h : s.OnTime) (maxCycles : Option Nat) (maxBytes : Nat) :
    s.follow (s.schedule maxCycles maxBytes) = s.elapse (s.demand maxCycles maxBytes) := by
  have hwhole (frames : Nat) := follow_whole h frames 0 (by decide)
  cases maxCycles with
  | none =>
    rw [demand, Nat.add_comm, Nat.mul_comm]
    exact hwhole _
  | some cycles =>
    simp only [schedule, Schedule.make]
    split
    next hle =>
      rw [demand, Nat.min_eq_right (by rw [Nat.mul_comm]; exact hle), Nat.add_comm, Nat.mul_comm]
      exact hwhole _
    next hlt =>
      rw [demand, Nat.min_eq_left (by rw [Nat.mul_comm]; exact Nat.le_of_not_le hlt)]
      split
      next hc => exact follow_short h hc
      next hc =>
        have hpart : (cycles - s.owed) % 32 < 32 := Nat.mod_lt _ (by decide)
        refine (follow_whole h ((cycles - s.owed) / 32) ((cycles - s.owed) % 32) hpart).trans ?_
        congr 1
        change s.owed + (cycles - s.owed) / 32 * 32 + (cycles - s.owed) % 32 = cycles
        omega

/-- A run returns the bytes of the frames of its cycles. -/
theorem run_eq_elapse {s : Session} (h : s.OnTime) (maxCycles : Option Nat) (maxBytes : Nat) :
    s.run maxCycles maxBytes = ((s.elapse (s.demand maxCycles maxBytes)).1,
      Frame.encode (s.elapse (s.demand maxCycles maxBytes)).2) := by
  unfold run
  rw [follow_eq_elapse h]

theorem OnTime.run {s : Session} (h : s.OnTime) (maxCycles : Option Nat) (maxBytes : Nat) :
    (s.run maxCycles maxBytes).1.OnTime := by
  rw [run_eq_elapse h]
  exact h.elapse _

theorem onTime_new : OnTime {} := ⟨by decide, Int.le_of_lt (by decide : (-11 : Int) < 0), Int.le_refl 0⟩

theorem onTime_install (s : Session) (snapshot : Snapshot) : (s.install snapshot).OnTime :=
  ⟨(by decide : 0 < Machine.cyclesPerFrame), Int.le_of_lt (by decide : (-11 : Int) < 0), Int.le_refl 0⟩

/-- A host can only get to sessions that are on time. -/
theorem Reachable.onTime {s : Session} (h : Reachable s) : s.OnTime :=
  h.induction onTime_new onTime_install (fun _ maxCycles maxBytes hs => hs.run maxCycles maxBytes)
    (fun _ _ _ hs => ⟨hs.owed, hs.machine⟩) fun _ _ hs => ⟨hs.owed, hs.machine⟩

/-! ## Runs one after the other -/

/-- Runs with the given limits, one after the other. Returns what they produce, one behind the other. -/
def runAll (s : Session) : List (Option Nat × Nat) → Session × ByteArray
  | [] => (s, .empty)
  | (maxCycles, maxBytes) :: limits =>
    let (s, bytes) := s.run maxCycles maxBytes
    let (s, rest) := s.runAll limits
    (s, bytes ++ rest)

/-- The cycles of runs one after the other. -/
def totalDemand (s : Session) : List (Option Nat × Nat) → Nat
  | [] => 0
  | (maxCycles, maxBytes) :: limits =>
    s.demand maxCycles maxBytes + (s.run maxCycles maxBytes).1.totalDemand limits

/-- Runs one after the other go through their cycles one by one. -/
theorem runAll_eq_elapse {s : Session} (h : s.OnTime) (limits : List (Option Nat × Nat)) :
    s.runAll limits = ((s.elapse (s.totalDemand limits)).1, Frame.encode (s.elapse (s.totalDemand limits)).2) := by
  induction limits generalizing s with
  | nil => rfl
  | cons limit limits ih =>
    obtain ⟨maxCycles, maxBytes⟩ := limit
    rw [runAll, totalDemand, elapse_add, Frame.encode_append]
    dsimp only
    rw [ih (h.run maxCycles maxBytes), run_eq_elapse h]

/-- Runs one after the other are one run that is limited to the cycles of all of them, as long as its output has
room. -/
theorem runAll_eq_run {s : Session} (h : Reachable s) (limits : List (Option Nat × Nat)) (maxBytes : Nat)
    (hb : s.totalDemand limits ≤ Machine.cyclesPerFrame * (maxBytes / bytesPerFrame) + s.owed) :
    s.runAll limits = s.run (some (s.totalDemand limits)) maxBytes := by
  rw [runAll_eq_elapse h.onTime, run_eq_elapse h.onTime, demand, Nat.min_eq_left hb]

/-- A run that ends within a frame, and then one that fills the output, which is limited by its size. -/
theorem runAll_eq_run_of_new :
    ({} : Session).runAll [(some 20, 4), (none, 4)] = ({} : Session).run (some 64) 8 := by
  have ht : ({} : Session).totalDemand [(some 20, 4), (none, 4)] = 64 := by
    simp [totalDemand, demand, owed_run, schedule, Schedule.make, Machine.cyclesPerFrame, bytesPerFrame]
  have h := runAll_eq_run Reachable.new [(some 20, 4), (none, 4)] 8 (by rw [ht]; decide)
  rwa [ht] at h

end Session

end SnesSound
