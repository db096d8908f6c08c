import SnesSound.Proofs.Checked.Machine
import SnesSound.Proofs.Checked.Snapshot

/-!
# Checked sessions

A host may make any calls with any arguments, in any order. A session is in its range if its machine is and less than
the cycles of a frame are owed (`Session.InRange`); every new or loaded session is, and every call keeps it so. A run
is carried out here by its own limits rather than by a schedule, with cycles counted in 64 bits.

Main statements: a call does not stop a session that is in its range (`perform_eq`), and so the engine never stops,
whatever it is made from and whatever it is asked, as long as the cycles that the CPU has run can be counted
(`use_eq`).
-/

namespace SnesSound

/-- Greatest number of 64 bits. -/
def maxWord64 : Nat := 2 ^ 64 - 1

namespace Session

/-- Whether a session is in a state that a host can get to. -/
structure InRange (s : Session) : Prop where
  machine : s.machine.InRange
  owed : s.owed < Machine.cyclesPerFrame

theorem inRange_new : InRange {} := ⟨Machine.inRange_powerOn, by decide⟩

theorem inRange_install (s : Session) (snapshot : Snapshot) : (s.install snapshot).InRange where
  machine := {
    timers := Cpu.inRange_restore _ _
    dsp := Dsp.inRange_default
    onTime := (onTime_install s snapshot).machine }
  owed := (onTime_install s snapshot).owed

theorem InRange.onTime {s : Session} (h : s.InRange) : s.OnTime := ⟨h.owed, h.machine.onTime⟩

theorem InRange.hostWrite {s : Session} (h : s.InRange) (p : Fin 4) (value : UInt8) : (s.hostWrite p value).InRange :=
  ⟨⟨h.machine.timers, h.machine.dsp, h.machine.onTime⟩, h.owed⟩

theorem InRange.mute {s : Session} (h : s.InRange) (mask : UInt8) : (s.mute mask).InRange := ⟨h.machine, h.owed⟩

/-- A session that is paid off, produces whole frames and begins a last one follows a schedule. -/
theorem follow_mk (s : Session) (paid frames part owed : Nat) :
    s.follow { paid, frames, part, owed } =
      let next := (s.machine.runCpu paid).produce s.channelMask frames #[]
      if part = 0 then ({ s with machine := next.1, owed }, next.2)
      else ({ s with machine := (next.1.tick s.channelMask).2.runCpu part, owed },
        next.2.push (next.1.tick s.channelMask).1) := rfl

end Session

namespace Checked

variable {s : Session}

/-! ## Loading -/

/-- Loads a snapshot. -/
def load (s : Session) (bytes : ByteArray) : Checked (Except LoadError Session) := do
  match ← readSnapshot bytes with
  | some snapshot => do
    let machine ← restore snapshot s.options
    return .ok { s.install snapshot with machine }
  | none => return .error .unrecognizedFormat

/-- A new session. -/
def new : Checked Session := do
  let machine ← powerOn
  return { machine }

/-- A new session with a snapshot. -/
def ofSnapshot (bytes : ByteArray) (options : LoadOptions) : Checked (Except LoadError Session) := do
  let s ← new
  load { s with options } bytes

theorem load_eq (s : Session) (bytes : ByteArray) : load s bytes = .ok (s.load bytes) := by
  rw [load, readSnapshot_eq, ok_bind, Session.load]
  cases Snapshot.parse? bytes with
  | none => rfl
  | some snapshot =>
    dsimp only
    rw [restore_eq]
    rfl

theorem new_eq : new = .ok {} := by
  rw [new, powerOn_eq]
  rfl

theorem ofSnapshot_eq (bytes : ByteArray) (options : LoadOptions) :
    ofSnapshot bytes options = .ok (Session.ofSnapshot bytes options) := by
  rw [ofSnapshot, new_eq, ok_bind, load_eq]
  rfl

/-! ## Runs -/

/-- Runs a number of frames, after what is owed. -/
def runFrames (s : Session) (frames : Nat) : Checked (Session × Array Frame) := do
  let m ← runMachine s.machine s.owed
  let next ← produce s.channelMask frames m #[]
  return ({ s with machine := next.1, owed := 0 }, next.2)

/-- Begins a last frame if there are cycles left for a part of it. -/
def runPart (s : Session) (cycles : Nat) (m : Machine) (frames : Array Frame) : Checked (Session × Array Frame) :=
  if 0 < cycles then do
    let next ← frame s.channelMask cycles m frames
    let owed ← subtract Machine.cyclesPerFrame cycles
    return ({ s with machine := next.1, owed }, next.2)
  else return ({ s with machine := m, owed := 0 }, frames)

/-- Runs a number of cycles. -/
def runCycles (s : Session) (cycles : Nat) : Checked (Session × Array Frame) :=
  if cycles < s.owed then do
    let machine ← runMachine s.machine cycles
    let owed ← subtract s.owed cycles
    return ({ s with machine, owed }, #[])
  else do
    let m ← runMachine s.machine s.owed
    let cycles ← subtract cycles s.owed
    let next ← produceWhole s.channelMask cycles m #[]
    runPart s next.1 next.2.1 next.2.2

/-- Runs the machine until `room` cycles have passed, which are those of the given frames, or until the limit. -/
def runLimited (s : Session) (maxCycles : Option Nat) (room frames : Nat) : Checked (Session × Array Frame) :=
  match maxCycles with
  | some cycles => if cycles < room then runCycles s cycles else runFrames s frames
  | none => runFrames s frames

/-- Runs the machine. The cycles that the output has room for stay at the greatest number if there are more. -/
def runSession (s : Session) (maxCycles : Option Nat) (maxBytes : Nat) : Checked (Session × ByteArray) := do
  let frames ← divide maxBytes bytesPerFrame
  let room := min (min (frames * Machine.cyclesPerFrame) maxWord64 + s.owed) maxWord64
  let _ ← natural 64 (frames * bytesPerFrame)
  let next ← runLimited s maxCycles room frames
  return (next.1, Frame.encode next.2)

/-- The last frame is begun where a schedule leaves a part of it. -/
theorem runPart_eq (s : Session) {m : Machine} (h : m.InRange) (cycles : Nat) (hc : cycles < Machine.cyclesPerFrame)
    (ht : m.time + cycles < 2 ^ 63) (frames : Array Frame) :
    runPart s cycles m frames = .ok (if cycles = 0 then ({ s with machine := m, owed := 0 }, frames)
      else ({ s with
          machine := (m.tick s.channelMask).2.runCpu cycles
          owed := Machine.cyclesPerFrame - cycles }, frames.push (m.tick s.channelMask).1)) ∧
      (if cycles = 0 then m else (m.tick s.channelMask).2.runCpu cycles).InRange := by
  unfold runPart
  by_cases h0 : cycles = 0
  · rw [if_neg (by omega), if_pos h0, if_pos h0]
    exact ⟨rfl, h⟩
  · obtain ⟨hframe, hrange, -⟩ := frame_eq h s.channelMask (Nat.le_of_lt hc) ht frames
    rw [if_pos (Nat.pos_of_ne_zero h0), if_neg h0, if_neg h0, hframe, ok_bind, subtract_ok (Nat.le_of_lt hc)]
    exact ⟨rfl, hrange⟩

theorem runFrames_eq (h : s.InRange) {frames : Nat} (ht : s.machine.time + (s.owed + 32 * frames) < 2 ^ 63) :
    runFrames s frames = .ok (s.follow { paid := s.owed, frames, part := 0, owed := 0 }) ∧
      (s.follow { paid := s.owed, frames, part := 0, owed := 0 }).1.machine.InRange := by
  obtain ⟨hpay, hrange, htime⟩ := runMachine_eq h.machine (Nat.le_of_lt h.owed) (by omega)
  obtain ⟨hproduce, hend, -⟩ := produce_eq hrange s.channelMask (n := frames) (by omega) #[]
  rw [runFrames, hpay, ok_bind, hproduce]
  exact ⟨rfl, hend⟩

theorem runCycles_eq (h : s.InRange) {cycles frames : Nat} (hc : cycles < frames * 32 + s.owed)
    (ht : s.machine.time + cycles < 2 ^ 63) :
    runCycles s cycles = .ok (s.follow (.make s.owed (some cycles) frames)) ∧
      (s.follow (.make s.owed (some cycles) frames)).1.machine.InRange := by
  have howed := h.owed
  simp only [Schedule.make, if_neg (Nat.not_le.mpr hc)]
  unfold runCycles
  split
  next hlt =>
    obtain ⟨hpay, hrange, -⟩ := runMachine_eq h.machine (by omega) ht
    rw [hpay, ok_bind, subtract_ok (Nat.le_of_lt hlt)]
    exact ⟨rfl, hrange⟩
  next hle =>
    have hcycles : Machine.cyclesPerFrame = 32 := rfl
    obtain ⟨hpay, hpaid, htime⟩ := runMachine_eq h.machine (Nat.le_of_lt h.owed) (by omega)
    have hwhole := produceWhole_eq hpaid s.channelMask (cycles - s.owed) (by omega) #[]
    obtain ⟨-, hrange, hend⟩ := produce_eq hpaid s.channelMask (n := (cycles - s.owed) / 32) (by omega) #[]
    obtain ⟨hpart, hlast⟩ := runPart_eq s hrange ((cycles - s.owed) % 32) (by omega) (by omega)
      ((s.machine.runCpu s.owed).produce s.channelMask ((cycles - s.owed) / 32) #[]).2
    rw [hpay, ok_bind, subtract_ok (by omega), ok_bind, hwhole, ok_bind]
    dsimp only
    rw [hpart, Session.follow_mk]
    dsimp only
    split
    next h0 => rw [if_pos h0] at hlast; exact ⟨rfl, hlast⟩
    next h0 => rw [if_neg h0] at hlast; exact ⟨rfl, hlast⟩

/-- The cycles that the CPU has run after a run bound the time that the run takes. -/
theorem time_add_demand_le (h : s.InRange) (maxCycles : Option Nat) (maxBytes : Nat) :
    s.machine.time + s.demand maxCycles maxBytes ≤ (s.run maxCycles maxBytes).1.totalCycles := by
  have htime := Session.cycles_elapse h.onTime (s.demand maxCycles maxBytes)
  have hend := (h.onTime.elapse (s.demand maxCycles maxBytes)).machine.2
  rw [Session.run_eq_elapse h.onTime]
  unfold Machine.time
  unfold Session.totalCycles at htime ⊢
  dsimp only
  omega

/-- As long as its cycles can be counted, a run that is limited by 64-bit numbers does what one without them does. -/
theorem runLimited_eq (h : s.InRange) {maxCycles : Option Nat} (hc : ∀ cycles ∈ maxCycles, cycles < 2 ^ 64)
    (maxBytes : Nat) (ht : s.machine.time + s.demand maxCycles maxBytes < 2 ^ 63) :
    runLimited s maxCycles
        (min (min (maxBytes / bytesPerFrame * Machine.cyclesPerFrame) maxWord64 + s.owed) maxWord64)
        (maxBytes / bytesPerFrame) = .ok (s.follow (s.schedule maxCycles maxBytes)) ∧
      (s.follow (s.schedule maxCycles maxBytes)).1.machine.InRange := by
  have hword : maxWord64 = 18446744073709551615 := rfl
  have hbudget := h.machine.onTime.1
  have htime : s.machine.time = s.machine.cpu.cycles + s.machine.cpu.budget := rfl
  unfold Session.demand at ht
  unfold runLimited Session.schedule
  rw [Machine.cyclesPerFrame] at *
  generalize maxBytes / bytesPerFrame = frames at ht ⊢
  cases maxCycles with
  | none =>
    dsimp only at ht
    exact runFrames_eq h (by omega)
  | some cycles =>
    have hlt := hc cycles rfl
    dsimp only at ht ⊢
    split
    next hroom => exact runCycles_eq h (by omega) (by omega)
    next hroom =>
      -- the cycles of a run whose output has room for more than 64 bits hold could not be counted
      have hle : frames * 32 + s.owed ≤ cycles := by omega
      simp only [Schedule.make, if_pos hle]
      exact runFrames_eq h (by omega)

/-- A run never stops the engine as long as its cycles can be counted. -/
theorem runSession_eq (h : s.InRange) {maxCycles : Option Nat} (hc : ∀ cycles ∈ maxCycles, cycles < 2 ^ 64)
    {maxBytes : Nat} (hb : maxBytes < 2 ^ 64) (ht : (s.run maxCycles maxBytes).1.totalCycles < 2 ^ 63) :
    runSession s maxCycles maxBytes = .ok (s.run maxCycles maxBytes) ∧ (s.run maxCycles maxBytes).1.InRange := by
  have hdemand := time_add_demand_le h maxCycles maxBytes
  have hbytes : maxBytes / bytesPerFrame * bytesPerFrame ≤ maxBytes := Nat.div_mul_le_self _ _
  obtain ⟨hrun, hrange⟩ := runLimited_eq h hc maxBytes (by omega)
  rw [runSession, divide_ok (by decide), ok_bind, natural_ok (by omega), ok_bind, hrun]
  exact ⟨rfl, hrange, (h.onTime.run maxCycles maxBytes).owed⟩

/-! ## Ports -/

/-- Writes to a port. -/
def writePort (s : Session) (number : Nat) (data : Int) : Checked (Except PortError Session) :=
  if 4 ≤ number then return .error (.portOutOfRange number)
  else if data < -128 ∨ 255 < data then return .error (.dataOutOfRange data)
  else do
    let p ← index .assertion 4 number
    return .ok (s.hostWrite p (UInt8.ofInt data))

/-- Reads from a port. -/
def readPort (s : Session) (number : Nat) : Checked (Except PortError UInt8) :=
  if 4 ≤ number then return .error (.portOutOfRange number)
  else do
    let p ← index .assertion 4 number
    return .ok (s.machine.cpu.ports.hostRead p)

theorem port_eq (number : Nat) : Session.port number =
    if h : number < 4 then .ok ⟨number, h⟩ else .error (.portOutOfRange number) := by
  unfold Session.port Ports.select
  split <;> rfl

theorem writePort_eq (s : Session) (number : Nat) (data : Int) :
    writePort s number data = .ok (s.writePort number data) := by
  unfold writePort Session.writePort
  rw [port_eq]
  by_cases h : number < 4
  · rw [if_neg (by omega), dif_pos h, index_ok h]
    split
    next => simp [bind, Except.bind, throw, throwThe, MonadExceptOf.throw, pure, Except.pure]
    next => simp [bind, Except.bind, pure, Except.pure, Session.hostWrite]
  · rw [if_pos (by omega), dif_neg h]
    rfl

theorem readPort_eq (s : Session) (number : Nat) : readPort s number = .ok (s.readPort number) := by
  unfold readPort Session.readPort
  rw [port_eq]
  by_cases h : number < 4
  · rw [if_neg (by omega), dif_pos h, index_ok h]
    rfl
  · rw [if_pos (by omega), dif_neg h]
    rfl

/-! ## Whole uses -/

/-- What a call changes. -/
def perform (s : Session) : Call → Checked Session
  | .load bytes => do
    let loaded ← load s bytes
    return loaded.toOption.getD s
  | .run maxCycles maxBytes => do
    let next ← runSession s (maxCycles.map UInt64.toNat) maxBytes.toNat
    return next.1
  | .writePort number data => do
    let written ← writePort s number.toNat data.toInt
    return written.toOption.getD s
  | .readPort number => do
    let _ ← readPort s number.toNat
    return s
  | .mute mask => return s.mute mask

/-- Calls one after the other. -/
def performAll (s : Session) (calls : List Call) : Checked Session := calls.foldlM perform s

/-- No call stops the engine as long as the cycles that it leaves can be counted. -/
theorem perform_eq (h : s.InRange) (call : Call) (ht : (s.perform call).totalCycles < 2 ^ 63) :
    perform s call = .ok (s.perform call) ∧ (s.perform call).InRange := by
  cases call with
  | load bytes =>
    rw [perform, load_eq, ok_bind]
    refine ⟨rfl, ?_⟩
    change ((s.load bytes).toOption.getD s).InRange
    cases hl : s.load bytes with
    | error => exact h
    | ok t =>
      obtain ⟨snapshot, -, rfl⟩ := Session.load_eq_ok hl
      exact Session.inRange_install s snapshot
  | run maxCycles maxBytes =>
    have hc : ∀ cycles ∈ maxCycles.map UInt64.toNat, cycles < 2 ^ 64 := by
      intro cycles hmem
      obtain ⟨limit, -, rfl⟩ := Option.map_eq_some_iff.mp hmem
      exact limit.toNat_lt
    obtain ⟨hrun, hrange⟩ := runSession_eq h hc maxBytes.toNat_lt ht
    rw [perform, hrun]
    exact ⟨rfl, hrange⟩
  | writePort number data =>
    rw [perform, writePort_eq, ok_bind]
    refine ⟨rfl, ?_⟩
    change ((s.writePort number.toNat data.toInt).toOption.getD s).InRange
    cases hw : s.writePort number.toNat data.toInt with
    | error => exact h
    | ok t =>
      obtain ⟨p, -, rfl⟩ := Session.writePort_eq_ok hw
      exact h.hostWrite p _
  | readPort number =>
    rw [perform, readPort_eq]
    exact ⟨rfl, h⟩
  | mute mask => exact ⟨rfl, h.mute mask⟩

/-- No calls stop the engine as long as the cycles that each of them leaves can be counted. -/
theorem performAll_eq (h : s.InRange) (calls : List Call)
    (ht : ∀ n, ((calls.take n).foldl Session.perform s).totalCycles < 2 ^ 63) :
    performAll s calls = .ok (calls.foldl Session.perform s) := by
  induction calls generalizing s with
  | nil => rfl
  | cons call calls ih =>
    obtain ⟨hcall, hrange⟩ := perform_eq h call (ht 1)
    rw [performAll, List.foldlM_cons, hcall, ok_bind, List.foldl_cons]
    exact ih hrange fun n => ht (n + 1)

end Checked

namespace Session

/-- Creates a session, empty or with a snapshot. -/
def create : Option (ByteArray × LoadOptions) → Except LoadError Session
  | none => .ok {}
  | some (bytes, options) => ofSnapshot bytes options

/-- A whole use of the engine: a session is created, and then calls are made. -/
def use (source : Option (ByteArray × LoadOptions)) (calls : List Call) : Except LoadError Session :=
  (create source).map (calls.foldl perform)

theorem inRange_create {source : Option (ByteArray × LoadOptions)} {s : Session} (h : create source = .ok s) :
    s.InRange := by
  cases source with
  | none =>
    cases h
    exact inRange_new
  | some source =>
    obtain ⟨snapshot, -, rfl⟩ := load_eq_ok h
    exact inRange_install _ snapshot

end Session

namespace Checked

/-- Creates a session, empty or with a snapshot. -/
def create : Option (ByteArray × LoadOptions) → Checked (Except LoadError Session)
  | none => do
    let s ← new
    return .ok s
  | some (bytes, options) => ofSnapshot bytes options

/-- Makes calls if there is a session to make them to. -/
def performCreated (calls : List Call) : Except LoadError Session → Checked (Except LoadError Session)
  | .ok s => do
    let s ← performAll s calls
    return .ok s
  | .error e => return .error e

/-- A whole use of the engine. -/
def use (source : Option (ByteArray × LoadOptions)) (calls : List Call) : Checked (Except LoadError Session) := do
  let created ← create source
  performCreated calls created

theorem create_eq (source : Option (ByteArray × LoadOptions)) : create source = .ok (Session.create source) := by
  cases source with
  | none =>
    rw [create, new_eq]
    rfl
  | some source => exact ofSnapshot_eq source.1 source.2

/-- The engine never stops: whether a session is created empty or from any bytes, and whatever calls are made then with
whatever arguments, every operation stays in its range, as long as the cycles of the CPU stay below 2⁶³ after each
call. -/
theorem use_eq (source : Option (ByteArray × LoadOptions)) (calls : List Call)
    (ht : ∀ n, ∀ s, Session.use source (calls.take n) = .ok s → s.totalCycles < 2 ^ 63) :
    use source calls = .ok (Session.use source calls) := by
  unfold use
  unfold Session.use at ht ⊢
  rw [create_eq, ok_bind]
  cases hc : Session.create source with
  | error e => rfl
  | ok s =>
    have hcalls := performAll_eq (Session.inRange_create hc) calls fun n => ht n _ (by rw [hc]; rfl)
    rw [performCreated, hcalls]
    rfl

/-- A port that does not exist, and then a run of two frames. -/
theorem use_eq_of_new :
    use none [.writePort 9 0, .run (some 64) 8] = .ok (Session.use none [.writePort 9 0, .run (some 64) 8]) := by
  have hdemand : ({} : Session).demand (some 64) 8 = 64 := by
    simp [Session.demand, Machine.cyclesPerFrame, bytesPerFrame]
  have hrun : (({} : Session).run (some 64) 8).1.totalCycles ≤ 75 := by
    have htime := Session.cycles_elapse Session.onTime_new 64
    have hend := (Session.onTime_new.elapse 64).machine.1
    have hstart : (({} : Session).totalCycles : Int) + ({} : Session).machine.cpu.budget = 0 := rfl
    rw [Session.run_eq_elapse Session.onTime_new, hdemand]
    dsimp only
    omega
  refine use_eq none _ fun n s hs => ?_
  rcases n with _ | _ | n
  · cases hs
    exact (by decide : 0 < 2 ^ 63)
  · cases hs
    exact (by decide : 0 < 2 ^ 63)
  · rw [List.take_of_length_le (Nat.le_add_left 2 n)] at hs
    cases hs
    exact Nat.lt_of_le_of_lt hrun (by decide : 75 < 2 ^ 63)

end Checked

end SnesSound
