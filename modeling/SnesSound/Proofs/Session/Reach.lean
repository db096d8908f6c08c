import SnesSound.Session

/-!
# Sessions that a host can get to

A host creates a session, empty or from a snapshot, and then makes calls. A call that is refused changes nothing.

Main statement: what holds of empty and loaded sessions and is kept by the other calls holds of every session that a
host can get to (`Reachable.induction`).
-/

namespace SnesSound

/-! ## Calls -/

/-- A call of the host, with arguments of the widths that it can pass. -/
inductive Call
  | load (bytes : ByteArray)
  | run (maxCycles : Option UInt64) (maxBytes : UInt64)
  | writePort (number : UInt64) (data : Int32)
  | readPort (number : UInt64)
  | mute (mask : UInt8)

namespace Session

/-- What a call changes. A refused one changes nothing, nor does one that only reads. -/
def perform (s : Session) : Call → Session
  | .load bytes => (s.load bytes).toOption.getD s
  | .run maxCycles maxBytes => (s.run (maxCycles.map UInt64.toNat) maxBytes.toNat).1
  | .writePort number data => (s.writePort number.toNat data.toInt).toOption.getD s
  | .readPort _ => s
  | .mute mask => s.mute mask

/-- The sessions that a host can get to. -/
inductive Reachable : Session → Prop
  /-- An empty session. -/
  | new : Reachable {}
  /-- A session that is created from a snapshot. -/
  | ofSnapshot {bytes : ByteArray} {options : LoadOptions} {s : Session} (h : ofSnapshot bytes options = .ok s) :
    Reachable s
  | call {s : Session} (c : Call) (h : Reachable s) : Reachable (s.perform c)

/-- The sessions that have just been created or loaded. -/
inductive Fresh : Session → Prop
  | new : Fresh {}
  /-- A session with a snapshot, be it loaded into a new session or in place of another machine. -/
  | loaded {s t : Session} {bytes : ByteArray} (h : s.load bytes = .ok t) : Fresh t

/-- Loading puts a restored machine in place of the old one. -/
theorem load_eq_ok {s t : Session} {bytes : ByteArray} (h : s.load bytes = .ok t) :
    ∃ snapshot, Snapshot.parse? bytes = some snapshot ∧ t = s.install snapshot := by
  unfold load at h
  split at h
  next snapshot hp => exact ⟨snapshot, hp, (Except.ok.inj h).symm⟩
  next => exact absurd h (by simp)

/-- The session with a byte in the latch of a port that the CPU reads. -/
def hostWrite (s : Session) (p : Fin 4) (value : UInt8) : Session :=
  let m := s.machine
  { s with machine := { m with cpu := { m.cpu with ports := m.cpu.ports.hostWrite p value } } }

theorem port_eq_ok {number : Nat} {p : Fin 4} (h : port number = .ok p) : p.val = number := by
  unfold port Ports.select at h
  split at h
  · exact congrArg Fin.val (Except.ok.inj h).symm
  · cases h

/-- A write to a port changes its latch and nothing else. -/
theorem writePort_eq_ok {s t : Session} {number : Nat} {data : Int} (h : s.writePort number data = .ok t) :
    ∃ p : Fin 4, p.val = number ∧ t = s.hostWrite p (UInt8.ofInt data) := by
  unfold writePort at h
  cases hp : port number with
  | error e => rw [hp] at h; exact absurd h (by simp [bind, Except.bind])
  | ok p =>
    rw [hp] at h
    by_cases hd : data < -128 ∨ 255 < data
    · exact absurd h (by simp [bind, Except.bind, hd, throw, throwThe, MonadExceptOf.throw])
    · refine ⟨p, port_eq_ok hp, ?_⟩
      simpa [bind, Except.bind, hd, pure, Except.pure, hostWrite, eq_comm] using h

/-- What holds of empty and loaded sessions and is kept by the other calls holds of all sessions that a host can get
to. -/
theorem Reachable.induction {P : Session → Prop} (new : P {})
    (install : ∀ (s : Session) (snapshot : Snapshot), P (s.install snapshot))
    (run : ∀ (s : Session) (maxCycles : Option Nat) (maxBytes : Nat), P s → P (s.run maxCycles maxBytes).1)
    (hostWrite : ∀ (s : Session) (p : Fin 4) (value : UInt8), P s → P (s.hostWrite p value))
    (mute : ∀ (s : Session) (mask : UInt8), P s → P (s.mute mask)) {s : Session} (h : Reachable s) : P s := by
  induction h with
  | new => exact new
  | ofSnapshot h =>
    obtain ⟨snapshot, -, rfl⟩ := load_eq_ok h
    exact install _ snapshot
  | @call s c _ ih =>
    cases c with
    | load bytes =>
      change P ((s.load bytes).toOption.getD s)
      cases hl : s.load bytes with
      | error => exact ih
      | ok t =>
        obtain ⟨snapshot, -, rfl⟩ := load_eq_ok hl
        exact install s snapshot
    | run maxCycles maxBytes => exact run s _ _ ih
    | writePort number data =>
      change P ((s.writePort number.toNat data.toInt).toOption.getD s)
      cases hw : s.writePort number.toNat data.toInt with
      | error => exact ih
      | ok t =>
        obtain ⟨p, -, rfl⟩ := writePort_eq_ok hw
        exact hostWrite s p _ ih
    | readPort => exact ih
    | mute mask => exact mute s mask ih

end Session

end SnesSound
