import SnesSound.Proofs.Dsp.Mask
import SnesSound.Proofs.Session.Drift
import SnesSound.Proofs.Snapshot.Encode

/-!
# Runs under two masks

Two runs of the same session under different masks stay the same machine as long as the echo unit writes nothing: they
differ in the mask, in the frames that they produce and in the last one that the sound unit remembers. This is kept by
every cycle, so by every run.

Main statement: a mask has a part in the mix and in nothing else, in a tick as well as in runs of a session
(`mask_affects_mix_only`).
-/

namespace SnesSound

namespace Machine

/-- The machine with another last frame. -/
def withLastFrame (m : Machine) (lastFrame : Frame) : Machine := { m with dsp := { m.dsp with lastFrame } }

variable (m : Machine) (lastFrame : Frame)

/-- The CPU does not see the last frame. -/
theorem runCpu_withLastFrame (cycles : Nat) :
    (m.withLastFrame lastFrame).runCpu cycles = (m.runCpu cycles).withLastFrame lastFrame := by
  unfold runCpu
  split <;> rfl

/-- The sound unit does not see the last frame either. -/
theorem tick_withLastFrame (mask : UInt8) : (m.withLastFrame lastFrame).tick mask = m.tick mask := by
  simp only [tick, withLastFrame, Dsp.tick]

/-- While the delay line is read-only, a tick under another mask leaves another last frame and nothing else. -/
theorem tick_mask (mask mask' : UInt8) (h : m.registers.echoReadOnly = true) :
    (m.tick mask').2 = (m.tick mask).2.withLastFrame (m.tick mask').1 := by
  have hdsp := Dsp.dsp_tick_mask m.dsp m.registers m.memory mask mask'
  obtain ⟨hregisters, -, -, -, -, hmemory⟩ := Dsp.tick_mask m.dsp m.registers m.memory mask mask'
  simp only [tick, withLastFrame]
  rw [hdsp, hregisters, hmemory h]

end Machine

namespace Session

/-- The session with another mask and another last frame. -/
def remix (s : Session) (mask : UInt8) (lastFrame : Frame) : Session :=
  { s with channelMask := mask, machine := s.machine.withLastFrame lastFrame }

variable {s s' : Session}

/-- Cycles under two masks keep to the same machine if no frame is begun, and also if one is begun while the delay line
is read-only. -/
theorem cycle_remix (mask : UInt8) (lastFrame : Frame) (frames frames' : Array Frame)
    (h : s.owed = 0 → s.machine.registers.echoReadOnly = true) :
    ∃ lastFrame', (cycle (s.remix mask lastFrame, frames')).1 = (cycle (s, frames)).1.remix mask lastFrame' := by
  by_cases h0 : s.owed = 0
  · have htick := s.machine.tick_mask s.channelMask mask (h h0)
    refine ⟨(s.machine.tick mask).1, ?_⟩
    rw [cycle_of_owed_eq_zero (s := s.remix mask lastFrame) h0, cycle_of_owed_eq_zero h0]
    simp only [remix, Machine.tick_withLastFrame, htick, Machine.runCpu_withLastFrame]
  · have hpos := Nat.pos_of_ne_zero h0
    refine ⟨lastFrame, ?_⟩
    rw [cycle_of_owed_pos (s := s.remix mask lastFrame) hpos, cycle_of_owed_pos hpos]
    simp only [remix, Machine.runCpu_withLastFrame]

/-- So do runs in which the delay line is read-only whenever a frame is begun. -/
theorem elapse_mute (s : Session) (mask mask' : UInt8) {n : Nat}
    (h : ∀ k < n, ((s.mute mask).elapse k).1.owed = 0 →
      ((s.mute mask).elapse k).1.machine.registers.echoReadOnly = true) :
    ∃ lastFrame, ((s.mute mask').elapse n).1 = ((s.mute mask).elapse n).1.remix mask' lastFrame := by
  induction n with
  | zero => exact ⟨s.machine.dsp.lastFrame, rfl⟩
  | succ n ih =>
    obtain ⟨lastFrame, hn⟩ := ih fun k hk => h k (Nat.lt_succ_of_lt hk)
    have hlast := h n (Nat.lt_succ_self n)
    simp only [elapse, Function.iterate_succ_apply'] at hn hlast ⊢
    generalize cycle^[n] (s.mute mask, #[]) = r at hn hlast ⊢
    generalize cycle^[n] (s.mute mask', #[]) = r' at hn ⊢
    obtain ⟨t, frames⟩ := r
    obtain ⟨t', frames'⟩ := r'
    subst hn
    exact cycle_remix mask' lastFrame frames frames' hlast

/-- What runs ask for depends on nothing but what is owed. -/
theorem totalDemand_congr (h : s.owed = s'.owed) (limits : List (Option Nat × Nat)) :
    s.totalDemand limits = s'.totalDemand limits := by
  induction limits generalizing s s' with
  | nil => rfl
  | cons limit limits ih =>
    obtain ⟨maxCycles, maxBytes⟩ := limit
    have hschedule : s.schedule maxCycles maxBytes = s'.schedule maxCycles maxBytes := by
      rw [schedule, schedule, h]
    have howed : (s.run maxCycles maxBytes).1.owed = (s'.run maxCycles maxBytes).1.owed := by
      rw [owed_run, owed_run, hschedule]
    have hnext := ih howed
    have hdemand : s.demand maxCycles maxBytes = s'.demand maxCycles maxBytes := by
      unfold demand
      rw [h]
    rw [totalDemand, totalDemand, hnext, hdemand]

/-- A mask has a part in the mix and in nothing else.

A tick leaves the same registers, voices, noise generator and echo unit under every mask, the same RAM outside of the
current frame of the delay line, and the same RAM altogether if the line is read-only. What it returns and what it
writes under a mask is what it returns and writes without one when the masked voices have no volume.

Runs of a session under two masks lead to sessions that differ in the mask and in the last frame and in nothing else if
the delay line is read-only whenever one of them begins a frame, and both produce the same amount of audio. -/
theorem mask_affects_mix_only (mask mask' : UInt8) :
    (∀ (d : Dsp) (r : Registers) (m : Memory),
      let after := (d.tick r m mask).2
      let after' := (d.tick r m mask').2
      (after.2.1 = after'.2.1 ∧ after.1.voices = after'.1.voices ∧ after.1.noise = after'.1.noise ∧
        after.1.echo = after'.1.echo ∧
        (∀ a, ¬Within (d.echo.address r) 4 a → after.2.2.get a = after'.2.2.get a) ∧
        (r.echoReadOnly = true → after.2.2 = after'.2.2)) ∧
      d.tick (r.silence mask) m 0 = ((d.tick r m mask).1, after.1, after.2.1.silence mask, after.2.2)) ∧
    ∀ (s : Session), Reachable s → ∀ limits : List (Option Nat × Nat),
      (∀ k < (s.mute mask).totalDemand limits, ((s.mute mask).elapse k).1.owed = 0 →
        ((s.mute mask).elapse k).1.machine.registers.echoReadOnly = true) →
      let done := (s.mute mask).runAll limits
      let done' := (s.mute mask').runAll limits
      (∃ lastFrame, done'.1 = done.1.remix mask' lastFrame) ∧ done'.2.size = done.2.size := by
  constructor
  · intro d r m
    exact ⟨Dsp.tick_mask d r m mask mask', Dsp.tick_silence d r m mask⟩
  · intro s hs limits hreadOnly
    have hontime : ∀ mask, (s.mute mask).OnTime := fun mask => ⟨hs.onTime.owed, hs.onTime.machine⟩
    have hdemand : (s.mute mask').totalDemand limits = (s.mute mask).totalDemand limits := by
      apply totalDemand_congr
      rfl
    obtain ⟨lastFrame, hremix⟩ := elapse_mute s mask mask' hreadOnly
    have howed := congrArg owed hremix
    rw [runAll_eq_elapse (hontime mask), runAll_eq_elapse (hontime mask'), hdemand]
    refine ⟨⟨lastFrame, hremix⟩, ?_⟩
    have hframes := frames_elapse (s.mute mask) ((s.mute mask).totalDemand limits)
    have hframes' := frames_elapse (s.mute mask') ((s.mute mask).totalDemand limits)
    rw [howed] at hframes'
    have hsize : ((s.mute mask').elapse ((s.mute mask).totalDemand limits)).2.size =
        ((s.mute mask).elapse ((s.mute mask).totalDemand limits)).2.size := by
      change _ + s.owed = _ at hframes
      change _ + s.owed = _ + ((s.mute mask).elapse _).1.owed at hframes'
      simp only [Machine.cyclesPerFrame] at hframes hframes'
      omega
    rw [Frame.size_encode, Frame.size_encode, hsize]

/-- A frame of a session that keeps its delay line, with all voices and with none. -/
theorem mask_affects_mix_only_one_frame :
    ∃ s, ({} : Session).load (SpcFile.encode {} .zero (Registers.zero.store Register.flg 0x20)) = .ok s ∧
      ∃ lastFrame, ((s.mute 0xFF).runAll [(none, 4)]).1 = ((s.mute 0).runAll [(none, 4)]).1.remix 0xFF lastFrame := by
  have hload := load_encode {} {} .zero (Registers.zero.store Register.flg 0x20)
  have hcreate : ofSnapshot (SpcFile.encode {} .zero (Registers.zero.store Register.flg 0x20)) {} = .ok _ := hload
  have hreadOnly : (Registers.zero.store Register.flg 0x20).echoReadOnly = true := by decide
  refine ⟨_, hload, ?_⟩
  obtain ⟨-, hruns⟩ := mask_affects_mix_only 0 0xFF
  refine (hruns _ (.ofSnapshot hcreate) [(none, 4)] ?_).1
  generalize hs : ({} : Session).install _ = s
  have hfirst : s.machine.registers.echoReadOnly = true := hs ▸ hreadOnly
  have howed : (s.mute 0).owed = 0 := by rw [← hs]; rfl
  have hontime : (s.mute 0).OnTime := by
    rw [← hs]
    exact onTime_install ..
  intro k hk hbegin
  -- A frame is begun in the first cycle only, since the others are owed for it.
  cases k with
  | zero => exact hfirst
  | succ k =>
    have hlt : k + 1 < Machine.cyclesPerFrame := by simpa [totalDemand, demand, howed, bytesPerFrame] using hk
    have hk' := iterate_cycle_begin hontime howed (Nat.succ_pos k) (Nat.le_of_lt hlt) #[]
    rw [elapse, hk'] at hbegin
    exact absurd hbegin (Nat.sub_ne_zero_of_lt hlt)

end Session

end SnesSound
