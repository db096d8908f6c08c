import SnesSound.Player.Playback
import SnesSound.Proofs.Session.Drift
import SnesSound.Proofs.Session.Notices

/-!
# The loop that plays a session

The player asks for a second of audio at a time, looks at the cycles that have been used, and takes the notices of the
CPU away. None of this can be heard: its calls of `run` are runs one after the other, which are as many cycles of the
machine as all of them ask for.

A turn of the loop runs at least one cycle, and what it runs goes off from what the frames that are left stand for and
what is owed (`demand_advance`). This is why the loop ends, and why it runs no more than a single call would.

Main statements: the loop ends after finitely many calls (`exists_turns`), and what it plays is what they return
(`audio_extend`). Without a limit that is what a single call returns, with a limit it is the beginning of that, and the
limit decides when it ends (`exists_plays`).
-/

namespace SnesSound.Player.Playback

variable {limit : Option Nat} {frames : Nat} {s : Session} {calls : List (Option Nat × Nat)}

/-! ## Turns -/

/-- The limits with which the player calls `run`, one call for each turn of its loop, when `frames` frames of a session
are left to be played. -/
inductive Turns (limit : Option Nat) : Nat → Session → List (Option Nat × Nat) → Prop
  /-- All frames have been played. -/
  | done (s : Session) : Turns limit 0 s []
  /-- All cycles have been used. -/
  | stopped {frames : Nat} {s : Session} (hf : frames ≠ 0) (hl : allowance limit s = some 0) : Turns limit frames s []
  | turn {frames : Nat} {s : Session} {calls : List (Option Nat × Nat)} (hf : frames ≠ 0)
      (hl : allowance limit s ≠ some 0)
      (rest : Turns limit (frames - (advance limit frames s).2.size / bytesPerFrame) (advance limit frames s).1 calls) :
      Turns limit frames s ((allowance limit s, min frames frameRate * bytesPerFrame) :: calls)

/-- The cycles of the next turn. -/
def nextDemand (limit : Option Nat) (frames : Nat) (s : Session) : Nat :=
  s.demand (allowance limit s) (min frames frameRate * bytesPerFrame)

theorem advance_eq_elapse (limit : Option Nat) (frames : Nat) (h : s.OnTime) :
    advance limit frames s =
      ((s.elapse (nextDemand limit frames s)).1, Frame.encode (s.elapse (nextDemand limit frames s)).2) :=
  Session.run_eq_elapse h _ _

theorem onTime_advance (h : s.OnTime) : (advance limit frames s).1.OnTime := h.run _ _

/-- A turn asks for whole frames. -/
theorem frames_turn (frames : Nat) : min frames frameRate * bytesPerFrame / bytesPerFrame = min frames frameRate :=
  Nat.mul_div_cancel _ (by decide)

/-- A turn plays whole frames, no more than are left. -/
theorem size_advance (limit : Option Nat) (frames : Nat) (s : Session) :
    ∃ played ≤ frames, (advance limit frames s).2.size = bytesPerFrame * played := by
  refine ⟨_, ?_, Session.size_run s (allowance limit s) (min frames frameRate * bytesPerFrame)⟩
  have hle := Schedule.frameCount_le s.owed (allowance limit s) (min frames frameRate * bytesPerFrame / bytesPerFrame)
  rw [frames_turn] at hle
  rw [Session.schedule, frames_turn]
  exact Nat.le_trans hle (Nat.min_le_left _ _)

/-- A turn runs at least one cycle. -/
theorem nextDemand_pos (hf : frames ≠ 0) (hl : allowance limit s ≠ some 0) : 0 < nextDemand limit frames s := by
  have hpos : 0 < min frames frameRate := Nat.lt_min.mpr ⟨Nat.pos_of_ne_zero hf, by decide⟩
  unfold nextDemand Session.demand
  split
  next =>
    rw [frames_turn, Machine.cyclesPerFrame]
    omega
  next cycles hc =>
    have hcycles : cycles ≠ 0 := fun e => hl (by rw [hc, e])
    rw [frames_turn, Machine.cyclesPerFrame]
    omega

/-- What a turn runs goes off from what the frames that are left stand for and what is owed. -/
theorem demand_advance (limit : Option Nat) (frames : Nat) (h : s.OnTime) :
    nextDemand limit frames s +
        (Machine.cyclesPerFrame * (frames - (advance limit frames s).2.size / bytesPerFrame) +
          (advance limit frames s).1.owed) =
      Machine.cyclesPerFrame * frames + s.owed := by
  obtain ⟨played, hplayed, hsize⟩ := size_advance limit frames s
  have helapse := s.frames_elapse (nextDemand limit frames s)
  have hadvance := advance_eq_elapse limit frames h
  have hcount : (advance limit frames s).2.size = bytesPerFrame * (s.elapse (nextDemand limit frames s)).2.size := by
    rw [hadvance, Frame.size_encode]
  have howed : (advance limit frames s).1.owed = (s.elapse (nextDemand limit frames s)).1.owed := by rw [hadvance]
  rw [hsize] at hcount
  rw [hsize, howed, Nat.mul_div_cancel_left _ (by decide)]
  simp only [Machine.cyclesPerFrame, bytesPerFrame] at helapse hcount ⊢
  omega

/-- The loop ends, after as many turns at most as there are cycles to be run. -/
theorem exists_turns (limit : Option Nat) (frames : Nat) (h : s.OnTime) :
    ∃ calls, Turns limit frames s calls ∧ calls.length ≤ Machine.cyclesPerFrame * frames + s.owed := by
  -- The induction is on the cycles that are to be run, of which every turn runs at least one.
  generalize hn : Machine.cyclesPerFrame * frames + s.owed = n
  induction n using Nat.strongRecOn generalizing frames s with
  | ind n ih =>
    by_cases hf : frames = 0
    · subst hf
      exact ⟨[], .done s, Nat.zero_le _⟩
    by_cases hl : allowance limit s = some 0
    · exact ⟨[], .stopped hf hl, Nat.zero_le _⟩
    have hdemand := demand_advance limit frames h
    have hpos := nextDemand_pos hf hl
    have hless : Machine.cyclesPerFrame * (frames - (advance limit frames s).2.size / bytesPerFrame) +
        (advance limit frames s).1.owed < n := by omega
    obtain ⟨calls, hcalls, hlength⟩ := ih _ hless _ (onTime_advance h) rfl
    refine ⟨_, .turn hf hl hcalls, ?_⟩
    rw [List.length_cons]
    omega

/-! ## What the calls return -/

/-- What the player plays is what its calls return, although it takes the notices away in between. -/
theorem audio_extend (h : Turns limit frames s calls) (p : Playback) :
    (extend limit frames s p).audio = p.audio ++ (s.runAll calls).2 := by
  -- The session of the loop lacks the notices that were taken away before.
  suffices hstripped : ∀ (earlier : Array Notice) (u : Session), s = u.withEarlier earlier →
      (extend limit frames u p).audio = p.audio ++ (s.runAll calls).2 from
    hstripped #[] s (by simp [Session.withEarlier, Machine.withEarlier, Core.withEarlier])
  induction h generalizing p with
  | done s =>
    rintro earlier u rfl
    rw [extend, if_pos rfl]
    simp [Session.runAll]
  | stopped hf hl =>
    rintro earlier u rfl
    have hu : allowance limit u = some 0 := hl
    rw [extend, if_neg hf, if_pos hu]
    simp [Session.runAll, note]
  | @turn frames s calls hf hl rest ih =>
    rintro earlier u rfl
    have hu : allowance limit u ≠ some 0 := hl
    have hrun : advance limit frames (u.withEarlier earlier) =
        ((advance limit frames u).1.withEarlier earlier, (advance limit frames u).2) :=
      u.run_withEarlier earlier (allowance limit u) _
    have hnext := (advance limit frames u).1.withEarlier_takeNotices
    have hsession : (advance limit frames (u.withEarlier earlier)).1 =
        (advance limit frames u).1.takeNotices.2.withEarlier
          (earlier ++ (advance limit frames u).1.takeNotices.1) := by
      rw [hrun, ← Session.withEarlier_withEarlier, hnext]
    have hrest (q : Playback) := ih q _ _ hsession
    have hcall : (u.withEarlier earlier).run (allowance limit (u.withEarlier earlier))
        (min frames frameRate * bytesPerFrame) = advance limit frames (u.withEarlier earlier) := rfl
    rw [extend, if_neg hf, if_neg hu, Session.runAll, hcall]
    rw [hrun] at hrest ⊢
    exact (hrest _).trans ByteArray.append_assoc

/-! ## How far the calls get -/

/-- All calls together run no more cycles than the frames that are left stand for and what is owed. -/
theorem totalDemand_le (h : Turns limit frames s calls) (hs : s.OnTime) :
    s.totalDemand calls ≤ Machine.cyclesPerFrame * frames + s.owed := by
  induction h with
  | done | stopped => exact Nat.zero_le _
  | @turn frames s calls hf hl rest ih =>
    have hrest := ih (onTime_advance hs)
    have hdemand := demand_advance limit frames hs
    change nextDemand limit frames s + (advance limit frames s).1.totalDemand calls ≤ _
    omega

/-- Without a limit they run all of them. -/
theorem totalDemand_of_none (h : Turns none frames s calls) (hs : s.OnTime) (h0 : s.owed = 0) :
    s.totalDemand calls = Machine.cyclesPerFrame * frames := by
  induction h with
  | done => rfl
  | stopped hf hl => cases hl
  | @turn frames s calls hf hl rest ih =>
    have howed : (advance none frames s).1.owed = 0 := Session.owed_run s none _
    have hrest := ih (onTime_advance hs) howed
    have hdemand := demand_advance none frames hs
    change nextDemand none frames s + (advance none frames s).1.totalDemand calls = _
    omega

/-- They do not end early: either all frames are there or all cycles have been used. -/
theorem le_size_or_le_totalCycles {cycles : Nat} (h : Turns (some cycles) frames s calls) :
    bytesPerFrame * frames ≤ (s.runAll calls).2.size ∨ cycles ≤ (s.runAll calls).1.totalCycles := by
  induction h with
  | done => exact .inl (Nat.zero_le _)
  | stopped hf hl =>
    have hleft : cycles - _ = 0 := Option.some.inj hl
    exact .inr (Nat.le_of_sub_eq_zero hleft)
  | @turn frames s calls hf hl rest ih =>
    obtain ⟨played, hplayed, hsize⟩ := size_advance (some cycles) frames s
    rw [hsize, Nat.mul_div_cancel_left _ (by decide)] at ih
    refine ih.imp_left fun hrest => ?_
    change _ ≤ ((advance (some cycles) frames s).2 ++ ((advance (some cycles) frames s).1.runAll calls).2).size
    rw [ByteArray.size_append, hsize]
    simp only [bytesPerFrame] at hrest ⊢
    omega

/-- Nor do they go on when all cycles have been used, except for the end of an instruction. -/
theorem totalCycles_le {cycles : Nat} (h : Turns (some cycles) frames s calls) (hs : s.OnTime)
    (hc : s.totalCycles ≤ cycles + 11) : (s.runAll calls).1.totalCycles ≤ cycles + 11 := by
  induction h with
  | done | stopped => exact hc
  | @turn frames s calls hf hl rest ih =>
    refine ih (onTime_advance hs) ?_
    have hdemand : nextDemand (some cycles) frames s ≤ cycles - s.totalCycles := Nat.min_le_left _ _
    have hleft : cycles - s.totalCycles ≠ 0 := fun e => hl (congrArg some e)
    have htime := s.cycles_elapse hs (nextDemand (some cycles) frames s)
    have hbudget := hs.machine.2
    have hbudget' := (hs.elapse (nextDemand (some cycles) frames s)).machine.1
    rw [advance_eq_elapse _ _ hs]
    dsimp only
    omega

/-! ## Playing a session -/

/-- What a single call for `frames` frames returns. -/
theorem run_none_eq_elapse (hs : s.OnTime) (h0 : s.owed = 0) (frames : Nat) :
    (s.run none (bytesPerFrame * frames)).2 = Frame.encode (s.elapse (Machine.cyclesPerFrame * frames)).2 := by
  rw [Session.run_eq_elapse hs, Session.demand, Nat.mul_div_cancel_left _ (by decide), h0, Nat.add_zero]

/-- What the calls return is the beginning of what a single call for all frames returns. -/
theorem exists_run_none_eq_append (h : Turns limit frames s calls) (hs : s.OnTime) (h0 : s.owed = 0) :
    ∃ rest, (s.run none (bytesPerFrame * frames)).2 = (s.runAll calls).2 ++ rest := by
  have hle := totalDemand_le h hs
  obtain ⟨more, hmore⟩ := Nat.exists_eq_add_of_le (h0 ▸ hle)
  refine ⟨Frame.encode (((s.elapse (s.totalDemand calls)).1.elapse more).2), ?_⟩
  rw [run_none_eq_elapse hs h0, Session.runAll_eq_elapse hs]
  change Machine.cyclesPerFrame * frames = _ at hmore
  rw [hmore, Session.elapse_add, Frame.encode_append]

/-- What the player plays of a session is `audio`, which it gets by `calls`. -/
structure Plays (limit : Option Nat) (frames : Nat) (s : Session) (calls : List (Option Nat × Nat))
    (audio : ByteArray) : Prop where
  /-- The calls are those of the loop, which ends with the last one of them. -/
  turns : Turns limit frames s calls
  length_le : calls.length ≤ Machine.cyclesPerFrame * frames
  audio_eq : audio = (s.runAll calls).2
  /-- Without a limit, a single call would return the same. -/
  whole : limit = none → audio = (s.run none (bytesPerFrame * frames)).2
  /-- With a limit, it would return this and maybe more. -/
  beginning : ∃ rest, (s.run none (bytesPerFrame * frames)).2 = audio ++ rest
  /-- If frames are missing, all cycles have been used, and no more than that and the end of an instruction. -/
  exhausted : ∀ cycles, limit = some cycles → audio.size < bytesPerFrame * frames →
    cycles ≤ (s.runAll calls).1.totalCycles ∧ (s.runAll calls).1.totalCycles ≤ cycles + 11

/-- The player plays any session that is at its start. -/
theorem exists_plays (hs : s.OnTime) (h0 : s.owed = 0) (hc : s.totalCycles = 0) (limit : Option Nat) (frames : Nat)
    (log : Array LogEntry) : ∃ calls, Plays limit frames s calls (extend limit frames s { log }).audio := by
  obtain ⟨calls, hcalls, hlength⟩ := exists_turns limit frames hs
  have haudio : (extend limit frames s { log }).audio = (s.runAll calls).2 :=
    (audio_extend hcalls _).trans ByteArray.empty_append
  rw [h0] at hlength
  refine ⟨calls, hcalls, hlength, haudio, ?_, ?_, ?_⟩
  · rintro rfl
    rw [haudio, Session.runAll_eq_elapse hs, totalDemand_of_none hcalls hs h0, run_none_eq_elapse hs h0]
  · rw [haudio]
    exact exists_run_none_eq_append hcalls hs h0
  · rintro cycles rfl hshort
    rw [haudio] at hshort
    exact ⟨(le_size_or_le_totalCycles hcalls).resolve_left (Nat.not_le_of_lt hshort),
      totalCycles_le hcalls hs (by omega)⟩

end SnesSound.Player.Playback
