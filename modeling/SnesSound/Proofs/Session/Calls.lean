import SnesSound.Proofs.Session.Drift

/-!
# Sequences of calls

A host makes calls one after the other. Those that load nothing leave the machine of a session in its place: a run lets
time pass, a write changes a latch unless it is refused, and a mask is set. What a sequence of calls returns, how much
time it asks for and under which masks its frames are produced are put together from what the single calls do.

Main statements: the CPU is given the time that calls ask for (`cycles_performAll`), and every session that a host can
get to is a new or loaded one after such calls (`Reachable.exists_performAll`).
-/

namespace SnesSound

/-- Whether a call puts another machine in place. -/
def Call.loads : Call → Bool
  | .load _ => true
  | _ => false

namespace Session

/-! ## What calls do -/

/-- The session after calls, one after the other. -/
def performAll (s : Session) (calls : List Call) : Session := calls.foldl perform s

/-- The audio that a call returns. -/
def audio (s : Session) : Call → ByteArray
  | .run maxCycles maxBytes => (s.run (maxCycles.map UInt64.toNat) maxBytes.toNat).2
  | _ => .empty

/-- The audio that calls return, one behind the other. -/
def audioAll : Session → List Call → ByteArray
  | _, [] => .empty
  | s, call :: calls => s.audio call ++ (s.perform call).audioAll calls

/-- The cycles that a call asks for. -/
def asked (s : Session) : Call → Nat
  | .run maxCycles maxBytes => s.demand (maxCycles.map UInt64.toNat) maxBytes.toNat
  | _ => 0

/-- The cycles that calls ask for. -/
def askedAll : Session → List Call → Nat
  | _, [] => 0
  | s, call :: calls => s.asked call + (s.perform call).askedAll calls

/-- The masks of the frames that a call produces. -/
def masks (s : Session) : Call → List UInt8
  | .run maxCycles maxBytes =>
    .replicate (s.schedule (maxCycles.map UInt64.toNat) maxBytes.toNat).frameCount s.channelMask
  | _ => []

/-- The masks of the frames that calls produce. -/
def masksAll : Session → List Call → List UInt8
  | _, [] => []
  | s, call :: calls => s.masks call ++ (s.perform call).masksAll calls

variable {s : Session} {calls : List Call}

theorem performAll_append (s : Session) (before after : List Call) :
    s.performAll (before ++ after) = (s.performAll before).performAll after := List.foldl_append

theorem askedAll_append (s : Session) (before after : List Call) :
    s.askedAll (before ++ after) = s.askedAll before + (s.performAll before).askedAll after := by
  induction before generalizing s with
  | nil => exact (Nat.zero_add _).symm
  | cons call before ih =>
    rw [List.cons_append, askedAll, ih, askedAll, Nat.add_assoc]
    rfl

/-! ## Single calls -/

/-- A run goes through the cycles that it asks for. -/
theorem perform_run (h : s.OnTime) (maxCycles : Option UInt64) (maxBytes : UInt64) :
    s.perform (.run maxCycles maxBytes) = (s.elapse (s.asked (.run maxCycles maxBytes))).1 :=
  congrArg Prod.fst (run_eq_elapse h _ _)

theorem audio_run (h : s.OnTime) (maxCycles : Option UInt64) (maxBytes : UInt64) :
    s.audio (.run maxCycles maxBytes) = Frame.encode (s.elapse (s.asked (.run maxCycles maxBytes))).2 :=
  congrArg Prod.snd (run_eq_elapse h _ _)

/-- Every frame of a run is produced under the mask that is set. -/
theorem masks_run (h : s.OnTime) (maxCycles : Option UInt64) (maxBytes : UInt64) :
    s.masks (.run maxCycles maxBytes) =
      .replicate (s.elapse (s.asked (.run maxCycles maxBytes))).2.size s.channelMask := by
  have hfollow := follow_eq_elapse h (maxCycles.map UInt64.toNat) maxBytes.toNat
  rw [masks, asked, ← hfollow, size_follow]

/-- A write to a port is refused or puts a byte into the latch of the port. -/
theorem perform_writePort (s : Session) (number : UInt64) (data : Int32) :
    s.perform (.writePort number data) = s ∨ ∃ p : Fin 4, p.val = number.toNat ∧
      s.perform (.writePort number data) = s.hostWrite p (UInt8.ofInt data.toInt) := by
  change (s.writePort number.toNat data.toInt).toOption.getD s = s ∨ ∃ p : Fin 4, p.val = number.toNat ∧
    (s.writePort number.toNat data.toInt).toOption.getD s = s.hostWrite p (UInt8.ofInt data.toInt)
  cases hw : s.writePort number.toNat data.toInt with
  | error => exact .inl rfl
  | ok t => exact .inr (writePort_eq_ok hw)

theorem OnTime.hostWrite (h : s.OnTime) (p : Fin 4) (value : UInt8) : (s.hostWrite p value).OnTime :=
  ⟨h.owed, h.machine⟩

theorem OnTime.perform (h : s.OnTime) {call : Call} (hload : call.loads = false) : (s.perform call).OnTime := by
  cases call with
  | load => exact Bool.noConfusion hload
  | run maxCycles maxBytes =>
    rw [perform_run h]
    exact h.elapse _
  | writePort number data =>
    rcases s.perform_writePort number data with he | ⟨p, -, he⟩ <;> rw [he]
    · exact h
    · exact h.hostWrite p _
  | readPort => exact h
  | mute => exact ⟨h.owed, h.machine⟩

/-- The CPU is given the time that a call asks for. -/
theorem cycles_perform (h : s.OnTime) {call : Call} (hload : call.loads = false) :
    ((s.perform call).totalCycles : Int) + (s.perform call).machine.cpu.budget =
      s.totalCycles + s.machine.cpu.budget + s.asked call := by
  cases call with
  | load => exact Bool.noConfusion hload
  | run maxCycles maxBytes =>
    rw [perform_run h]
    exact cycles_elapse h _
  | writePort number data =>
    rcases s.perform_writePort number data with he | ⟨p, -, he⟩ <;> rw [he]
    · exact (Int.add_zero _).symm
    · exact (Int.add_zero _).symm
  | readPort | mute => exact (Int.add_zero _).symm

/-- Time only passes. -/
theorem totalCycles_le_perform (h : s.OnTime) {call : Call} (hload : call.loads = false) :
    s.totalCycles ≤ (s.perform call).totalCycles := by
  cases call with
  | load => exact Bool.noConfusion hload
  | run maxCycles maxBytes =>
    rw [perform_run h]
    exact totalCycles_le_elapse h _
  | writePort number data =>
    rcases s.perform_writePort number data with he | ⟨p, -, he⟩
    · exact Nat.le_of_eq (congrArg totalCycles he).symm
    · exact Nat.le_of_eq (congrArg totalCycles he).symm
  | readPort | mute => exact Nat.le_refl _

/-! ## Calls one after the other -/

theorem OnTime.performAll (h : s.OnTime) (hload : ∀ call ∈ calls, call.loads = false) :
    (s.performAll calls).OnTime := by
  induction calls generalizing s with
  | nil => exact h
  | cons call calls ih =>
    rw [List.forall_mem_cons] at hload
    exact ih (h.perform hload.1) hload.2

/-- Time only passes. -/
theorem totalCycles_le_performAll (h : s.OnTime) (hload : ∀ call ∈ calls, call.loads = false) :
    s.totalCycles ≤ (s.performAll calls).totalCycles := by
  induction calls generalizing s with
  | nil => exact Nat.le_refl _
  | cons call calls ih =>
    rw [List.forall_mem_cons] at hload
    exact Nat.le_trans (totalCycles_le_perform h hload.1) (ih (h.perform hload.1) hload.2)

/-- The CPU is given the time that calls ask for. -/
theorem cycles_performAll (h : s.OnTime) (hload : ∀ call ∈ calls, call.loads = false) :
    ((s.performAll calls).totalCycles : Int) + (s.performAll calls).machine.cpu.budget =
      s.totalCycles + s.machine.cpu.budget + s.askedAll calls := by
  induction calls generalizing s with
  | nil => exact (Int.add_zero _).symm
  | cons call calls ih =>
    rw [List.forall_mem_cons] at hload
    have hfirst := cycles_perform h hload.1
    have hrest := ih (h.perform hload.1) hload.2
    have hsplit : s.performAll (call :: calls) = (s.perform call).performAll calls := rfl
    rw [askedAll, hsplit, hrest, hfirst]
    omega

/-- The CPU has used the time that was asked for since the session was created or loaded. -/
theorem askedAll_le_totalCycles (h : Fresh s) (hload : ∀ call ∈ calls, call.loads = false) :
    s.askedAll calls ≤ (s.performAll calls).totalCycles := by
  obtain ⟨hs, -, hcycles, hbudget⟩ := h.start
  have hgiven := cycles_performAll hs hload
  have hle : (s.performAll calls).machine.cpu.budget ≤ 0 := (hs.performAll hload).machine.2
  rw [hcycles, hbudget] at hgiven
  omega

/-- Every session that a host can get to has been created or loaded, and since then there have only been calls that
load nothing. -/
theorem Reachable.exists_performAll (h : Reachable s) :
    ∃ s₀ calls, Fresh s₀ ∧ (∀ call ∈ calls, call.loads = false) ∧ s = s₀.performAll calls := by
  induction h with
  | new => exact ⟨_, [], .new, by simp, rfl⟩
  | ofSnapshot h => exact ⟨_, [], .loaded h, by simp, rfl⟩
  | @call s call _ ih =>
    obtain ⟨s₀, calls, hfresh, hload, rfl⟩ := ih
    by_cases hc : call.loads = false
    · refine ⟨s₀, calls ++ [call], hfresh, ?_, (performAll_append s₀ calls [call]).symm⟩
      rw [List.forall_mem_append]
      exact ⟨hload, by simpa using hc⟩
    · cases call with
      | load bytes =>
        change ∃ t₀ calls', Fresh t₀ ∧ _ ∧ ((s₀.performAll calls).load bytes).toOption.getD _ = t₀.performAll calls'
        -- A load that is refused changes nothing.
        cases hl : (s₀.performAll calls).load bytes with
        | error => exact ⟨s₀, calls, hfresh, hload, rfl⟩
        | ok t => exact ⟨t, [], .loaded hl, by simp, rfl⟩
      | run | writePort | readPort | mute => exact absurd rfl hc

end Session

end SnesSound
