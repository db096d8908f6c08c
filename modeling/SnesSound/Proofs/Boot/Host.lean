import SnesSound.Proofs.Boot.Stage

/-!
# The host's part in an upload

A host uploads bytes by waiting for the boot program on port 0 and writing to the ports in turn. How it divides the
waiting into run calls, and whether it goes on waiting after it has seen an answer, is up to the host: what it sees is
all that it goes by.

Main statements: a host that waits for long enough gets every answer (`At.exists_uploads`), and the answers that a host
sees come from the stage of the upload that it takes them for (`At.uploaded`).
-/

namespace SnesSound

namespace Boot

/-! ## The host -/

/-- `t` is what run calls make of `s`. -/
def Runs (s t : Session) : Prop := ∃ limits, (s.runAll limits).1 = t

/-- Run calls after run calls. -/
theorem Runs.trans {s t v : Session} (h : Runs s t) (h' : Runs t v) : Runs s v := by
  obtain ⟨limits, rfl⟩ := h
  obtain ⟨limits', rfl⟩ := h'
  refine ⟨limits ++ limits', ?_⟩
  induction limits generalizing s with
  | nil => rfl
  | cons limit limits ih => exact ih

/-- The host posts bytes one after the other, the first of them with number `k`, and waits for the answer to each. -/
inductive Sends : Nat → List UInt8 → Session → Session → Prop
  | nil (k : Nat) (s : Session) : Sends k [] s s
  | cons {k : Nat} {b : UInt8} {data : List UInt8} {s s₁ s₂ t v : Session}
    (byte : s.writePort 1 b.toNat = .ok s₁)
    (number : s₁.writePort 0 (k % 256 : Nat) = .ok s₂)
    (wait : Runs s₂ t)
    (answer : t.readPort 0 = .ok (UInt8.ofNat k))
    (rest : Sends (k + 1) data t v) : Sends k (b :: data) s v

/-- The host waits for the announcement of the boot program, requests an upload to `d`, and waits for the answer. -/
inductive Requests (d : UInt16) (s t : Session) : Prop
  | intro {a a₁ a₂ a₃ a₄ : Session}
    (wait : Runs s a)
    (announcement : a.readPort 0 = .ok 0xAA ∧ a.readPort 1 = .ok 0xBB)
    (kind : a.writePort 1 1 = .ok a₁)
    (low : a₁.writePort 2 (lowByte d).toNat = .ok a₂)
    (high : a₂.writePort 3 (highByte d).toNat = .ok a₃)
    (command : a₃.writePort 0 0xCC = .ok a₄)
    (wait' : Runs a₄ t)
    (answer : t.readPort 0 = .ok 0xCC)

/-- The host requests an upload to `d`, sends the bytes, and gives the program 64 cycles or more for the last of
them. -/
inductive Uploads (d : UInt16) (data : List UInt8) (s t : Session) : Prop
  | intro {b c : Session} {limits : List (Option Nat × Nat)}
    (request : Requests d s b)
    (bytes : Sends 0 data b c)
    (enough : 64 ≤ c.totalDemand limits)
    (rest : (c.runAll limits).1 = t)

/-- The host may go on waiting after it has seen the answer. -/
theorem Requests.runs {d : UInt16} {s t v : Session} (h : Requests d s t) (hr : Runs t v)
    (hanswer : v.readPort 0 = .ok 0xCC) : Requests d s v := by
  obtain ⟨wait, announcement, kind, low, high, command, wait', -⟩ := h
  exact .intro wait announcement kind low high command (wait'.trans hr) hanswer

/-- A byte that the host writes to a port comes into its latch. -/
theorem writePort_eq_hostWrite (s : Session) (p : Fin 4) (b : UInt8) :
    s.writePort p b.toNat = .ok (s.hostWrite p b) := by
  have hlt := b.toNat_lt
  have hport : Session.port p = .ok p := by
    rw [Session.port, Ports.select, dif_pos p.isLt]
    rfl
  have hdata : ¬((b.toNat : Int) < -128 ∨ 255 < (b.toNat : Int)) := by omega
  have hbyte : UInt8.ofInt b.toNat = b := by
    rw [UInt8.ofInt, Int.emod_eq_of_lt (by omega) (by omega), Int.toNat_natCast, UInt8.ofNat_toNat]
  rw [Session.writePort, hport]
  simp only [bind, Except.bind, hdata, if_false, hbyte]
  rfl

/-- The number of a byte is written to port 0 as a byte. -/
theorem writePort_number (s : Session) (k : Nat) :
    s.writePort 0 (k % 256 : Nat) = .ok (s.hostWrite 0 (UInt8.ofNat k)) := by
  have hwrite := writePort_eq_hostWrite s 0 (UInt8.ofNat k)
  rwa [UInt8.toNat_ofNat'] at hwrite

theorem readPort_eq_hostRead (s : Session) (p : Fin 4) : s.readPort p = .ok (s.machine.cpu.ports.hostRead p) := by
  have hport : Session.port p = .ok p := by
    rw [Session.port, Ports.select, dif_pos p.isLt]
    rfl
  rw [Session.readPort, hport]
  rfl

/-! ## Sessions in the course of an upload -/

/-- A session on time whose machine is in a stage of an upload. -/
structure At (T : Registers → Dsp → Prop) (P : Registers → Core → Prop) (s : Session) : Prop where
  onTime : s.OnTime
  machine : In T P s.machine

/-- Sessions in which the boot program is about to begin: the host has not asked for anything and sees no announcement.
-/
structure AtReset (s : Session) : Prop where
  onTime : s.OnTime
  boots : s.machine.toCore.Boots
  pc : s.machine.cpu.pc = 0xFFC0
  quiet : s.machine.cpu.ports.cpuRead 0 ≠ 0xCC
  silent : s.machine.cpu.ports.hostRead 1 ≠ 0xBB

section Sessions

variable {u : Delivery} {T : Registers → Dsp → Prop} {Q : Registers → Core → Prop} {s t : Session} {k n : Nat}

/-- Run calls keep what instructions, time and ticks keep. -/
theorem At.runs {P : Registers → Core → Prop} (hP : Machine.Invariant (In T P)) (h : At T P s) (hr : Runs s t) :
    At T P t := by
  obtain ⟨limits, rfl⟩ := hr
  rw [Session.runAll_eq_elapse h.onTime]
  exact ⟨h.onTime.elapse _, hP.elapse h.onTime h.machine _⟩

variable {P : Nat → Registers → Core → Prop}

/-- Run calls lead to the end of a phase, or they leave the machine in it. -/
theorem At.runs_or (hP : Machine.Phase (fun n => In T (P n)) (In T Q)) (h : At T (P n) s) (hr : Runs s t) :
    At T Q t ∨ ∃ k, At T (P k) t := by
  obtain ⟨limits, rfl⟩ := hr
  have ht := h.onTime.elapse (s.totalDemand limits)
  rw [Session.runAll_eq_elapse h.onTime]
  rcases hP.elapse_or h.onTime h.machine (s.totalDemand limits) with hQ | ⟨k, hk, -⟩
  · exact .inl ⟨ht, hQ⟩
  · exact .inr ⟨k, ht, hk⟩

/-- Long run calls lead to the end of a phase. -/
theorem At.runs_to (hP : Machine.Phase (fun n => In T (P n)) (In T Q)) (h : At T (P n) s)
    {limits : List (Option Nat × Nat)} (hn : 12 * n + 12 ≤ s.totalDemand limits) : At T Q (s.runAll limits).1 := by
  rw [Session.runAll_eq_elapse h.onTime]
  exact ⟨h.onTime.elapse _, hP.elapse h.onTime h.machine hn⟩

/-- There are run calls of any length. -/
theorem totalDemand_exactly (s : Session) (n : Nat) : s.totalDemand [(some n, 4 * n)] = n := by
  change min n (Machine.cyclesPerFrame * (4 * n / bytesPerFrame) + s.owed) + 0 = n
  have hframes : 4 * n / bytesPerFrame = n := Nat.mul_div_cancel_left n (by decide)
  rw [hframes, Machine.cyclesPerFrame]
  omega

theorem At.exists_runs (hP : Machine.Phase (fun n => In T (P n)) (In T Q)) (h : At T (P n) s) :
    ∃ t, Runs s t ∧ At T Q t :=
  ⟨_, ⟨_, rfl⟩, h.runs_to hP (Nat.le_of_eq (totalDemand_exactly s (12 * n + 12)).symm)⟩

/-! ### From the first wait to the last byte -/

theorem AtReset.starting (h : AtReset s) (hsound : T s.machine.registers s.machine.dsp)
    (hram : u.holds .unknown s.machine.memory) : At T (fun r => Starting u r 2404) s :=
  ⟨h.onTime, hsound, h.boots, rfl, h.quiet, h.silent, hram, .FFC0 h.pc⟩

/-- The host sees on port 0 how far the program has got. -/
theorem At.readPort_zero (h : At T (Answered u k n) s) : s.readPort 0 = .ok (echoed k) := by
  obtain ⟨i, -, hreceiving⟩ := h.machine.program
  exact (readPort_eq_hostRead s 0).trans (congrArg Except.ok hreceiving.answer)

/-- The host posts a byte by writing to two ports. -/
theorem At.post (h : At T (Answered u k n) s) {b : UInt8} (hb : u.data[k]? = some b) :
    ∃ i, At T (fun r => Receiving u r k true i) ((s.hostWrite 1 b).hostWrite 0 (UInt8.ofNat k)) := by
  obtain ⟨i, hpost⟩ := h.machine.program.post hb
  exact ⟨i, ⟨h.onTime.owed, h.onTime.machine⟩, h.machine.sound, hpost⟩

/-- The host requests an upload by writing to all four ports. -/
theorem At.request (h : At T (Listening u) s) : ∃ n, At T (fun r => Requested u r n)
    ((((s.hostWrite 1 1).hostWrite 2 (lowByte u.destination)).hostWrite 3 (highByte u.destination)).hostWrite 0
      0xCC) := by
  obtain ⟨n, hrequest⟩ := h.machine.program.request
  exact ⟨n, ⟨h.onTime.owed, h.onTime.machine⟩, h.machine.sound, hrequest⟩

/-- The next byte to be sent. -/
theorem of_drop_eq_cons {bytes data : List UInt8} {b : UInt8} (h : bytes.drop k = b :: data) :
    bytes[k]? = some b ∧ bytes.drop (k + 1) = data := by
  constructor
  · have hhead := congrArg (·[0]?) h
    simpa using hhead
  · rw [← List.tail_drop, h]
    rfl

variable (hu : Harmless u T)

include hu

/-- A host that sees the announcement has waited until the program listens. -/
theorem At.announced (h : At T (fun r => Starting u r n) s) (hr : Runs s t) (h1 : t.readPort 1 = .ok 0xBB) :
    At T (Listening u) t := by
  rcases h.runs_or (starting_phase hu) hr with h | ⟨k, h⟩
  · exact h
  · exact absurd (Except.ok.inj ((readPort_eq_hostRead t 1).symm.trans h1)) h.machine.program.silent

/-- A host that sees the answer to its request has waited until the program receives bytes. -/
theorem At.accepted (h : At T (fun r => Requested u r n) s) (hr : Runs s t) (h0 : t.readPort 0 = .ok 0xCC) :
    At T (Answered u 0 11) t := by
  rcases h.runs_or (requested_phase hu) hr with h | ⟨k, h⟩
  · exact h
  · exact absurd (Except.ok.inj ((readPort_eq_hostRead t 0).symm.trans h0)) h.machine.program.unanswered

/-- A host that sees the number of a byte on port 0 has waited until the program has received it. -/
theorem At.received (h : At T (fun r => Receiving u r k true n) s) (hr : Runs s t)
    (h0 : t.readPort 0 = .ok (UInt8.ofNat k)) : At T (Answered u (k + 1) 11) t := by
  rcases h.runs_or (receiving_phase hu k) hr with h | ⟨i, h⟩
  · exact h
  · exact absurd (Except.ok.inj ((readPort_eq_hostRead t 0).symm.trans h0)) h.machine.program.hostRead_ne

/-- The program has received all bytes that the host has sent. -/
theorem At.sent {data : List UInt8} (hsend : Sends k data s t) (h : At T (Answered u k 11) s)
    (hdata : u.data.drop k = data) : At T (Answered u (k + data.length) 11) t := by
  induction hsend with
  | nil => exact h
  | @cons k b data s s₁ s₂ t v byte number wait answer rest ih =>
    obtain ⟨hb, hrest⟩ := of_drop_eq_cons hdata
    obtain rfl : s.hostWrite 1 b = s₁ := Except.ok.inj ((writePort_eq_hostWrite s 1 b).symm.trans byte)
    obtain rfl : (s.hostWrite 1 b).hostWrite 0 (UInt8.ofNat k) = s₂ :=
      Except.ok.inj ((writePort_number _ k).symm.trans number)
    obtain ⟨i, hpost⟩ := h.post hb
    have hnext := ih (hpost.received hu wait answer) hrest
    rwa [Nat.add_assoc, Nat.add_comm 1] at hnext

/-- The host gets its answers if it waits for long enough. -/
theorem At.exists_sends {data : List UInt8} (h : At T (Answered u k 11) s) (hdata : u.data.drop k = data) :
    ∃ t, Sends k data s t := by
  induction data generalizing k s with
  | nil => exact ⟨s, .nil k s⟩
  | cons b data ih =>
    obtain ⟨hb, hrest⟩ := of_drop_eq_cons hdata
    obtain ⟨i, hpost⟩ := h.post hb
    obtain ⟨t, hwait, hanswered⟩ := hpost.exists_runs (receiving_phase hu k)
    obtain ⟨v, hsends⟩ := ih hanswered hrest
    exact ⟨v, .cons (writePort_eq_hostWrite s 1 b) (writePort_number _ k) hwait hanswered.readPort_zero hsends⟩

/-! ### Whole uploads -/

/-- The program answers a request that the host has waited for. -/
theorem At.requested (h : At T (fun r => Starting u r n) s) (hrequest : Requests u.destination s t) :
    At T (Answered u 0 11) t := by
  obtain @⟨a, a₁, a₂, a₃, a₄, wait, announcement, kind, low, high, command, wait', answer⟩ := hrequest
  obtain rfl : a.hostWrite 1 1 = a₁ := Except.ok.inj ((writePort_eq_hostWrite a 1 1).symm.trans kind)
  obtain rfl := Except.ok.inj ((writePort_eq_hostWrite _ 2 _).symm.trans low)
  obtain rfl := Except.ok.inj ((writePort_eq_hostWrite _ 3 _).symm.trans high)
  obtain rfl := Except.ok.inj ((writePort_eq_hostWrite _ 0 0xCC).symm.trans command)
  obtain ⟨k, hrequested⟩ := (h.announced hu wait announcement.2).request
  exact hrequested.accepted hu wait' answer

/-- In an upload that the sound unit does not disturb, the program receives and stores all bytes. -/
theorem At.uploaded (h : At T (fun r => Starting u r n) s) (hupload : Uploads u.destination u.data s t) :
    At T (Answered u u.data.length 10) t := by
  obtain @⟨b, c, limits, request, bytes, enough, rfl⟩ := hupload
  have hsent := (h.requested hu request).sent hu bytes List.drop_zero
  rw [Nat.zero_add] at hsent
  have hlast : At T (fun r s => 1 = 1 ∧ Answered u u.data.length 11 r s) c :=
    ⟨hsent.onTime, hsent.machine.sound, rfl, hsent.machine.program⟩
  exact hlast.runs_to (P := fun n r s => n = 1 ∧ Answered u u.data.length 11 r s) (storing_phase hu _)
    (Nat.le_trans (by decide) enough)

/-- A request is answered if the host waits for long enough. -/
theorem At.exists_requests (h : At T (fun r => Starting u r n) s) :
    ∃ t, Requests u.destination s t ∧ At T (Answered u 0 11) t := by
  obtain ⟨a, wait, hlistening⟩ := h.exists_runs (starting_phase hu)
  obtain ⟨h0, h1⟩ := hlistening.machine.program.announced
  obtain ⟨k, hrequested⟩ := hlistening.request
  obtain ⟨t, wait', hanswered⟩ := hrequested.exists_runs (requested_phase hu)
  have hread0 := (readPort_eq_hostRead a 0).trans (congrArg Except.ok h0)
  have hread1 := (readPort_eq_hostRead a 1).trans (congrArg Except.ok h1)
  exact ⟨t, .intro wait ⟨hread0, hread1⟩ (writePort_eq_hostWrite a 1 1) (writePort_eq_hostWrite _ 2 _)
    (writePort_eq_hostWrite _ 3 _) (writePort_eq_hostWrite _ 0 0xCC) wait' hanswered.readPort_zero, hanswered⟩

/-- An upload comes to its end if the host waits for long enough. -/
theorem At.exists_uploads (h : At T (fun r => Starting u r n) s) : ∃ t, Uploads u.destination u.data s t := by
  obtain ⟨b, request, hanswered⟩ := h.exists_requests hu
  obtain ⟨c, bytes⟩ := hanswered.exists_sends hu List.drop_zero
  exact ⟨_, .intro request bytes (Nat.le_of_eq (totalDemand_exactly c 64).symm) rfl⟩

end Sessions

end Boot

end SnesSound
