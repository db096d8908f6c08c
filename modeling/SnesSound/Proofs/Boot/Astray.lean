import SnesSound.Proofs.Boot.Upload

/-!
# Uploads to a new session

In a new session the registers of the sound unit are zero: the delay line of the echo unit is a single frame at address
0, it is not read-only, and it gets neither voices nor feedback. So every tick zeroes the first four bytes of RAM, and
with them the pointer of the boot program. A byte that is uploaded after that is stored in page 0, wherever it should
have gone, although the boot program answers as if nothing had happened.

Main statement: a host can upload a byte to any address behind page 0 of a new session without that RAM changes there
(`upload_astray`).
-/

namespace SnesSound

/-- A sum without voices. -/
theorem Dsp.sum_of_none {included : Fin 8 → Bool} (h : ∀ i, included i = false) (r : Registers)
    (outputs : Vector Int 8) : sum r outputs included = .both 0 := by
  rw [sum, Fin.foldl_eq_finRange_foldl]
  refine List.foldlRecOn (motive := fun total => total = Stereo.both (0 : Int)) _ _ rfl fun total htotal i _ => ?_
  rw [h i, htotal]
  rfl

namespace Boot

/-! ## A delay line over the pointer -/

/-- Whether the delay line is the first four bytes of RAM, and neither voices nor feedback get into it. -/
structure Overlaid (r : Registers) (e : Dsp) : Prop where
  flg : r.get Register.flg = 0
  esa : r.get Register.esa = 0
  edl : r.get Register.edl = 0
  eon : r.get Register.eon = 0
  efb : r.get Register.efb = 0
  offset : e.echo.offset = 0

namespace Overlaid

variable {r : Registers} {e : Dsp} (h : Overlaid r e)

include h

theorem tick (m : Memory) (mask : UInt8) : Overlaid (e.tick r m mask).2.2.1 (e.tick r m mask).2.1 where
  flg := (Dsp.get_tick_of_kept e r m mask (by decide)).trans h.flg
  esa := (Dsp.get_tick_of_kept e r m mask (by decide)).trans h.esa
  edl := (Dsp.get_tick_of_kept e r m mask (by decide)).trans h.edl
  eon := (Dsp.get_tick_of_kept e r m mask (by decide)).trans h.eon
  efb := (Dsp.get_tick_of_kept e r m mask (by decide)).trans h.efb
  offset := by
    have hedl := (Dsp.get_tick_of_kept e r m mask (a := Register.edl) (by decide)).trans h.edl
    have hlength : (e.tick r m mask).2.2.1.echoLength = 4 := by
      rw [Registers.echoLength, hedl]
      rfl
    change Echo.nextOffset e.echo.offset (e.tick r m mask).2.2.1.echoLength = 0
    rw [h.offset, hlength]
    rfl

theorem address : e.echo.address r = 0 := by
  rw [Echo.address, Registers.echoStart, h.esa, h.offset]
  rfl

/-- A tick changes nothing but the first four bytes. -/
theorem get_tick (m : Memory) (mask : UInt8) {a : UInt16} (ha : 4 ≤ a.toNat) :
    (e.tick r m mask).2.2.2.get a = m.get a := by
  refine Dsp.get_memory_tick_of_not_within e mask fun hw => ?_
  rw [h.address, Within, UInt16.sub_zero] at hw
  omega

/-- A tick zeroes the pointer. -/
theorem readWord_tick (m : Memory) (mask : UInt8) : (e.tick r m mask).2.2.2.readWord 0 = 0 := by
  have ht := h.tick m mask
  have hwritable : (e.turn r m mask).registers.echoReadOnly = false := by
    rw [Dsp.registers_turn, Registers.echoReadOnly, ht.flg]
    decide
  have hinput : (e.turn r m mask).input = .both 0 := by
    have heon : (e.pass r m).registers.get Register.eon = 0 := ht.eon
    have hnone (i : Fin 8) : (!bit mask i && bit ((e.pass r m).registers.get Register.eon) i) = false := by
      rw [heon, bit, bit, UInt8.toNat_zero, Nat.zero_testBit, Bool.and_false]
    exact Dsp.sum_of_none hnone (e.pass r m).registers (e.pass r m).outputs
  have hfeedback : (e.turn r m mask).registers.feedback = 0 := by
    rw [Dsp.registers_turn, Registers.feedback, ht.efb]
    rfl
  have hreturned : (Echo.returned (e.echo, m) (e.turn r m mask)).left = 0 := by
    rw [Echo.returned, hinput, hfeedback]
    change Echo.recirculate 0 0 (Echo.heard (e.echo, m) (e.turn r m mask)).left = 0
    rw [Echo.recirculate, Int.mul_zero]
    rfl
  have hmemory : (e.tick r m mask).2.2.2 = (Echo.turn (e.echo, m) (e.turn r m mask)).2 :=
    congrArg Prod.snd (Dsp.echo_memory_tick e r m mask)
  have haddress : e.echo.address (e.turn r m mask).registers = 0 :=
    (Dsp.address_tick e r m mask).trans h.address
  rw [hmemory, Echo.memory_turn_of_not_readOnly hwritable]
  change (Echo.writeFrame _ (e.echo.address (e.turn r m mask).registers) _).readWord 0 = 0
  rw [haddress, Echo.readWord_writeFrame, hreturned]
  rfl

end Overlaid

/-! ## A byte that goes astray -/

/-- Writes to page 0 leave other pages as they are. -/
theorem get_set_page_zero (m : Memory) {a d : UInt16} (value : UInt8) (ha : a.toNat < 0x100) (hd : 0x100 ≤ d.toNat) :
    (m.set a value).get d = m.get d := by
  have hne : a ≠ d := by
    rintro rfl
    omega
  exact Memory.get_set_of_ne _ _ hne

section Deliveries

variable (d : UInt16) (value : UInt8) (hd : 0x100 ≤ d.toNat)

/-- A request for an upload to `d`, as far as the byte goes that lies there. -/
def requestOnly : Delivery where
  destination := d
  data := []
  holds _ m := m.get d = value
  unknown_set v h ha := (get_set_page_zero _ v ha.toNat_lt hd).trans h
  ready_zero h := ((get_set_page_zero _ _ (by decide) hd).trans (get_set_page_zero _ _ (by decide) hd)).trans h
  ready_set v h := (get_set_page_zero _ v (by decide) hd).trans h
  plain _ hk := absurd hk (by simp)
  placed_set _ hk := absurd hk (by simp)
  ready_of_placed h _ := h
  ready_of_placed_of_zero h _ _ := (get_set_page_zero _ _ (by decide) hd).trans h

/-- A byte that is uploaded while the pointer is zero, as far as another byte goes that lies at `d`. -/
def pageZero (b : UInt8) : Delivery where
  destination := 0
  data := [b]
  holds f m := m.get d = value ∧ (f = .ready 0 → m.readWord 0 = 0)
  unknown_set v h ha := ⟨(get_set_page_zero _ v ha.toNat_lt hd).trans h.1, nofun⟩
  ready_zero {m} h := by
    refine ⟨?_, fun _ => m.readWord_writeWord 0 0⟩
    exact ((get_set_page_zero _ _ (by decide) hd).trans (get_set_page_zero _ _ (by decide) hd)).trans h.1
  ready_set v h :=
    ⟨(get_set_page_zero _ v (by decide) hd).trans h.1, fun hf => (readWord_zero_set _ v (by decide)).trans (h.2 hf)⟩
  plain {k m v} h hk := by
    obtain rfl : k = 0 := by simpa using (List.getElem?_eq_some_iff.mp hk).1
    rw [h.2 rfl]
    rfl
  placed_set {k m v} h hk := by
    obtain rfl : k = 0 := by simpa using (List.getElem?_eq_some_iff.mp hk).1
    rw [h.2 rfl]
    exact ⟨(get_set_page_zero _ v (by decide) hd).trans h.1, nofun⟩
  ready_of_placed {k m} h hk := by
    refine ⟨h.1, fun hf => ?_⟩
    cases hf
    exact absurd rfl hk
  ready_of_placed_of_zero {k m} h hpos _ := by
    refine ⟨(get_set_page_zero _ _ (by decide) hd).trans h.1, fun hf => ?_⟩
    cases hf
    exact absurd hpos (by decide)

theorem harmless_requestOnly : Harmless (requestOnly d value hd) Overlaid where
  tick m mask h := h.tick m mask
  ram {r e m f} mask h hram := (h.get_tick m mask (by omega)).trans hram

theorem harmless_pageZero (b : UInt8) : Harmless (pageZero d value hd b) Overlaid where
  tick m mask h := h.tick m mask
  ram {r e m f} mask h hram := ⟨(h.get_tick m mask (by omega)).trans hram.1, fun _ => h.readWord_tick m mask⟩

variable {d value hd}

/-- Once the pointer is zero, the program is about to store its first byte in page 0. -/
theorem Answered.pageZero {r : Registers} {s : Core} (h : Answered (requestOnly d value hd) 0 11 r s)
    (hpointer : s.memory.readWord 0 = 0) (b : UInt8) : Answered (Boot.pageZero d value hd b) 0 11 r s := by
  obtain ⟨n, hn, h⟩ := h
  obtain ⟨f, hram, hreceives⟩ := h.receives
  have hwait : Receives (Boot.pageZero d value hd b) 0 false s.cpu.toRegisterSet f n :=
    hreceives.wait false fun i b hi => absurd hi (Nat.succ_ne_zero i).symm
  exact ⟨n, hn, h.boots, h.registers, h.answer, h.latch, nofun, f, ⟨hram, fun _ => hpointer⟩, hwait⟩

/-- As soon as the sound unit has made a tick, the byte to come goes astray. -/
theorem At.pageZero {s : Session} (h : At Overlaid (Answered (requestOnly d value hd) 0 11) s) (b : UInt8)
    {limits : List (Option Nat × Nat)} (hn : s.owed < s.totalDemand limits) :
    At Overlaid (Answered (Boot.pageZero d value hd b) 0 11) (s.runAll limits).1 := by
  have hrequested := answered_invariant (n := 11) (harmless_requestOnly d value hd) 0 (by decide)
  have hastray := answered_invariant (n := 11) (harmless_pageZero d value hd b) 0 (by decide)
  have htick {m : Machine} (mask : UInt8) (hm : In Overlaid (Answered (requestOnly d value hd) 0 11) m) :
      In Overlaid (Answered (Boot.pageZero d value hd b) 0 11) (m.tick mask).2 :=
    have hnext := hrequested.tick mask hm
    ⟨hnext.sound, hnext.program.pageZero (hm.sound.readWord_tick _ _) b⟩
  rw [Session.runAll_eq_elapse h.onTime]
  exact ⟨h.onTime.elapse _, hrequested.elapse_of_tick hastray htick h.onTime h.machine hn⟩

end Deliveries

/-! ## New sessions -/

theorem atReset_new : AtReset {} where
  onTime := Session.onTime_new
  boots := ⟨rfl, by decide, rfl⟩
  pc := by decide
  quiet := by decide
  silent := by decide

theorem overlaid_new : Overlaid Registers.zero {} where
  flg := rfl
  esa := rfl
  edl := rfl
  eon := rfl
  efb := rfl
  offset := rfl

/-- A byte can be uploaded to any address behind page 0 of a new session without that RAM changes there. -/
theorem upload_astray {d : UInt16} (hd : 0x100 ≤ d.toNat) (b : UInt8) :
    ∃ t, Uploads d [b] {} t ∧ t.machine.memory.get d = Memory.powerOn.get d := by
  have hrequest := harmless_requestOnly d (Memory.powerOn.get d) hd
  have hastray := harmless_pageZero d (Memory.powerOn.get d) hd b
  have hstarting := atReset_new.starting (u := requestOnly d (Memory.powerOn.get d) hd) overlaid_new rfl
  obtain ⟨s, request, hanswered⟩ := hstarting.exists_requests hrequest
  -- The host goes on waiting until the sound unit has made another tick.
  have hlong := totalDemand_exactly s (s.owed + 1)
  have hready := hanswered.pageZero b (Nat.lt_of_lt_of_eq (Nat.lt_succ_self _) hlong.symm)
  have hrequests := request.runs ⟨_, rfl⟩ hready.readPort_zero
  obtain ⟨c, bytes⟩ := hready.exists_sends hastray List.drop_zero
  have hend := (hready.sent hastray bytes rfl).runs (answered_invariant hastray 1 (by decide))
    ⟨[(some 64, 4 * 64)], rfl⟩
  obtain ⟨i, -, hreceiving⟩ := hend.machine.program
  obtain ⟨f, hram, -⟩ := hreceiving.receives
  exact ⟨_, .intro hrequests bytes (Nat.le_of_eq (totalDemand_exactly c 64).symm) rfl, hram.1⟩

/-- The byte `55` does not get to address `200`. -/
theorem upload_astray_200 : ∃ t, Uploads 0x200 [0x55] {} t ∧ t.machine.memory.get 0x200 ≠ 0x55 := by
  obtain ⟨t, hupload, hkept⟩ := upload_astray (d := 0x200) (by decide) 0x55
  refine ⟨t, hupload, ?_⟩
  have hzero : Memory.powerOn.get 0x200 = 0 := by
    rw [Memory.get, Memory.powerOn, Fin.getElem_fin, Vector.getElem_ofFn]
    decide
  rw [hkept, hzero]
  decide

end Boot

end SnesSound
