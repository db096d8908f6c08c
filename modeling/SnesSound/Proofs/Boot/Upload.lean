import SnesSound.Proofs.Boot.Host
import SnesSound.Proofs.Snapshot.Encode

/-!
# Uploads to RAM

The boot program keeps a pointer to the destination at address 0 and adds the number of the next byte to it, as far as
it fits into a byte; every 256 bytes it moves the pointer to the next page. As long as the echo unit keeps away from the
pointer and the destination, this puts every byte where it is to go.

Main statement: an upload that the echo unit keeps away from stores its bytes (`upload_stores`).
-/

namespace SnesSound

namespace Boot

/-! ## RAM in the course of an upload -/

/-- The first `k` bytes lie where they are to go. -/
def Stored (d : UInt16) (data : List UInt8) (k : Nat) (m : Memory) : Prop :=
  ∀ i < k, ∀ v, data[i]? = some v → m.get (d + UInt16.ofNat i) = v

/-- What holds of RAM in the course of an upload. The pointer goes from page to page. -/
def Fills (d : UInt16) (data : List UInt8) : Filling → Memory → Prop
  | .unknown, _ => True
  | .ready k, m => m.readWord 0 = d + UInt16.ofNat (k / 256 * 256) ∧ Stored d data k m
  | .placed k, m => m.readWord 0 = d + UInt16.ofNat ((k - 1) / 256 * 256) ∧ Stored d data k m

section Addresses

variable {d a : UInt16} {data : List UInt8} {k : Nat} {m : Memory}

/-- The pointer and the low byte of a number make the address of the byte with that number. -/
theorem page_add_offset (d : UInt16) (k : Nat) :
    d + UInt16.ofNat (k / 256 * 256) + (UInt8.ofNat k).toUInt16 = d + UInt16.ofNat k := by
  apply UInt16.toNat_inj.mp
  simp only [UInt16.toNat_add, UInt16.toNat_ofNat', UInt8.toNat_toUInt16, UInt8.toNat_ofNat']
  omega

theorem toNat_add_ofNat (h : d.toNat + k < 65536) : (d + UInt16.ofNat k).toNat = d.toNat + k := by
  simp only [UInt16.toNat_add, UInt16.toNat_ofNat']
  omega

/-- The pointer of an upload is kept by writes to other addresses. -/
theorem readWord_zero_set (m : Memory) (value : UInt8) (h : 2 ≤ a.toNat) :
    (m.set a value).readWord 0 = m.readWord 0 := by
  have h0 : a ≠ 0 := by
    rintro rfl
    exact absurd h (by decide)
  have h1 : a ≠ 0 + 1 := by
    rintro rfl
    exact absurd h (by decide)
  rw [Memory.readWord, Memory.readWord, Memory.get_set_of_ne _ _ h0, Memory.get_set_of_ne _ _ h1]

/-- Incrementing its high byte moves the pointer to the next page. -/
theorem readWord_zero_increment (m : Memory) : (m.set 1 (m.get 1 + 1)).readWord 0 = m.readWord 0 + 256 := by
  have h0 : (1 : UInt16) ≠ 0 := by decide
  have h1 : (0 : UInt16) + 1 = 1 := rfl
  rw [Memory.readWord, Memory.readWord, h1, Memory.get_set_self, Memory.get_set_of_ne _ _ h0]
  apply UInt16.toNat_inj.mp
  have hlow := (m.get 0).toNat_lt
  have hhigh := (m.get 1).toNat_lt
  simp only [UInt16.toNat_add, toNat_word, UInt8.toNat_add, UInt8.toNat_one, UInt16.reduceToNat]
  omega

variable (hlen : d.toNat + data.length ≤ 0xFFC0)

include hlen

/-- Storing the next byte. -/
theorem Stored.push (h : Stored d data k m) {value : UInt8} (hk : data[k]? = some value) :
    Stored d data (k + 1) (m.set (d + UInt16.ofNat k) value) := by
  intro i hi v hv
  by_cases hik : i = k
  · subst hik
    rw [Memory.get_set_self]
    exact Option.some.inj (hk.symm.trans hv)
  · have hlength := (List.getElem?_eq_some_iff.mp hv).1
    have hlength' := (List.getElem?_eq_some_iff.mp hk).1
    have haddress : (d + UInt16.ofNat i).toNat = d.toNat + i := toNat_add_ofNat (by omega)
    have haddress' : (d + UInt16.ofNat k).toNat = d.toNat + k := toNat_add_ofNat (by omega)
    have hne : d + UInt16.ofNat k ≠ d + UInt16.ofNat i := fun he => hik (by rw [he] at haddress'; omega)
    rw [Memory.get_set_of_ne _ _ hne]
    exact h i (by omega) v hv

variable (hd : 0x200 ≤ d.toNat)

include hd

/-- Bytes that have been stored stay when the program writes to page 0. -/
theorem Stored.set (h : Stored d data k m) (value : UInt8) (ha : a.toNat < 0x200) :
    Stored d data k (m.set a value) := by
  intro i hi v hv
  have hlength := (List.getElem?_eq_some_iff.mp hv).1
  have haddress : (d + UInt16.ofNat i).toNat = d.toNat + i := toNat_add_ofNat (by omega)
  have hne : a ≠ d + UInt16.ofNat i := by
    rintro rfl
    omega
  rw [Memory.get_set_of_ne _ _ hne]
  exact h i hi v hv

end Addresses

/-- The upload of bytes to an address behind page 1, as far as the RAM goes that the boot ROM does not hide. -/
def toRam (d : UInt16) (data : List UInt8) (hd : 0x200 ≤ d.toNat) (hlen : d.toNat + data.length ≤ 0xFFC0) :
    Delivery where
  destination := d
  data := data
  holds := Fills d data
  unknown_set _ _ _ := trivial
  ready_zero {m} _ := by
    have hword := m.readWord_writeWord 0 d
    exact ⟨hword.trans (UInt16.add_zero d).symm, fun i hi => absurd hi (Nat.not_lt_zero i)⟩
  ready_set value h := ⟨(readWord_zero_set _ value (by decide)).trans h.1, h.2.set hlen hd value (by decide)⟩
  plain {k m value} h hk := by
    have hlength := (List.getElem?_eq_some_iff.mp hk).1
    have haddress : (d + UInt16.ofNat k).toNat = d.toNat + k := toNat_add_ofNat (by omega)
    rw [h.1, page_add_offset]
    exact IoRegister.ofAddress?_eq_none (.inr (by omega))
  placed_set {k m value} h hk := by
    have hlength := (List.getElem?_eq_some_iff.mp hk).1
    have haddress : (d + UInt16.ofNat k).toNat = d.toNat + k := toNat_add_ofNat (by omega)
    have hpointer := (readWord_zero_set m value (a := d + UInt16.ofNat k) (by omega)).trans h.1
    rw [h.1, page_add_offset]
    exact ⟨hpointer, h.2.push hlen hk⟩
  ready_of_placed {k m} h hk := by
    have hpage : (k - 1) / 256 * 256 = k / 256 * 256 := by
      have hne : k % 256 ≠ 0 := fun h0 => hk (UInt8.toNat_inj.mp (by rw [UInt8.toNat_ofNat']; exact h0))
      omega
    exact ⟨hpage ▸ h.1, h.2⟩
  ready_of_placed_of_zero {k m} h hpos hk := by
    have hpage : k / 256 * 256 = (k - 1) / 256 * 256 + 256 := by
      have h0 := congrArg UInt8.toNat hk
      rw [UInt8.toNat_ofNat'] at h0
      change k % 256 = 0 at h0
      omega
    refine ⟨?_, h.2.set hlen hd _ (by decide)⟩
    rw [readWord_zero_increment, h.1, hpage, UInt16.ofNat_add, UInt16.add_assoc]
    rfl

/-! ## Uploads that succeed -/

section ToRam

variable {d : UInt16} {data : List UInt8} {n : Nat}

/-- Whether an upload of `n` bytes to `d` makes use of an address, be it for the pointer or for a byte. -/
def Used (d : UInt16) (n : Nat) (a : UInt16) : Prop := a.toNat < 2 ∨ Within d n a

/-- Whether the sound unit keeps away from the addresses that an upload of `n` bytes to `d` makes use of. -/
def Apart (d : UInt16) (n : Nat) (r : Registers) (e : Dsp) : Prop :=
  r.echoReadOnly = true ∨ e.echo.InLine r ∧ ∀ a, Used d n a → ¬Within r.echoStart r.echoLength a

theorem Apart.get_tick {r : Registers} {e : Dsp} (h : Apart d n r e) (m : Memory) (mask : UInt8) {a : UInt16}
    (ha : Used d n a) : (e.tick r m mask).2.2.2.get a = m.get a := by
  rcases h with hro | ⟨hline, haway⟩
  · rw [Dsp.memory_tick_of_readOnly _ _ _ hro]
  · exact Dsp.get_memory_tick_of_not_within_line _ hline (haway a ha)

/-- What is asked of RAM is asked of the addresses in use. -/
theorem Fills.congr {m m' : Memory} {f : Filling} (hlen : d.toNat + data.length < 65536)
    (h : ∀ a, Used d data.length a → m'.get a = m.get a) (hm : Fills d data f m) : Fills d data f m' := by
  have hpointer : m'.readWord 0 = m.readWord 0 := by
    rw [Memory.readWord, Memory.readWord, h 0 (.inl (by decide)), h (0 + 1) (.inl (by decide))]
  have hstored {k : Nat} (hk : Stored d data k m) : Stored d data k m' := by
    intro i hi v hv
    have hlength := (List.getElem?_eq_some_iff.mp hv).1
    have hused : Within d data.length (d + UInt16.ofNat i) := by
      rw [Within, UInt16.add_comm, UInt16.add_sub_cancel, UInt16.toNat_ofNat']
      omega
    rw [h _ (.inr hused)]
    exact hk i hi v hv
  cases f with
  | unknown => trivial
  | ready k | placed k => exact ⟨hpointer.trans hm.1, hstored hm.2⟩

theorem harmless_of_apart (hd : 0x200 ≤ d.toNat) (hlen : d.toNat + data.length ≤ 0xFFC0) :
    Harmless (toRam d data hd hlen) (Apart d data.length) where
  tick {r e} m mask h := by
    have hkeeps := Dsp.keeps_turn e r m mask
    rcases h with hro | ⟨hline, haway⟩
    · exact .inl ((Dsp.echoReadOnly_tick e r m mask).trans hro)
    · refine .inr ⟨Dsp.inLine_tick m mask hline, fun a ha hw => haway a ha ?_⟩
      have hstart : (e.tick r m mask).2.2.1.echoStart = r.echoStart := hkeeps.echoStart_eq
      have hlength : (e.tick r m mask).2.2.1.echoLength = r.echoLength := hkeeps.echoLength_eq
      rwa [hstart, hlength] at hw
  ram mask h hram := hram.congr (by omega) fun a ha => h.get_tick _ mask ha

/-- If the delay line of the echo unit is read-only or lies apart from the pointer of the boot program and from the
destination, a host can upload bytes, and whenever it has done so, they lie in RAM. -/
theorem upload_stores {s : Session} (h : AtReset s) {d : UInt16} {data : List UInt8} (hd : 0x200 ≤ d.toNat)
    (hlen : d.toNat + data.length ≤ 0xFFC0) (hapart : Apart d data.length s.machine.registers s.machine.dsp) :
    (∃ t, Uploads d data s t) ∧ ∀ t, Uploads d data s t →
      ∀ i v, data[i]? = some v → t.machine.memory.get (d + UInt16.ofNat i) = v := by
  have hu := harmless_of_apart hd hlen
  have hstarting := h.starting (u := toRam d data hd hlen) hapart trivial
  refine ⟨hstarting.exists_uploads hu, fun t hupload i v hv => ?_⟩
  have hi := (List.getElem?_eq_some_iff.mp hv).1
  obtain ⟨k, hk, hreceiving⟩ := (hstarting.uploaded hu hupload).machine.program
  obtain ⟨f, hram, hreceives⟩ := hreceiving.receives
  rcases hreceives.filling hk with rfl | rfl
  · exact hram.2 i hi v hv
  · exact hram.2 i hi v hv

/-- The snapshot of a machine at reset with a delay line that is read-only. -/
def resetSnapshot : Snapshot where
  format := .spc
  tag := none
  cpu := { pc := 0xFFC0 }
  memory := Memory.zero.set 0xF1 0x80
  registers := Registers.zero.store Register.flg 0x20

theorem atReset_install (s : Session) : AtReset (s.install resetSnapshot) where
  onTime := Session.onTime_install s resetSnapshot
  boots := ⟨rfl, congrArg (bit · 7) (Memory.get_set_self ..), rfl⟩
  pc := rfl
  quiet := by
    have hlatch (snapshot : Snapshot) :
        (s.install snapshot).machine.cpu.ports.cpuRead 0 = snapshot.memory.get 0xF4 := rfl
    have hzero : Memory.zero.get 0xF4 = 0 := by simp [Memory.zero, Memory.get]
    rw [hlatch, resetSnapshot, Memory.get_set_of_ne _ _ (by decide), hzero]
    decide
  silent := by
    change (Vector.replicate 4 (0 : UInt8)).get 1 ≠ 0xBB
    decide

/-- Bytes on two pages can be uploaded to such a machine. -/
theorem upload_stores_two_pages : ∃ s, ({} : Session).load (SpcFile.encode resetSnapshot.cpu resetSnapshot.memory
      resetSnapshot.registers) = .ok s ∧
    (∃ t, Uploads 0x200 (List.replicate 300 0x55) s t) ∧
    ∀ t, Uploads 0x200 (List.replicate 300 0x55) s t →
      ∀ i < 300, t.machine.memory.get (0x200 + UInt16.ofNat i) = 0x55 := by
  have hload := Session.load_encode {} resetSnapshot.cpu resetSnapshot.memory resetSnapshot.registers
  have hapart : Apart 0x200 (List.replicate 300 (0x55 : UInt8)).length resetSnapshot.registers {} := .inl (by decide)
  obtain ⟨hexists, hstores⟩ := upload_stores (atReset_install {}) (d := 0x200) (by decide)
    (by rw [List.length_replicate]; decide) hapart
  exact ⟨_, hload, hexists, fun t ht i hi => hstores t ht i _ (by rw [List.getElem?_replicate_of_lt hi])⟩

end ToRam

end Boot

end SnesSound
