import SnesSound.Dsp

/-!
# The delay line of the echo unit

The delay line lies at a page of audio RAM and may run around the end of the address space. A tick reads a frame at
the current offset and writes one in its place, so a frame stays in the line until the offset has been once around.
Between ticks others may write to RAM.

Main statements: a tick changes at most the four bytes of its frame (`get_turn_of_not_within`), its offset is always
that of a frame (`Aligned.turn`), and as long as the line keeps its place and its length and others stay away from it,
it holds every frame for as many ticks as it has room for frames, and nothing else happens in RAM (`delayLine`).
-/

namespace SnesSound

/-! ## Blocks of memory -/

/-- Whether an address is that of one of the `length` bytes from `start` on, which may run around the end of the
address space. -/
def Within (start : UInt16) (length : Nat) (address : UInt16) : Prop := (address - start).toNat < length

instance (start : UInt16) (length : Nat) (address : UInt16) : Decidable (Within start length address) :=
  inferInstanceAs (Decidable (_ < _))

section Within

variable {start a : UInt16} {length offset : Nat}

theorem within_self (h : 0 < length) : Within start length start := by simpa [Within]

/-- A part of a block lies in the block. -/
theorem Within.of_part {n : Nat} (h : Within (start + UInt16.ofNat offset) n a) (hn : offset + n ≤ length)
    (hl : length < 65536) : Within start length a := by
  have hs := start.toNat_lt
  have ha := a.toNat_lt
  simp only [Within, UInt16.toNat_sub, UInt16.toNat_add, UInt16.toNat_ofNat'] at h ⊢
  omega

/-- Two frames of a block that begin at different offsets have no byte in common. -/
theorem Within.not_of_ne {other : Nat} (h : Within (start + UInt16.ofNat offset) 4 a) (hne : offset ≠ other)
    (ho : 4 ∣ offset) (ho' : 4 ∣ other) (hl : offset < 0x7800) (hl' : other < 0x7800) :
    ¬Within (start + UInt16.ofNat other) 4 a := by
  have hs := start.toNat_lt
  have ha := a.toNat_lt
  simp only [Within, UInt16.toNat_sub, UInt16.toNat_add, UInt16.toNat_ofNat'] at h ⊢
  omega

end Within

namespace Memory

theorem get_writeWord_of_not_within (m : Memory) {address a : UInt16} (value : UInt16) (h : ¬Within address 2 a) :
    (m.writeWord address value).get a = m.get a := by
  have hlt := address.toNat_lt
  have h0 : address ≠ a := by
    rintro rfl
    exact h (within_self (by decide))
  have h1 : address + 1 ≠ a := by
    rintro rfl
    apply h
    simp only [Within, UInt16.toNat_sub, UInt16.toNat_add, UInt16.toNat_one]
    omega
  rw [writeWord, get_set_of_ne _ _ h1, get_set_of_ne _ _ h0]

/-- Writes bytes one after the other. -/
def setAll (m : Memory) (writes : List (UInt16 × UInt8)) : Memory := writes.foldl (fun m w => m.set w.1 w.2) m

theorem setAll_append (m : Memory) (xs ys : List (UInt16 × UInt8)) : m.setAll (xs ++ ys) = (m.setAll xs).setAll ys :=
  List.foldl_append

/-- A byte to which nothing is written stays. -/
theorem get_setAll_of_forall_ne (m : Memory) {writes : List (UInt16 × UInt8)} {a : UInt16}
    (h : ∀ w ∈ writes, w.1 ≠ a) : (m.setAll writes).get a = m.get a := by
  induction writes generalizing m with
  | nil => rfl
  | cons w writes ih =>
    have hrest := ih (m.set w.1 w.2) fun v hv => h v (List.mem_cons_of_mem _ hv)
    exact hrest.trans (get_set_of_ne _ _ (h w List.mem_cons_self))

/-- What writes leave at an address depends on nothing but the byte that was there. -/
theorem get_setAll_congr {m m' : Memory} {a : UInt16} (h : m.get a = m'.get a) (writes : List (UInt16 × UInt8)) :
    (m.setAll writes).get a = (m'.setAll writes).get a := by
  induction writes generalizing m m' with
  | nil => exact h
  | cons w writes ih =>
    apply ih
    rw [get_set, get_set, h]

end Memory

namespace Echo

/-! ## Frames in memory -/

theorem get_writeFrame_of_not_within (m : Memory) {address a : UInt16} (frame : Frame) (h : ¬Within address 4 a) :
    (writeFrame m address frame).get a = m.get a := by
  have hlt := address.toNat_lt
  have hlow : ¬Within address 2 a := fun h2 => h (Nat.lt_trans h2 (by decide))
  have hhigh : ¬Within (address + 2) 2 a := by
    intro h2
    have hpart : Within (address + UInt16.ofNat 2) 2 a := h2
    exact h (hpart.of_part (by decide) (by decide))
  rw [writeFrame, Memory.get_writeWord_of_not_within _ _ hhigh, Memory.get_writeWord_of_not_within _ _ hlow]

/-- A frame depends on nothing but its four bytes. -/
theorem readFrame_congr {m m' : Memory} {address : UInt16} (h : ∀ a, Within address 4 a → m.get a = m'.get a) :
    readFrame m address = readFrame m' address := by
  have hbyte (k : Nat) (hk : k < 4) : m.get (address + UInt16.ofNat k) = m'.get (address + UInt16.ofNat k) := by
    apply h
    have hlt := address.toNat_lt
    simp only [Within, UInt16.toNat_sub, UInt16.toNat_add, UInt16.toNat_ofNat']
    omega
  have h0 := hbyte 0 (by decide)
  have h1 := hbyte 1 (by decide)
  have h2 := hbyte 2 (by decide)
  have h3 := hbyte 3 (by decide)
  have hsum : address + 2 + 1 = address + 3 := by rw [UInt16.add_assoc]; rfl
  simp only [UInt16.reduceOfNat, UInt16.add_zero] at h0 h1 h2 h3
  simp only [readFrame, Memory.readWord, hsum, h0, h1, h2, h3]

/-- The word that stands for a number reads as that number wrapped around. -/
theorem signed16_wordOfSample (x : Int) : signed16 (wordOfSample x) = wrap16 x := by
  have h : (UInt16.ofNat (x % 2 ^ 16).toNat).toBitVec.toNat = (x % 65536).toNat := by
    simp
    omega
  rw [signed16, Int16.toInt, Int16.toBitVec, UInt16.toInt16, wordOfSample, UInt16.ofInt, BitVec.toInt_eq_toNat_bmod, h,
    Int.toNat_of_nonneg (by omega)]
  exact Int.emod_bmod ..

/-- A word of the line drops the lowest bit of its sample. -/
theorem sampleOfWord_wordOfSample {x : Int} (h : -32768 ≤ x ∧ x ≤ 32767) : sampleOfWord (wordOfSample x) = x / 2 := by
  rw [sampleOfWord, signed16_wordOfSample, wrap16_of_mem h]

/-- What is written back is a 16-bit number. -/
theorem recirculate_mem (feedback input filtered : Int) :
    -32768 ≤ recirculate feedback input filtered ∧ recirculate feedback input filtered ≤ 32767 := by
  have h := clamp16_mem (input + filtered * feedback / 128)
  unfold recirculate evenBelow
  omega

/-- The left sample comes first in a frame. -/
theorem readWord_writeFrame (m : Memory) (address : UInt16) (frame : Frame) :
    (writeFrame m address frame).readWord address = wordOfSample frame.left := by
  have hlt := address.toNat_lt
  have hbyte (k : Nat) (hk : k < 2) : ¬Within (address + 2) 2 (address + UInt16.ofNat k) := by
    simp only [Within, UInt16.toNat_sub, UInt16.toNat_add, UInt16.toNat_ofNat']
    simp
    omega
  have h0 := hbyte 0 (by decide)
  have h1 := hbyte 1 (by decide)
  simp only [UInt16.reduceOfNat, UInt16.add_zero] at h0 h1
  have h := m.readWord_writeWord address (wordOfSample frame.left)
  rw [Memory.readWord] at h ⊢
  rwa [writeFrame, Memory.get_writeWord_of_not_within _ _ h0, Memory.get_writeWord_of_not_within _ _ h1]

/-- A frame of 16-bit numbers is read back without their lowest bits. -/
theorem readFrame_writeFrame (m : Memory) (address : UInt16) {frame : Frame}
    (hl : -32768 ≤ frame.left ∧ frame.left ≤ 32767) (hr : -32768 ≤ frame.right ∧ frame.right ≤ 32767) :
    readFrame (writeFrame m address frame) address = frame.map (· / 2) := by
  rw [readFrame, readWord_writeFrame, writeFrame, Memory.readWord_writeWord, sampleOfWord_wordOfSample hl,
    sampleOfWord_wordOfSample hr]
  rfl

/-! ## Ticks -/

/-- What a tick brings to the echo unit. -/
structure Turn where
  /-- What others write to RAM before the tick. -/
  writes : List (UInt16 × UInt8) := []
  registers : Registers
  /-- The sum of the voices with echo. -/
  input : Frame

section Turn

variable (s : Echo × Memory) (t : Turn)

/-- The echo unit and RAM after a tick. -/
def turn : Echo × Memory := (s.1.process t.registers (s.2.setAll t.writes) t.input).2

/-- The output of the filter in a tick. -/
def heard : Frame := (s.1.process t.registers (s.2.setAll t.writes) t.input).1

/-- The frame of the delay line that a tick reads. -/
def taken : Frame := readFrame (s.2.setAll t.writes) (s.1.address t.registers)

/-- The frame that a tick writes back unless it must not: on each channel, the input and the feedback of the filter. -/
def returned : Frame := t.input.zipWith (recirculate t.registers.feedback) (heard s t)

theorem offset_turn : (turn s t).1.offset = nextOffset s.1.offset t.registers.echoLength := rfl

variable {s t}

theorem memory_turn_of_readOnly (h : t.registers.echoReadOnly = true) : (turn s t).2 = s.2.setAll t.writes := by
  simp [turn, process, h]

theorem memory_turn_of_not_readOnly (h : t.registers.echoReadOnly = false) :
    (turn s t).2 = writeFrame (s.2.setAll t.writes) (s.1.address t.registers) (returned s t) := by
  simp [turn, process, h, returned, heard]

/-- A tick changes at most the four bytes of its frame. -/
theorem get_turn_of_not_within {a : UInt16} (h : ¬Within (s.1.address t.registers) 4 a) :
    (turn s t).2.get a = (s.2.setAll t.writes).get a := by
  cases ht : t.registers.echoReadOnly with
  | true => rw [memory_turn_of_readOnly ht]
  | false => rw [memory_turn_of_not_readOnly ht, get_writeFrame_of_not_within _ _ h]

/-- What a tick writes is read back without the lowest bits. -/
theorem readFrame_turn (h : t.registers.echoReadOnly = false) :
    readFrame (turn s t).2 (s.1.address t.registers) = (returned s t).map (· / 2) := by
  rw [memory_turn_of_not_readOnly h, readFrame_writeFrame _ _ (recirculate_mem ..) (recirculate_mem ..)]

end Turn

/-! ## Offsets -/

theorem four_dvd_echoLength (r : Registers) : 4 ∣ r.echoLength := by
  unfold Registers.echoLength
  split <;> omega

theorem echoLength_pos (r : Registers) : 0 < r.echoLength := by
  unfold Registers.echoLength
  split <;> omega

theorem echoLength_le (r : Registers) : r.echoLength ≤ 0x7800 := by
  unfold Registers.echoLength
  split <;> omega

/-- Whether the offset is that of a frame in the longest delay line. -/
structure Aligned (e : Echo) : Prop where
  dvd : 4 ∣ e.offset
  lt : e.offset < 0x7800

/-- The offset stays that of a frame, whatever happens to the length of the delay line. -/
theorem Aligned.turn {s : Echo × Memory} (h : s.1.Aligned) (t : Turn) : (turn s t).1.Aligned := by
  obtain ⟨hdvd, -⟩ := h
  have hle := echoLength_le t.registers
  constructor
  · rw [offset_turn, nextOffset]
    split <;> omega
  · rw [offset_turn, nextOffset]
    split <;> omega

/-! ## Runs -/

/-- The echo unit and RAM after `n` ticks. -/
def after (s : Echo × Memory) (turns : Nat → Turn) : Nat → Echo × Memory
  | 0 => s
  | n + 1 => turn (after s turns n) (turns n)

theorem Aligned.after {s : Echo × Memory} (h : s.1.Aligned) (turns : Nat → Turn) (n : Nat) :
    (after s turns n).1.Aligned := by
  induction n with
  | zero => exact h
  | succ n ih => exact ih.turn (turns n)

/-- Whether a tick leaves a delay line where it is, at its length, and others stay away from it. -/
structure Turn.Keeps (r : Registers) (t : Turn) : Prop where
  esa : t.registers.get Register.esa = r.get Register.esa
  edl : t.registers.get Register.edl = r.get Register.edl
  outside : ∀ w ∈ t.writes, ¬Within r.echoStart r.echoLength w.1

section Run

variable {r : Registers} {s : Echo × Memory} {turns : Nat → Turn} {n : Nat}

theorem Turn.Keeps.echoStart_eq {t : Turn} (h : t.Keeps r) : t.registers.echoStart = r.echoStart := by
  rw [Registers.echoStart, Registers.echoStart, h.esa]

theorem Turn.Keeps.echoLength_eq {t : Turn} (h : t.Keeps r) : t.registers.echoLength = r.echoLength := by
  rw [Registers.echoLength, Registers.echoLength, h.edl]

theorem Turn.Keeps.address_eq {t : Turn} (h : t.Keeps r) (e : Echo) :
    e.address t.registers = r.echoStart + UInt16.ofNat e.offset := by
  rw [address, h.echoStart_eq]

/-- Whether the offset is that of a frame in the delay line. -/
structure InLine (r : Registers) (e : Echo) : Prop where
  dvd : 4 ∣ e.offset
  lt : e.offset < r.echoLength

namespace InLine

theorem aligned {e : Echo} (h : e.InLine r) : e.Aligned := ⟨h.dvd, Nat.lt_of_lt_of_le h.lt (echoLength_le r)⟩

theorem offset_turn (h : s.1.InLine r) {t : Turn} (ht : t.Keeps r) :
    (turn s t).1.offset = (s.1.offset + 4) % r.echoLength := by
  rw [Echo.offset_turn, ht.echoLength_eq, nextOffset_eq_mod (four_dvd_echoLength r) h.dvd h.lt]

theorem turn (h : s.1.InLine r) {t : Turn} (ht : t.Keeps r) : (turn s t).1.InLine r := by
  have hdvd := h.dvd
  constructor
  · rw [h.offset_turn ht, Nat.dvd_mod_iff (four_dvd_echoLength r)]
    omega
  · rw [h.offset_turn ht]
    exact Nat.mod_lt _ (echoLength_pos r)

theorem after (h : s.1.InLine r) (hk : ∀ i < n, (turns i).Keeps r) : (after s turns n).1.InLine r := by
  induction n with
  | zero => exact h
  | succ n ih => exact (ih fun i hi => hk i (Nat.lt_succ_of_lt hi)).turn (hk n (Nat.lt_succ_self n))

/-- The offset goes around the delay line. -/
theorem offset_after (h : s.1.InLine r) (hk : ∀ i < n, (turns i).Keeps r) :
    (Echo.after s turns n).1.offset = (s.1.offset + 4 * n) % r.echoLength := by
  induction n with
  | zero => exact (Nat.mod_eq_of_lt h.lt).symm
  | succ n ih =>
    have hbefore : ∀ i < n, (turns i).Keeps r := fun i hi => hk i (Nat.lt_succ_of_lt hi)
    rw [Echo.after, (h.after hbefore).offset_turn (hk n (Nat.lt_succ_self n)), ih hbefore, Nat.mod_add_mod,
      Nat.add_assoc, Nat.mul_succ]

/-- The frame of a tick lies in the delay line. -/
theorem within_line {e : Echo} (h : e.InLine r) {a : UInt16} (ha : Within (r.echoStart + UInt16.ofNat e.offset) 4 a) :
    Within r.echoStart r.echoLength a := by
  have hdvd := h.dvd
  have hlt := h.lt
  have hlen := four_dvd_echoLength r
  have hle := echoLength_le r
  exact ha.of_part (by omega) (by omega)

end InLine

/-- What others write to RAM before and between the first `n` ticks. -/
def written (turns : Nat → Turn) (n : Nat) : List (UInt16 × UInt8) := (List.range n).flatMap fun i => (turns i).writes

theorem written_succ (turns : Nat → Turn) (n : Nat) : written turns (n + 1) = written turns n ++ (turns n).writes := by
  simp [written, List.range_succ, List.flatMap_append]

/-- Outside of the delay line only others write. -/
theorem get_after_of_not_within (h : s.1.InLine r) (hk : ∀ i < n, (turns i).Keeps r) {a : UInt16}
    (ha : ¬Within r.echoStart r.echoLength a) : (after s turns n).2.get a = (s.2.setAll (written turns n)).get a := by
  induction n with
  | zero => rfl
  | succ n ih =>
    have hbefore : ∀ i < n, (turns i).Keeps r := fun i hi => hk i (Nat.lt_succ_of_lt hi)
    have hn := hk n (Nat.lt_succ_self n)
    have hframe : ¬Within ((after s turns n).1.address (turns n).registers) 4 a := by
      rw [hn.address_eq]
      exact fun hw => ha ((h.after hbefore).within_line hw)
    rw [after, get_turn_of_not_within hframe, written_succ, Memory.setAll_append]
    exact Memory.get_setAll_congr (ih hbefore) _

/-- While the delay line is read-only, only others write. -/
theorem memory_after_of_readOnly (h : ∀ i < n, (turns i).registers.echoReadOnly = true) :
    (after s turns n).2 = s.2.setAll (written turns n) := by
  induction n with
  | zero => rfl
  | succ n ih =>
    rw [after, memory_turn_of_readOnly (h n (Nat.lt_succ_self n)), ih fun i hi => h i (Nat.lt_succ_of_lt hi),
      written_succ, Memory.setAll_append]

/-! ## Once around -/

theorem after_add (s : Echo × Memory) (turns : Nat → Turn) (i n : Nat) :
    after s turns (i + n) = after (after s turns i) (fun k => turns (i + k)) n := by
  induction n with
  | zero => rfl
  | succ n ih => rw [← Nat.add_assoc, after, ih, after]

/-- What a tick leaves in its frame stays there until the offset has been once around. -/
theorem get_after_of_within (h : s.1.InLine r) (hk : ∀ i < n + 1, (turns i).Keeps r) (hn : 4 * n < r.echoLength)
    {a : UInt16} (ha : Within (r.echoStart + UInt16.ofNat s.1.offset) 4 a) :
    (after s turns (n + 1)).2.get a = (turn s (turns 0)).2.get a := by
  induction n with
  | zero => rfl
  | succ n ih =>
    have hbefore : ∀ i < n + 1, (turns i).Keeps r := fun i hi => hk i (Nat.lt_succ_of_lt hi)
    have hlast := hk (n + 1) (Nat.lt_succ_self _)
    have hline := h.after hbefore
    have hlt := h.lt
    have hdvd := h.dvd
    have hle := echoLength_le r
    have hoffset := h.offset_after hbefore
    have hne : s.1.offset ≠ (after s turns (n + 1)).1.offset := by
      rw [hoffset]
      by_cases hround : s.1.offset + 4 * (n + 1) < r.echoLength
      · rw [Nat.mod_eq_of_lt hround]
        omega
      · rw [Nat.mod_eq_sub_mod (by omega), Nat.mod_eq_of_lt (by omega)]
        omega
    have hframe : ¬Within ((after s turns (n + 1)).1.address (turns (n + 1)).registers) 4 a := by
      rw [hlast.address_eq]
      exact ha.not_of_ne hne hdvd hline.dvd h.aligned.lt hline.aligned.lt
    have hothers : ∀ w ∈ (turns (n + 1)).writes, w.1 ≠ a := by
      rintro w hw rfl
      exact hlast.outside w hw (h.within_line ha)
    rw [after, get_turn_of_not_within hframe, Memory.get_setAll_of_forall_ne _ hothers]
    exact ih hbefore (by omega)

/-- A tick reads what was written one round before. -/
theorem taken_after_round (h : s.1.InLine r) (hk : ∀ i < r.echoLength / 4 + 1, (turns i).Keeps r)
    (hw : (turns 0).registers.echoReadOnly = false) :
    taken (after s turns (r.echoLength / 4)) (turns (r.echoLength / 4)) = (returned s (turns 0)).map (· / 2) := by
  obtain ⟨n, hn⟩ : ∃ n, r.echoLength / 4 = n + 1 := by
    have hpos := echoLength_pos r
    have hlen := four_dvd_echoLength r
    exact ⟨r.echoLength / 4 - 1, by omega⟩
  have hround : 4 * (n + 1) = r.echoLength := by
    rw [← hn]
    exact Nat.mul_div_cancel' (four_dvd_echoLength r)
  rw [hn] at hk ⊢
  have hbefore : ∀ i < n + 1, (turns i).Keeps r := fun i hi => hk i (Nat.lt_succ_of_lt hi)
  have hlast := hk (n + 1) (Nat.lt_succ_self _)
  have hfirst := hk 0 (Nat.succ_pos _)
  have hoffset : (after s turns (n + 1)).1.offset = s.1.offset := by
    rw [h.offset_after hbefore, hround, Nat.add_mod_right, Nat.mod_eq_of_lt h.lt]
  rw [← readFrame_turn hw, taken, hlast.address_eq, hfirst.address_eq, hoffset]
  apply readFrame_congr
  intro a ha
  have hothers : ∀ w ∈ (turns (n + 1)).writes, w.1 ≠ a := by
    rintro w hw rfl
    exact hlast.outside w hw (h.within_line ha)
  rw [Memory.get_setAll_of_forall_ne _ hothers]
  exact get_after_of_within h hbefore (by omega) ha

end Run

/-- The delay line lies where the registers `r` say. As long as ticks keep it there and others stay away from it, the
offset goes around it, RAM outside of it is what the others make of it, all of RAM is while the line is read-only, and a
tick that writes is heard again after one round: the frame that is read then is, on each channel, the sum of its input
and of the feedback of its filter, without the two lowest bits of its word. Whatever happens to the line, the offset
stays that of a frame, and a tick changes at most the four bytes of its frame. -/
theorem delayLine (r : Registers) (e : Echo) (m : Memory) (turns : Nat → Turn) (hlt : e.offset < r.echoLength)
    (hdvd : 4 ∣ e.offset) :
    let line := after (e, m) turns
    (∀ n, (∀ i < n, (turns i).Keeps r) →
      (line n).1.offset = (e.offset + 4 * n) % r.echoLength ∧
      (∀ a, ¬Within r.echoStart r.echoLength a → (line n).2.get a = (m.setAll (written turns n)).get a) ∧
      ((∀ i < n, (turns i).registers.echoReadOnly = true) → (line n).2 = m.setAll (written turns n)) ∧
      ∀ i, i + r.echoLength / 4 < n → (turns i).registers.echoReadOnly = false →
        taken (line (i + r.echoLength / 4)) (turns (i + r.echoLength / 4)) =
          (turns i).input.zipWith
            (fun input filtered =>
              evenBelow (clamp16 (input + filtered * (turns i).registers.feedback / 128)) / 2)
            (heard (line i) (turns i))) ∧
    ∀ n, 4 ∣ (line n).1.offset ∧ (line n).1.offset < 0x7800 ∧
      ∀ a, ¬Within ((line n).1.address (turns n).registers) 4 a →
        (line (n + 1)).2.get a = ((line n).2.setAll (turns n).writes).get a := by
  intro line
  have hline : e.InLine r := ⟨hdvd, hlt⟩
  constructor
  · intro n hk
    refine ⟨hline.offset_after hk, fun a ha => get_after_of_not_within hline hk ha, memory_after_of_readOnly, ?_⟩
    intro i hi hw
    have hki : ∀ k < i, (turns k).Keeps r := fun k hk' => hk k (by omega)
    have hki' : ∀ k < r.echoLength / 4 + 1, (turns (i + k)).Keeps r := fun k hk' => hk (i + k) (by omega)
    have hround := taken_after_round (InLine.after (s := (e, m)) hline hki) hki' hw
    rw [← after_add] at hround
    exact hround
  · intro n
    have hn := Aligned.after (s := (e, m)) hline.aligned turns n
    exact ⟨hn.dvd, hn.lt, fun a ha => get_turn_of_not_within ha⟩

/-- A line of one page of 2048 bytes: what the first tick writes is read again by tick 512. -/
theorem delayLine_one_round :
    let r := Registers.zero.store Register.edl 1
    let turns : Nat → Turn := fun _ => { registers := r, input := ⟨1001, -7⟩ }
    let u := after ({}, .zero) turns 512
    u.1.offset = 0 ∧ taken u (turns 512) = ⟨500, -4⟩ := by
  intro r turns u
  have hlength : r.echoLength = 2048 := by decide
  have hfeedback : r.feedback = 0 := by decide
  have hlt : ({} : Echo).offset < r.echoLength := by rw [hlength]; decide
  have hk : ∀ i < 513, (turns i).Keeps r := fun i _ => ⟨rfl, rfl, fun _ h => absurd h (by simp [turns])⟩
  obtain ⟨hrun, -⟩ := delayLine r {} .zero turns hlt (by decide)
  obtain ⟨hoffset, -⟩ := hrun 512 fun i hi => hk i (by omega)
  obtain ⟨-, -, -, hround⟩ := hrun 513 hk
  rw [hlength] at hoffset hround
  have htaken := hround 0 (by decide) (by decide)
  refine ⟨hoffset, htaken.trans ?_⟩
  simp only [turns, hfeedback, Stereo.zipWith, Int.mul_zero]
  decide

end Echo

end SnesSound
