import SnesSound.Proofs.Dsp.KeyOn

/-!
# What a voice has influence on

A tick runs the voices one after the other over registers that they share. A voice leaves its bits in KON and ENDX, and
its output is there for the next voice, but no voice reads the bits of another one, and an output is heard by no more
than the next voice, and by that one only under pitch modulation. So a difference in one voice does not reach the voices
before it, and it does not reach those after it either as long as the next one is not modulated.

For that, the same things are done to two sound units that differ in one voice. The relation between them (`Alike`)
holds for any selection of voices that none of the others modulates. RAM stays the same because the delay line is
read-only.

Main statement: a difference in one voice reaches no voice before it, only a modulated one after it, and neither the
noise generator nor the echo unit (`influence_only_upwards`).
-/

namespace SnesSound

namespace Register

/-- Whether a register has one bit for each voice. -/
def HasBits (a : Fin 128) : Prop := a = kon ∨ a = koff ∨ a = endx ∨ a = pmon ∨ a = non ∨ a = eon

instance (a : Fin 128) : Decidable (HasBits a) := inferInstanceAs (Decidable (_ ∨ _))

/-- Whether a register is one of the first ten in the row of a voice. -/
def Own (j : Fin 8) (a : Fin 128) : Prop := a.val / 16 = j.val ∧ a.val % 16 < 10

instance (j : Fin 8) (a : Fin 128) : Decidable (Own j a) := inferInstanceAs (Decidable (_ ∧ _))

/-- The registers that have bits for the voices lie in the columns of the global registers. -/
theorem HasBits.column {a : Fin 128} (h : HasBits a) : 10 ≤ a.val % 16 := by
  rcases h with rfl | rfl | rfl | rfl | rfl | rfl <;> decide

/-- Of these, a tick changes KON and ENDX alone. -/
theorem HasBits.kept {a : Fin 128} (h : HasBits a) (hkon : a ≠ kon) (hendx : a ≠ endx) : Kept a := by
  rcases h with rfl | rfl | rfl | rfl | rfl | rfl
  · exact absurd rfl hkon
  · decide
  · exact absurd rfl hendx
  · decide
  · decide
  · decide

theorem not_own_of_column {a : Fin 128} (h : 10 ≤ a.val % 16) (j : Fin 8) : ¬Own j a :=
  fun ho => Nat.not_lt.mpr h ho.2

theorem not_own_ofVoice {i j : Fin 8} (h : i ≠ j) (column : Fin 16) : ¬Own j (ofVoice i column) := by
  rintro ⟨hrow, -⟩
  apply h
  have hval : (ofVoice i column).val = 16 * i.val + column.val := rfl
  exact Fin.ext (by omega)

theorem not_hasBits_ofVoice (i : Fin 8) {column : Fin 16} (h : column.val < 10) : ¬HasBits (ofVoice i column) := by
  intro hb
  have hcolumn := hb.column
  have hval : (ofVoice i column).val = 16 * i.val + column.val := rfl
  omega

end Register

namespace SoundUnit

/-! ## Two sound units -/

/-- Whether two sound units are the same but for a voice: its state, the first ten registers of its row, and its bits of
KON, KOFF, ENDX, PMON, NON and EON. Their last frames, which nothing reads, may differ as well. -/
structure SameBut (j : Fin 8) (u u' : SoundUnit) : Prop where
  voices : ∀ i, i ≠ j → u.dsp.voices.get i = u'.dsp.voices.get i
  noise : u.dsp.noise = u'.dsp.noise
  echo : u.dsp.echo = u'.dsp.echo
  memory : u.memory = u'.memory
  bits : ∀ a, Register.HasBits a → ∀ i : Fin 8, i ≠ j → bit (u.registers.get a) i = bit (u'.registers.get a) i
  registers : ∀ a, ¬Register.HasBits a → ¬Register.Own j a → u.registers.get a = u'.registers.get a

/-- Whether a voice is the same in two sound units: its state, and what it shows in ENVX, OUTX and ENDX. -/
structure SameVoice (i : Fin 8) (u u' : SoundUnit) : Prop where
  voice : u.dsp.voices.get i = u'.dsp.voices.get i
  envx : u.registers.ofVoice i 8 = u'.registers.ofVoice i 8
  outx : u.registers.ofVoice i 9 = u'.registers.ofVoice i 9
  endx : bit (u.registers.get Register.endx) i = bit (u'.registers.get Register.endx) i

/-- Whether two sound units that differed in voice `j` are still the same for the voices that `S` selects, and in
everything else that voices and the echo unit are asked for. -/
structure Alike (j : Fin 8) (S : Fin 8 → Prop) (u u' : SoundUnit) : Prop where
  voices : ∀ i, S i → SameVoice i u u'
  noise : u.dsp.noise = u'.dsp.noise
  echo : u.dsp.echo = u'.dsp.echo
  memory : u.memory = u'.memory
  bits : ∀ a, Register.HasBits a → a ≠ Register.endx →
    ∀ i : Fin 8, i ≠ j → bit (u.registers.get a) i = bit (u'.registers.get a) i
  registers : ∀ a, Register.Kept a → ¬Register.HasBits a → ¬Register.Own j a →
    u.registers.get a = u'.registers.get a

/-- Whether none of the selected voices hears one that is not selected. -/
def Deaf (S : Fin 8 → Prop) (u : SoundUnit) : Prop :=
  ∀ k : Fin 7, S k.succ → S k.castSucc ∨ bit (u.registers.get Register.pmon) k.succ = false

variable {j : Fin 8} {S : Fin 8 → Prop} {u u' : SoundUnit}

/-- Where the echo unit reads in a tick is up to the registers that the tick has found. -/
theorem echo_tick (u : SoundUnit) (mask : UInt8) : (u.tick mask).2.dsp.echo =
    { offset := Echo.nextOffset u.dsp.echo.offset u.registers.echoLength
      history := u.dsp.echo.history.zipWith Ring.push
        (Echo.readFrame u.memory (u.dsp.echo.address u.registers)) } := by
  have hlength := (Dsp.keeps_turn u.dsp u.registers u.memory mask).echoLength_eq
  have haddress := Dsp.address_tick u.dsp u.registers u.memory mask
  rw [← hlength, ← haddress]
  rfl

theorem SameBut.alike (h : SameBut j u u') (hS : ∀ i, S i → i ≠ j) : Alike j S u u' where
  voices i hi := {
    voice := h.voices i (hS i hi)
    envx := h.registers _ (Register.not_hasBits_ofVoice i (by decide)) (Register.not_own_ofVoice (hS i hi) _)
    outx := h.registers _ (Register.not_hasBits_ofVoice i (by decide)) (Register.not_own_ofVoice (hS i hi) _)
    endx := h.bits _ (by decide) i (hS i hi) }
  noise := h.noise
  echo := h.echo
  memory := h.memory
  bits a ha _ := h.bits a ha
  registers a _ := h.registers a

namespace Alike

variable (h : Alike j S u u')

include h

/-! ## Ticks -/

/-- A register that is shared by all voices and has no bits for them. -/
theorem shared {a : Fin 128} (ha : Register.Kept a) (hb : ¬Register.HasBits a) (hc : 10 ≤ a.val % 16) :
    u.registers.get a = u'.registers.get a := h.registers a ha hb (Register.not_own_of_column hc j)

theorem flg : u.registers.get Register.flg = u'.registers.get Register.flg :=
  h.shared (by decide) (by decide) (by decide)

/-- The voices other than `j` read the same. -/
theorem sameFor {i : Fin 8} (hi : i ≠ j) : Registers.SameFor i u.registers u'.registers where
  own column _ hc := h.registers _ (Register.kept_ofVoice i hc) (Register.not_hasBits_ofVoice i (by omega))
    (Register.not_own_ofVoice hi column)
  koff := h.bits _ (by decide) (by decide) i hi
  pmon := h.bits _ (by decide) (by decide) i hi
  non := h.bits _ (by decide) (by decide) i hi
  dir := h.shared (by decide) (by decide) (by decide)

theorem prepareVoices {i : Fin 8} (hi : S i) (hj : i ≠ j) :
    (Dsp.prepareVoices u.dsp.voices u.registers).get i = (Dsp.prepareVoices u'.dsp.voices u'.registers).get i := by
  rw [Dsp.get_prepareVoices, Dsp.get_prepareVoices, Dsp.bit_starting, Dsp.bit_starting, Registers.softReset,
    Registers.softReset, h.flg, (h.voices i hi).voice, h.bits _ (by decide) (by decide) i hj,
    h.bits Register.koff (by decide) (by decide) i hj]

/-- A tick makes the same of a selected voice if it hears the same. -/
theorem voiceTick_of_previous {i : Fin 8} (hi : S i) (hj : i ≠ j)
    (hprevious : (u.dsp.pass u.registers u.memory).previous i = (u'.dsp.pass u'.registers u'.memory).previous i ∨
      bit (u.registers.get Register.pmon) i = false) :
    u.dsp.voiceTick u.registers u.memory i = u'.dsp.voiceTick u'.registers u'.memory i := by
  rw [Dsp.voiceTick, Dsp.voiceTick, h.prepareVoices hi hj, ← (h.sameFor hj).tick, Registers.noiseAmount,
    Registers.noiseAmount, h.flg, ← h.noise]
  rcases hprevious with hheard | hdeaf
  · rw [hheard, h.memory]
  · rw [← h.memory]
    exact Voice.tick_of_unmodulated hdeaf ..

/-- A tick makes the same of all selected voices, as each of them hears another one or none. -/
theorem voiceTick (hS : ∀ i, S i → i ≠ j) (hdeaf : u.Deaf S) (i : Fin 8) (hi : S i) :
    u.dsp.voiceTick u.registers u.memory i = u'.dsp.voiceTick u'.registers u'.memory i := by
  induction i using Fin.induction with
  | zero =>
    refine h.voiceTick_of_previous hi (hS 0 hi) (.inl ?_)
    rw [Dsp.Pass.previous_zero, Dsp.Pass.previous_zero]
  | succ k ih =>
    refine h.voiceTick_of_previous hi (hS _ hi) ((hdeaf k hi).imp_left fun hk => ?_)
    rw [Dsp.Pass.previous_succ, Dsp.Pass.previous_succ, (Dsp.voice_pass u.dsp u.registers u.memory _).output,
      (Dsp.voice_pass u'.dsp u'.registers u'.memory _).output, ih hk]

/-- A tick keeps two sound units alike while the delay line is read-only. -/
theorem tick (hS : ∀ i, S i → i ≠ j) (hdeaf : u.Deaf S) (hreadOnly : u.registers.echoReadOnly = true) (mask : UInt8) :
    Alike j S (u.tick mask).2 (u'.tick mask).2 where
  voices i hi := by
    have hshows := Dsp.voice_pass u.dsp u.registers u.memory i
    have hshows' := Dsp.voice_pass u'.dsp u'.registers u'.memory i
    rw [← h.voiceTick hS hdeaf i hi, ← (h.voices i hi).endx, ← h.bits _ (by decide) (by decide) i (hS i hi)] at hshows'
    exact {
      voice := hshows.voice.trans hshows'.voice.symm
      envx := hshows.envx.trans hshows'.envx.symm
      outx := hshows.outx.trans hshows'.outx.symm
      endx := hshows.endx.trans hshows'.endx.symm }
  noise := by
    have hrate (r : Registers) : (Dsp.prepareRegisters r).noiseAmount = r.noiseAmount := by
      rw [Registers.noiseAmount, Registers.noiseAmount, Dsp.get_prepareRegisters_of_kept (by decide)]
    change u.dsp.noise.tick _ = u'.dsp.noise.tick _
    rw [hrate, hrate, Registers.noiseAmount, Registers.noiseAmount, h.flg, h.noise]
  echo := by
    have hesa : u.registers.get Register.esa = u'.registers.get Register.esa :=
      h.shared (by decide) (by decide) (by decide)
    have hedl : u.registers.get Register.edl = u'.registers.get Register.edl :=
      h.shared (by decide) (by decide) (by decide)
    rw [echo_tick, echo_tick, Echo.address, Echo.address, Registers.echoStart, Registers.echoStart,
      Registers.echoLength, Registers.echoLength, hesa, hedl, h.echo, h.memory]
  memory := by
    have hreadOnly' : u'.registers.echoReadOnly = true := by rwa [Registers.echoReadOnly, ← h.flg]
    change (u.dsp.tick _ _ mask).2.2.2 = (u'.dsp.tick _ _ mask).2.2.2
    rw [Dsp.memory_tick_of_readOnly _ _ _ hreadOnly, Dsp.memory_tick_of_readOnly _ _ _ hreadOnly', h.memory]
  bits a ha hend i hi := by
    have hbefore := h.bits a ha hend i hi
    by_cases hkon : a = Register.kon
    · have hkoff := h.bits Register.koff (by decide) (by decide) i hi
      have hleft (v : SoundUnit) : bit ((v.tick mask).2.registers.get Register.kon) i =
          (bit (v.registers.get Register.kon) i && !(bit (v.registers.get Register.kon) i &&
            !bit (v.registers.get Register.koff) i)) := by
        have hpass : (v.tick mask).2.registers.get Register.kon = _ := Dsp.get_kon_pass v.dsp v.registers v.memory
        rw [hpass, bit_and, bit_not, Dsp.bit_starting]
      rw [hkon] at hbefore ⊢
      rw [hleft, hleft, hbefore, hkoff]
    · have hkept : Register.Kept a := ha.kept hkon hend
      change bit ((u.dsp.tick _ _ mask).2.2.1.get a) i = bit ((u'.dsp.tick _ _ mask).2.2.1.get a) i
      rw [Dsp.get_tick_of_kept _ _ _ _ hkept, Dsp.get_tick_of_kept _ _ _ _ hkept, hbefore]
  registers a hk hb ho := by
    change (u.dsp.tick _ _ mask).2.2.1.get a = (u'.dsp.tick _ _ mask).2.2.1.get a
    rw [Dsp.get_tick_of_kept _ _ _ _ hk, Dsp.get_tick_of_kept _ _ _ _ hk, h.registers a hk hb ho]

/-! ## Runs -/

/-- The same writes and changes of RAM keep two sound units alike. -/
theorem before (t : Turn) : Alike j S (u.before t) (u'.before t) where
  voices i hi := {
    voice := (h.voices i hi).voice
    envx := Registers.get_writeAll_congr id (h.voices i hi).envx t.writes
    outx := Registers.get_writeAll_congr id (h.voices i hi).outx t.writes
    endx := Registers.get_writeAll_congr (bit · i) (h.voices i hi).endx t.writes }
  noise := h.noise
  echo := h.echo
  memory := congrArg t.change h.memory
  bits a ha hend i hi := Registers.get_writeAll_congr (bit · i) (h.bits a ha hend i hi) t.writes
  registers a hk hb ho := Registers.get_writeAll_congr id (h.registers a hk hb ho) t.writes

/-- Two sound units stay alike in any run in which the selected voices hear no others. -/
theorem found (hS : ∀ i, S i → i ≠ j) (turns : Nat → Turn) (t : Nat)
    (hreadOnly : ∀ k < t, (u.found turns k).registers.echoReadOnly = true)
    (hdeaf : ∀ k < t, (u.found turns k).Deaf S) : Alike j S (u.found turns t) (u'.found turns t) := by
  induction t with
  | zero => exact h.before (turns 0)
  | succ t ih =>
    have hbefore := ih (fun k hk => hreadOnly k (Nat.lt_succ_of_lt hk)) fun k hk => hdeaf k (Nat.lt_succ_of_lt hk)
    have hlast := Nat.lt_succ_self t
    exact (hbefore.tick hS (hdeaf t hlast) (hreadOnly t hlast) (turns t).mask).before (turns (t + 1))

end Alike

/-- Voices influence each other only upwards, and only through pitch modulation. Two sound units are the same but for
voice `j`. The same writes to registers, changes of RAM and ticks happen to both, and every tick finds the delay line
read-only. Then all voices below `j` stay the same, those above `j` do as well if no tick finds voice `j + 1` modulated,
and the noise generator, the echo unit and RAM stay the same in any case. -/
theorem influence_only_upwards (j : Fin 8) (u u' : SoundUnit) (h : SameBut j u u') (turns : Nat → Turn) (t : Nat)
    (hreadOnly : ∀ k < t, (u.found turns k).registers.echoReadOnly = true) :
    (∀ i < j, SameVoice i (u.found turns t) (u'.found turns t)) ∧
    ((∀ k < t, ∀ next : Fin 8, next.val = j.val + 1 →
        bit ((u.found turns k).registers.get Register.pmon) next = false) →
      ∀ i, i ≠ j → SameVoice i (u.found turns t) (u'.found turns t)) ∧
    (u.found turns t).dsp.noise = (u'.found turns t).dsp.noise ∧
    (u.found turns t).dsp.echo = (u'.found turns t).dsp.echo ∧
    (u.found turns t).memory = (u'.found turns t).memory := by
  have hbelow : Alike j (· < j) (u.found turns t) (u'.found turns t) := by
    have hne (i : Fin 8) (hi : i < j) : i ≠ j := Fin.ne_of_lt hi
    refine (h.alike hne).found hne turns t hreadOnly fun k _ l hl => .inl ?_
    exact Fin.lt_trans (Fin.castSucc_lt_succ) hl
  refine ⟨hbelow.voices, fun hunmodulated => ?_, hbelow.noise, hbelow.echo, hbelow.memory⟩
  have hothers : Alike j (· ≠ j) (u.found turns t) (u'.found turns t) := by
    refine (h.alike fun _ hi => hi).found (fun _ hi => hi) turns t hreadOnly fun k hk l _ => ?_
    by_cases hl : l.castSucc = j
    · exact .inr (hunmodulated k hk l.succ (congrArg (fun i : Fin 8 => i.val + 1) hl))
    · exact .inl hl
  exact hothers.voices

/-- A sound unit with a read-only delay line in which voice 2 plays noise and modulates voice 3. -/
def duet : SoundUnit where
  dsp := { voices := Vector.set (.replicate 8 {}) 2 { playing := true } }
  registers := Registers.zero.writeAll [(0x6C, 0x20), (0x27, 0x7F), (0x3D, 0x04), (0x2D, 0x08)]
  memory := .zero

/-- Voice 2 puts out the same in the next two ticks whether voice 1 is at rest or plays as well, with a note to come. -/
theorem influence_only_upwards_duet :
    let loud : SoundUnit :=
      { duet with
        dsp := { voices := duet.dsp.voices.set 1 { playing := true, keyOnDelay := 3, output := 20000 } }
        registers := duet.registers.writeAll [(0x10, 0x7F), (0x17, 0x7F), (0x3D, 0x06), (0x4C, 0x02), (0x2D, 0x0A)] }
    let turns : Nat → Turn := fun _ => ⟨[], id, 0⟩
    SameBut 1 duet loud ∧ SameVoice 2 (duet.found turns 2) (loud.found turns 2) ∧
      ((duet.found turns 2).dsp.voices.get 2).output = -32512 ∧
      (duet.found turns 2).dsp.voices.get 1 ≠ (loud.found turns 2).dsp.voices.get 1 := by
  intro loud turns
  have hsame : SameBut 1 duet loud := {
    voices := by decide +kernel
    noise := rfl
    echo := rfl
    memory := rfl
    bits := by decide +kernel
    registers := by decide +kernel }
  obtain ⟨hreadOnly, hunmodulated, houtput, hne⟩ :
      (∀ k < 2, (duet.found turns k).registers.echoReadOnly = true) ∧
      (∀ k < 2, ∀ next : Fin 8, next.val = 1 + 1 →
        bit ((duet.found turns k).registers.get Register.pmon) next = false) ∧
      ((duet.found turns 2).dsp.voices.get 2).output = -32512 ∧
      (duet.found turns 2).dsp.voices.get 1 ≠ (loud.found turns 2).dsp.voices.get 1 := by decide +kernel
  obtain ⟨-, hothers, -⟩ := influence_only_upwards 1 duet loud hsame turns 2 hreadOnly
  exact ⟨hsame, hothers hunmodulated 2 (by decide), houtput, hne⟩

end SoundUnit

end SnesSound
