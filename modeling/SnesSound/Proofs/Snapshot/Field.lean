import Mathlib.Algebra.Ring.Nat
import SnesSound.Snapshot.Tag

/-!
# What the fields of a tag hold

A text that is shorter than its field has zeros behind it, and reading it ends there. The text of a field can be taken
apart into the texts of smaller fields. A number is written with its digits, or with its bytes, and digits that are
taken for bytes make a greater number.

Main statements: a text is read back from its field (`HoldsText.text_eq`), a number from its digits
(`HoldsText.numeral?_eq`) and from its bytes (`ofLittleEndian_littleEndian`), and digits are not the bytes of the number
that they make (`eq_empty_of_ofLittleEndian_eq`).
-/

namespace SnesSound

/-! ## Numbers and their digits and bytes -/

/-- A numeral with `k` digits is below `10 ^ k`; with digits read before, the number that they make grows by as many
places. -/
theorem Numeral.ofDigitChars_lt {cs : List Char} (h : ∀ c ∈ cs, c.isDigit = true) (start : Nat) :
    Nat.ofDigitChars 10 cs start < (start + 1) * 10 ^ cs.length := by
  induction cs generalizing start with
  | nil => simp
  | cons c cs ih =>
    obtain ⟨hlow, hhigh⟩ := Char.isDigit_iff_toNat.mp (h c List.mem_cons_self)
    have hdigit : c.toNat - '0'.toNat ≤ 9 := by
      change c.toNat - 48 ≤ 9
      change c.toNat ≤ 57 at hhigh
      omega
    rw [Nat.ofDigitChars_cons]
    calc Nat.ofDigitChars 10 cs (10 * start + (c.toNat - '0'.toNat))
        < (10 * start + (c.toNat - '0'.toNat) + 1) * 10 ^ cs.length :=
        ih (fun d hd => h d (List.mem_cons_of_mem c hd)) _
      _ ≤ (10 * (start + 1)) * 10 ^ cs.length := Nat.mul_le_mul_right _ (by omega)
      _ = (start + 1) * 10 ^ (c :: cs).length := by rw [List.length_cons, Nat.pow_succ]; ac_rfl

/-- A number is written with exactly as many digits as are asked for, if it has no more. -/
theorem Numeral.length_decimal {width n : Nat} (hwidth : 0 < width) (h : n < 10 ^ width) :
    (decimal width n).toList.length = width := by
  have hlen := (Nat.length_toDigits_le_iff (by decide) hwidth).mpr h
  rw [toList_decimal, List.length_append, List.length_replicate]
  omega

/-- A number that fits into its bytes is read back from them. -/
theorem ofLittleEndian_littleEndian {width n : Nat} (h : n < 256 ^ width) :
    ofLittleEndian (littleEndian width n) = n := by
  induction width generalizing n with
  | zero => exact (Nat.lt_one_iff.mp h).symm
  | succ width ih =>
    have hrest : n / 256 < 256 ^ width := Nat.div_lt_of_lt_mul (by rwa [Nat.mul_comm, ← Nat.pow_succ])
    rw [littleEndian, ofLittleEndian_cons, ih hrest, UInt8.toNat_ofNat']
    omega

/-- A number whose bytes are all at least `least` is as great in its last byte alone. -/
theorem le_ofLittleEndian {least n : Nat} {bytes : List UInt8} (hlen : bytes.length = n + 1)
    (h : ∀ b ∈ bytes, least ≤ b.toNat) : least * 256 ^ n ≤ ofLittleEndian bytes := by
  induction n generalizing bytes with
  | zero =>
    obtain ⟨b, rfl⟩ := List.length_eq_one_iff.mp hlen
    simpa using h b
  | succ n ih =>
    obtain ⟨b, rest, rfl⟩ := List.exists_cons_of_length_eq_add_one hlen
    have hrest := ih (Nat.succ.inj hlen) fun c hc => h c (List.mem_cons_of_mem b hc)
    rw [ofLittleEndian_cons, Nat.pow_succ, ← Nat.mul_assoc]
    omega

namespace Tag

variable {header : List UInt8} {offset length k : Nat} {s t : String}

/-! ## Bytes -/

theorem field_eq_take (h : k ≤ length) : field header offset k = (field header offset length).take k := by
  rw [field, field, List.take_take, Nat.min_eq_left h]

theorem field_eq_drop : field header (offset + k) length = (field header offset (k + length)).drop k := by
  rw [field, field, List.drop_take, List.drop_drop, Nat.add_sub_cancel_left]

theorem byte_eq_getD (h : k < length) : byte header (offset + k) = (field header offset length).getD k 0 := by
  rw [byte, field, List.getD_eq_getElem?_getD, List.getD_eq_getElem?_getD, List.getElem?_take_of_lt h,
    List.getElem?_drop]

/-! ## Texts -/

/-- Whether a field holds a text: its bytes, none of which is zero, and zeros behind them. -/
def HoldsText (header : List UInt8) (offset length : Nat) (s : String) : Prop :=
  field header offset length = (Utf8.encode s).rightpad length 0 ∧ 0 ∉ Utf8.encode s

instance : Decidable (HoldsText header offset length s) := inferInstanceAs (Decidable (_ ∧ _))

namespace HoldsText

/-- A text is no longer than its field. -/
theorem length_le (h : HoldsText header offset length s) : (Utf8.encode s).length ≤ length := by
  have hlen : (field header offset length).length ≤ length := List.length_take_le ..
  rw [h.1, List.length_rightpad] at hlen
  omega

/-- The bytes of a field: the text, then zeros. -/
theorem field_eq (h : HoldsText header offset length s) :
    field header offset length = Utf8.encode s ++ List.replicate (length - (Utf8.encode s).length) 0 := h.1

theorem byte_eq (h : HoldsText header offset length s) (hk : k < length) :
    byte header (offset + k) = (Utf8.encode s).getD k 0 := by
  rw [byte_eq_getD hk, h.field_eq, List.getD_eq_getElem?_getD, List.getD_eq_getElem?_getD, List.getElem?_append]
  split
  · rfl
  next hlt =>
    rw [List.getElem?_eq_none (Nat.le_of_not_lt hlt), List.getElem?_replicate]
    split <;> rfl

theorem characters_eq (h : HoldsText header offset length s) : characters (field header offset length) = s.toList := by
  have hne : ∀ b ∈ Utf8.encode s, (b ≠ 0 : Bool) = true := fun b hb =>
    decide_eq_true fun hzero => h.2 (hzero ▸ hb)
  rw [characters, h.field_eq, List.takeWhile_append_of_pos hne, List.takeWhile_replicate]
  simp [Utf8.decodeChars_encode]

/-- A text is read back. -/
theorem text_eq (h : HoldsText header offset length s) : text header offset length = s := by
  rw [text, h.characters_eq, String.ofList_toList]

/-- Of two texts one behind the other, the first fills a field of its own. -/
theorem left (h : HoldsText header offset length (s ++ t)) (hs : (Utf8.encode s).length = k) :
    HoldsText header offset k s := by
  have hle := h.length_le
  rw [Utf8.encode_append, List.length_append] at hle
  refine ⟨?_, fun hzero => h.2 (Utf8.encode_append s t ▸ List.mem_append_left _ hzero)⟩
  rw [field_eq_take (show k ≤ length by omega), h.field_eq, Utf8.encode_append, List.append_assoc,
    List.take_left' hs, List.rightpad, hs, Nat.sub_self, List.replicate_zero, List.append_nil]

/-- Of two texts one behind the other, the second is in the field behind the first. -/
theorem right (h : HoldsText header offset (k + length) (s ++ t)) (hs : (Utf8.encode s).length = k) :
    HoldsText header (offset + k) length t := by
  refine ⟨?_, fun hzero => h.2 (Utf8.encode_append s t ▸ List.mem_append_right _ hzero)⟩
  rw [field_eq_drop, h.field_eq, Utf8.encode_append, List.append_assoc, List.drop_left' hs, List.rightpad,
    List.length_append, hs, Nat.add_sub_add_left]

/-- A text that fills its field and the text behind it are one text. -/
theorem append (hs : HoldsText header offset k s) (ht : HoldsText header (offset + k) length t)
    (hk : (Utf8.encode s).length = k) : HoldsText header offset (k + length) (s ++ t) := by
  have hfirst : (field header offset (k + length)).take k = Utf8.encode s := by
    rw [← field_eq_take (Nat.le_add_right k length), hs.field_eq, hk, Nat.sub_self, List.replicate_zero,
      List.append_nil]
  have hsecond : (field header offset (k + length)).drop k = (Utf8.encode t).rightpad length 0 := by
    rw [← field_eq_drop, ht.1]
  refine ⟨?_, fun hzero => ?_⟩
  · rw [← List.take_append_drop k (field header offset (k + length)), hfirst, hsecond, Utf8.encode_append,
      List.rightpad, List.rightpad, List.length_append, hk, Nat.add_sub_add_left, List.append_assoc]
  · rw [Utf8.encode_append, List.mem_append] at hzero
    exact hzero.elim hs.2 ht.2

/-- A field may be cut behind its text. -/
theorem shorten (h : HoldsText header offset length s) (hk : k ≤ length) (hs : (Utf8.encode s).length ≤ k) :
    HoldsText header offset k s := by
  refine ⟨?_, h.2⟩
  rw [field_eq_take hk, h.field_eq, List.take_append, List.take_of_length_le hs, List.take_replicate, List.rightpad,
    Nat.min_eq_left (Nat.sub_le_sub_right hk _)]

end HoldsText

/-- A field that begins with a zero byte has no text. -/
theorem text_eq_empty (h : byte header offset = 0) : text header offset length = "" := by
  have hnil : (field header offset length).takeWhile (· ≠ 0) = [] := by
    rw [byte, List.getD_eq_getElem?_getD, ← List.head?_drop] at h
    rw [field]
    cases hdrop : header.drop offset with
    | nil => rw [List.take_nil, List.takeWhile_nil]
    | cons b rest =>
      obtain rfl : b = 0 := by rwa [hdrop] at h
      cases length <;> rfl
  rw [text, characters, hnil]
  simp [Utf8.decodeChars]

/-! ## Numbers -/

/-- The bytes of digits. -/
theorem encode_digits (h : ∀ c ∈ s.toList, c.isDigit = true) :
    Utf8.encode s = s.toList.map fun c => UInt8.ofNat c.toNat :=
  Utf8.encode_of_ascii fun c hc => Nat.lt_of_le_of_lt (Char.isDigit_iff_toNat.mp (h c hc)).2 (by decide)

theorem length_encode_digits (h : ∀ c ∈ s.toList, c.isDigit = true) :
    (Utf8.encode s).length = s.toList.length := by
  rw [encode_digits h, List.length_map]

theorem le_of_mem_encode_digits (h : ∀ c ∈ s.toList, c.isDigit = true) {b : UInt8} (hb : b ∈ Utf8.encode s) :
    0x30 ≤ b.toNat := by
  rw [encode_digits h, List.mem_map] at hb
  obtain ⟨c, hc, rfl⟩ := hb
  obtain ⟨hlow, hhigh⟩ := Char.isDigit_iff_toNat.mp (h c hc)
  rw [UInt8.toNat_ofNat']
  change 48 ≤ c.toNat at hlow
  change c.toNat ≤ 57 at hhigh
  omega

/-- A number is less than a power of ten, by the length of its field. -/
theorem HoldsText.ofDigitChars_lt (h : HoldsText header offset length s) (hdigits : ∀ c ∈ s.toList, c.isDigit = true) :
    Nat.ofDigitChars 10 s.toList 0 < 10 ^ length := by
  have hlt := Numeral.ofDigitChars_lt hdigits 0
  rw [Nat.zero_add, Nat.one_mul, ← length_encode_digits hdigits] at hlt
  exact Nat.lt_of_lt_of_le hlt (Nat.pow_le_pow_right (by decide) h.length_le)

/-- A number is read back from its digits, if numbers of as many digits as the field has bytes may be that great;
without any digits, it is zero. -/
theorem HoldsText.numeral?_eq {greatest : Nat} (h : HoldsText header offset length s)
    (hdigits : ∀ c ∈ s.toList, c.isDigit = true) (hgreatest : 10 ^ length ≤ greatest) :
    numeral? header offset length greatest = some (Nat.ofDigitChars 10 s.toList 0) := by
  have hle := Nat.le_trans (Nat.le_of_lt (h.ofDigitChars_lt hdigits)) hgreatest
  rw [numeral?, h.characters_eq, trimBlanks_eq_self hdigits]
  split
  next hnil => rw [hnil, Nat.ofDigitChars_nil]
  next hne => exact Numeral.read_digits hne hdigits hle

theorem HoldsText.numeral?_decimal {width n greatest : Nat}
    (h : HoldsText header offset length (Numeral.decimal width n)) (hgreatest : 10 ^ length ≤ greatest) :
    numeral? header offset length greatest = some n := by
  rw [h.numeral?_eq (fun _ => Numeral.isDigit_of_mem_decimal) hgreatest, Numeral.ofDigitChars_decimal]

/-- A number of as many digits as its field has bytes fills it. -/
theorem length_encode_decimal {width n : Nat} (hwidth : 0 < width) (h : n < 10 ^ width) :
    (Utf8.encode (Numeral.decimal width n)).length = width := by
  rw [length_encode_digits fun _ => Numeral.isDigit_of_mem_decimal, Numeral.length_decimal hwidth h]

/-! ## Digits as bytes -/

/-- Digits make a greater number if they are taken for its bytes, even if not quite half of them are left out. -/
theorem ofDigitChars_lt_ofLittleEndian (h : ∀ c ∈ s.toList, c.isDigit = true) (hne : s ≠ "")
    (hk : s.toList.length < 2 * k) : Nat.ofDigitChars 10 s.toList 0 < ofLittleEndian ((Utf8.encode s).take k) := by
  have hpos : 0 < s.toList.length := List.length_pos_iff.mpr (mt String.toList_eq_nil_iff.mp hne)
  obtain ⟨n, hn⟩ : ∃ n, min k s.toList.length = n + 1 := ⟨min k s.toList.length - 1, by omega⟩
  have hbytes : ((Utf8.encode s).take k).length = n + 1 := by rw [List.length_take, length_encode_digits h, hn]
  calc Nat.ofDigitChars 10 s.toList 0
      < (0 + 1) * 10 ^ s.toList.length := Numeral.ofDigitChars_lt h 0
    _ ≤ (0 + 1) * 10 ^ (1 + 2 * n) := Nat.mul_le_mul_left _ (Nat.pow_le_pow_right (by decide) (by omega))
    _ = 10 * (10 ^ 2) ^ n := by rw [Nat.pow_add, Nat.pow_mul, Nat.pow_one, Nat.zero_add, Nat.one_mul]
    _ ≤ 0x30 * 256 ^ n := Nat.mul_le_mul (by decide) (Nat.pow_le_pow_left (by decide) n)
    _ ≤ ofLittleEndian ((Utf8.encode s).take k) :=
      le_ofLittleEndian hbytes fun _ hb => le_of_mem_encode_digits h (List.mem_of_mem_take hb)

/-- So digits are never the bytes of the number that they make. -/
theorem eq_empty_of_ofLittleEndian_eq (h : ∀ c ∈ s.toList, c.isDigit = true) (hk : s.toList.length < 2 * k)
    (heq : ofLittleEndian ((Utf8.encode s).take k) = Nat.ofDigitChars 10 s.toList 0) : s = "" := by
  apply Decidable.byContradiction
  intro hne
  exact absurd heq (Nat.ne_of_gt (ofDigitChars_lt_ofLittleEndian h hne hk))

end Tag

end SnesSound
