/-!
# Blanks

The characters that count as blank space around a number: those with the Unicode property White_Space.

Main statement: a numeral has nothing to trim (`trimBlanks_eq_self`).
-/

namespace SnesSound

/-- First and last code point of each range of blanks. -/
def blankRanges : List (Nat × Nat) :=
  [(0x09, 0x0D), (0x20, 0x20), (0x85, 0x85), (0xA0, 0xA0), (0x1680, 0x1680), (0x2000, 0x200A), (0x2028, 0x2029),
    (0x202F, 0x202F), (0x205F, 0x205F), (0x3000, 0x3000)]

/-- Whether a character is blank. -/
def isBlank (c : Char) : Bool := blankRanges.any fun r => r.1 ≤ c.toNat && c.toNat ≤ r.2

/-- Removes blanks at both ends. -/
def trimBlanks (cs : List Char) : List Char := ((cs.dropWhile isBlank).reverse.dropWhile isBlank).reverse

theorem not_isBlank_of_isDigit {c : Char} (h : c.isDigit = true) : isBlank c = false := by
  obtain ⟨hlow, hhigh⟩ := Char.isDigit_iff_toNat.mp h
  simp [isBlank, blankRanges] at hlow hhigh ⊢
  omega

/-- There is nothing to trim around digits. -/
theorem trimBlanks_eq_self {cs : List Char} (h : ∀ c ∈ cs, c.isDigit = true) : trimBlanks cs = cs := by
  have hdrop : ∀ ds : List Char, (∀ c ∈ ds, c.isDigit = true) → ds.dropWhile isBlank = ds := by
    intro ds hds
    cases ds with
    | nil => rfl
    | cons d ds => simp [not_isBlank_of_isDigit (hds d List.mem_cons_self)]
  rw [trimBlanks, hdrop cs h, hdrop _ fun c hc => h c (List.mem_reverse.mp hc), List.reverse_reverse]

end SnesSound
