/-!
# Indices

Timers, ports, voices and register columns are numbered by `Fin 3`, `Fin 4`, `Fin 8` and `Fin 16`. None of these
ranges is empty, so numerals denote their elements.
-/

namespace SnesSound

instance neZero_three : @NeZero Nat Zero.ofOfNat0 3 := ⟨by decide⟩

instance neZero_four : @NeZero Nat Zero.ofOfNat0 4 := ⟨by decide⟩

instance neZero_eight : @NeZero Nat Zero.ofOfNat0 8 := ⟨by decide⟩

instance neZero_sixteen : @NeZero Nat Zero.ofOfNat0 16 := ⟨by decide⟩

theorem get_eq_getElem {α : Type} {n : Nat} (v : Vector α n) (i : Fin n) : v.get i = v[i] := rfl

end SnesSound
