import SnesSound.Index

/-!
# Rings of samples

A voice interpolates between the last four samples it has decoded and predicts the next one from the last two of them;
the echo filter works on the last eight samples of the delay line. Such a history is a ring: a new sample takes the
place of the oldest one, and the place after it is then the oldest. A new note starts writing at the front of its ring
but does not erase it.

Main statement: new samples drop as many of the oldest ones (`toList_foldl_push`).
-/

namespace SnesSound

/-- The last `n` samples. -/
structure Ring (n : Nat) where
  cells : Vector Int n
  /-- Where the next sample goes, which is where the oldest one is. -/
  next : Fin n
  deriving DecidableEq

namespace Ring

variable {n : Nat}

/-- A ring of zeros. -/
def zeros (next : Fin n) : Ring n := ⟨Vector.replicate n 0, next⟩

/-- The place that is `k` places after the front. -/
def place (r : Ring n) (k : Nat) : Fin n := ⟨k % n, Nat.mod_lt _ r.next.pos⟩

/-- The sample that is `age` after the oldest one. -/
def get (r : Ring n) (age : Nat) : Int := r.cells.get (r.place (r.next + age))

/-- The samples, oldest first. -/
def toList (r : Ring n) : List Int := (List.range n).map r.get

/-- The last sample. -/
def newest (r : Ring n) : Int := r.get (n - 1)

/-- The sample before the last one. -/
def second (r : Ring n) : Int := r.get (n - 2)

/-- Puts a new sample in place of the oldest one. -/
def push (r : Ring n) (x : Int) : Ring n := ⟨r.cells.set r.next x r.next.isLt, r.place (r.next + 1)⟩

/-- Goes back to the front of the ring, without a change to the samples in it. -/
def rewind (r : Ring n) : Ring n := { r with next := r.place 0 }

/-- Going on by less than a whole round does not lead back. -/
theorem place_ne (r : Ring n) {k : Nat} (h0 : 0 < k) (hk : k < n) : (r.place (r.next + k)).val ≠ r.next.val := by
  have hlt := r.next.isLt
  change (r.next.val + k) % n ≠ r.next.val
  by_cases h : r.next.val + k < n
  · rw [Nat.mod_eq_of_lt h]
    omega
  · rw [Nat.mod_eq_sub_mod (by omega), Nat.mod_eq_of_lt (by omega)]
    omega

/-- Every sample but the last one becomes one older. -/
theorem get_push_of_lt (r : Ring n) (x : Int) {age : Nat} (h : age + 1 < n) : (r.push x).get age = r.get (age + 1) := by
  have hplace : (r.push x).place ((r.push x).next + age) = r.place (r.next + (age + 1)) := by
    apply Fin.ext
    simp only [place, push, Nat.mod_add_mod]
    congr 1
    omega
  have hne := r.place_ne (Nat.succ_pos age) h
  rw [get, get, hplace, get_eq_getElem, get_eq_getElem]
  exact Vector.getElem_set_ne r.next.isLt _ hne.symm

@[simp] theorem newest_push (r : Ring n) (x : Int) : (r.push x).newest = x := by
  have hlt := r.next.isLt
  have hplace : (r.push x).place ((r.push x).next + (n - 1)) = r.next := by
    apply Fin.ext
    simp only [place, push, Nat.mod_add_mod]
    rw [show r.next.val + 1 + (n - 1) = r.next.val + n by omega, Nat.add_mod_right, Nat.mod_eq_of_lt hlt]
  rw [newest, get, hplace, get_eq_getElem]
  exact Vector.getElem_set_self r.next.isLt

/-- The last sample becomes the one before the last. -/
theorem second_push (r : Ring n) (x : Int) (h : 1 < n) : (r.push x).second = r.newest := by
  rw [second, newest, get_push_of_lt r x (by omega), show n - 2 + 1 = n - 1 by omega]

@[simp] theorem length_toList (r : Ring n) : r.toList.length = n := by simp [toList]

theorem get_mem_toList (r : Ring n) {age : Nat} (h : age < n) : r.get age ∈ r.toList :=
  List.mem_map_of_mem (List.mem_range.mpr h)

/-- A new sample drops the oldest one. -/
theorem toList_push (r : Ring n) (x : Int) : (r.push x).toList = r.toList.tail ++ [x] := by
  have hn := r.next.pos
  apply List.ext_getElem
  · simp [toList]
    omega
  · intro i h1 h2
    have hi : i < n := by simpa [toList] using h1
    by_cases hlast : i + 1 < n
    · rw [List.getElem_append_left (by simp [toList]; omega)]
      simp [toList, get_push_of_lt r x hlast]
    · have he : i = n - 1 := by omega
      subst he
      have hx := newest_push r x
      simp only [newest] at hx
      simp [toList, hx]

/-- New samples drop as many of the oldest ones. -/
theorem toList_foldl_push (r : Ring n) (l : List Int) : (l.foldl push r).toList = (r.toList ++ l).drop l.length := by
  have hn := r.next.pos
  induction l generalizing r with
  | nil => simp
  | cons x l ih =>
    obtain ⟨y, ys, hy⟩ := List.exists_cons_of_length_pos (l := r.toList) (by simpa using hn)
    rw [List.foldl_cons, ih, toList_push, hy]
    simp

end Ring

end SnesSound
