import Mathlib.Algebra.GroupWithZero.Nat
import Mathlib.Data.List.Nodup

/-!
# Words one after another

Counters that give numbers to calls and users are 64-bit words.  From any word on, as many numbers
are distinct as there are words.
-/

namespace TypedRoutes

/-- So many words one after another, from a first one on. -/
def wordsFrom (first : UInt64) (n : Nat) : List UInt64 :=
  (List.range n).map fun i => first + .ofNat i

theorem wordsFrom_succ (first : UInt64) (n : Nat) :
    wordsFrom first (n + 1) = wordsFrom first n ++ [first + .ofNat n] := by
  rw [wordsFrom, List.range_succ, List.map_append, List.map_singleton, wordsFrom]

theorem mem_wordsFrom {first word : UInt64} {n : Nat} :
    word ∈ wordsFrom first n ↔ ∃ i, i < n ∧ first + .ofNat i = word := by
  simp only [wordsFrom, List.mem_map, List.mem_range]

theorem nodup_wordsFrom (first : UInt64) {n : Nat} (h : n ≤ 2 ^ 64) :
    (wordsFrom first n).Nodup := by
  refine List.nodup_range.map_on fun i hi j hj hij => ?_
  rw [List.mem_range] at hi hj
  have hmod : i % 2 ^ 64 = j % 2 ^ 64 := by
    simpa [← UInt64.toNat_inj] using (UInt64.add_right_inj first).mp hij
  rwa [Nat.mod_eq_of_lt (by omega), Nat.mod_eq_of_lt (by omega)] at hmod

end TypedRoutes
