import PeerRing.Proofs.Key.Bytes
/-! # Key arithmetic is arithmetic modulo 2^160

Keys are read as numbers below `size`, which is 2^160. The carry and borrow loops make sums and
differences of keys the sums and differences of their numbers modulo 2^160, and comparing the
bytes orders keys as their numbers. From that: the two walks between two keys add up to the
whole ring, the ring distance does not depend on the direction and is at most half the ring,
and the key opposite `a` is `a` plus half the ring.
-/
namespace PeerRing.Key

theorem val_zero : zero.val = 0 := rfl

/-- The difference of two keys, as an integer: the difference of their numbers modulo 2^160. -/
theorem val_sub_emod (a b : Key) :
    ((a - b).val : Int) = ((a.val : Int) - b.val) % (size : Int) := by
  have ha := a.val_lt
  have hb := b.val_lt
  rw [val_sub]
  rw [size_eq] at *
  omega

/-- The walks from `a` to `b` and back cover the ring an exact number of times. -/
theorem distance_add_distance (a b : Key) : distance a b + distance b a = zero := by
  apply ext_val
  have ha := a.val_lt
  have hb := b.val_lt
  simp only [distance, val_add, val_sub, val_zero]
  rw [size_eq] at *
  omega

theorem distance_self (a : Key) : distance a a = zero := by
  apply ext_val
  have ha := a.val_lt
  simp only [distance, val_sub, val_zero]
  rw [size_eq] at *
  omega

theorem ringDistance_comm (a b : Key) : ringDistance a b = ringDistance b a := by
  unfold ringDistance
  by_cases h1 : distance b a < distance a b
  · have h2 : ¬ distance a b < distance b a := by
      rw [lt_iff_val] at *
      omega
    rw [if_pos h1, if_neg h2]
  · by_cases h2 : distance a b < distance b a
    · rw [if_neg h1, if_pos h2]
    · rw [if_neg h1, if_neg h2]
      rw [lt_iff_val] at h1 h2
      exact ext_val (by omega)

theorem val_ringDistance_le (a b : Key) : (ringDistance a b).val ≤ size / 2 := by
  have ha := a.val_lt
  have hb := b.val_lt
  have hab := val_sub b a
  have hba := val_sub a b
  unfold ringDistance distance
  rw [size_eq] at *
  by_cases h : a - b < b - a
  · rw [if_pos h]
    rw [lt_iff_val] at h
    omega
  · rw [if_neg h]
    rw [lt_iff_val] at h
    omega

theorem midpoint_eq (a : Key) : midpoint a = a + ofNat (size / 2) := rfl

/-- Key arithmetic is arithmetic modulo 2^160, keys are ordered as their numbers, and the
laws of distances and of the opposite key follow. -/
theorem ring_arithmetic (a b : Key) :
    (a + b).val = (a.val + b.val) % size ∧
    ((a - b).val : Int) = ((a.val : Int) - b.val) % (size : Int) ∧
    (a < b ↔ a.val < b.val) ∧ (a ≤ b ↔ a.val ≤ b.val) ∧ compare a b = compare a.val b.val ∧
    distance a b + distance b a = zero ∧ distance a a = zero ∧
    ringDistance a b = ringDistance b a ∧ (ringDistance a b).val ≤ size / 2 ∧
    midpoint a = a + ofNat (size / 2) :=
  ⟨val_add a b, val_sub_emod a b, lt_iff_val a b, le_iff_val a b, compare_eq_val a b,
    distance_add_distance a b, distance_self a, ringDistance_comm a b, val_ringDistance_le a b,
    midpoint_eq a⟩

end PeerRing.Key
