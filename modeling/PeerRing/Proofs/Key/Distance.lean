import PeerRing.Proofs.Key.Modular
/-! # Clockwise walks

The clockwise distance from a fixed key determines the other end of the walk, in either
direction, and for two different keys the two walks between them add up to the whole ring.
From this, a key lies clockwise of another exactly when its clockwise distance is at most half
the ring, and the ring distance to a key is its distance along that side. Walks compose modulo
the ring, and a key lies on the clockwise arc from `l` to `r` exactly when the walk from `l`
reaches it no later than `r`, or the arc is the whole ring.
-/
namespace PeerRing.Key

theorem val_distance (a b : Key) : (distance a b).val = (size - a.val + b.val) % size :=
  val_sub b a

theorem distance_left_cancel {a b c : Key} (h : distance a b = distance a c) : b = c := by
  apply ext_val
  have hb := b.val_lt
  have hc := c.val_lt
  have ha := a.val_lt
  have hv := congrArg val h
  rw [val_distance, val_distance] at hv
  rw [size_eq] at *
  omega

theorem distance_right_cancel {a b c : Key} (h : distance b a = distance c a) : b = c := by
  apply ext_val
  have hb := b.val_lt
  have hc := c.val_lt
  have ha := a.val_lt
  have hv := congrArg val h
  rw [val_distance, val_distance] at hv
  rw [size_eq] at *
  omega

theorem val_distance_add_distance {a b : Key} (h : a ≠ b) :
    (distance a b).val + (distance b a).val = size := by
  have ha := a.val_lt
  have hb := b.val_lt
  have hne : a.val ≠ b.val := fun he => h (ext_val he)
  rw [val_distance, val_distance]
  rw [size_eq] at *
  omega

theorem distance_eq_zero_iff {a b : Key} : distance a b = zero ↔ a = b := by
  constructor
  · intro h
    exact (distance_left_cancel (h.trans (distance_self a).symm)).symm
  · rintro rfl
    exact distance_self a

/-- The ring distance from `a` to `k` is the clockwise walk from `k` when `a` lies clockwise of
`k`. -/
theorem ringDistance_of_clockwise {a k : Key} (h : distance k a ≤ distance a k) :
    ringDistance a k = distance k a := by
  unfold ringDistance
  by_cases hlt : distance k a < distance a k
  · rw [if_pos hlt]
  · rw [if_neg hlt]
    rw [lt_iff_val] at hlt
    rw [le_iff_val] at h
    exact ext_val (by omega)

theorem ringDistance_of_counterclockwise {a k : Key} (h : ¬ distance k a ≤ distance a k) :
    ringDistance a k = distance a k := by
  unfold ringDistance
  have hlt : ¬ distance k a < distance a k := by
    rw [le_iff_val] at h
    rw [lt_iff_val]
    omega
  rw [if_neg hlt]

/-- The ring distance from `a` to `k` is the clockwise walk from `a` when that walk is the
shorter one. -/
theorem ringDistance_of_le {a k : Key} (h : distance a k ≤ distance k a) :
    ringDistance a k = distance a k := by
  unfold ringDistance
  rw [if_neg]
  rw [lt_iff_val]
  rw [le_iff_val] at h
  exact Nat.not_lt.mpr h

/-- The ring distance is never longer than the clockwise walk. -/
theorem val_ringDistance_le_distance (a k : Key) : (ringDistance a k).val ≤ (distance a k).val := by
  unfold ringDistance
  split
  next hlt => exact Nat.le_of_lt ((lt_iff_val _ _).mp hlt)
  next => exact Nat.le_refl _

/-- Two keys at the same ring distance from `k` and on the same side of it are equal. -/
theorem eq_of_ringDistance_eq {k a b : Key} (hd : ringDistance a k = ringDistance b k)
    (hs : (distance k a ≤ distance a k ↔ distance k b ≤ distance b k)) : a = b := by
  by_cases ha : distance k a ≤ distance a k
  · have hb := hs.mp ha
    rw [ringDistance_of_clockwise ha, ringDistance_of_clockwise hb] at hd
    exact distance_left_cancel hd
  · have hb : ¬ distance k b ≤ distance b k := fun hb => ha (hs.mpr hb)
    rw [ringDistance_of_counterclockwise ha, ringDistance_of_counterclockwise hb] at hd
    exact distance_right_cancel hd

theorem ringDistance_self (a : Key) : ringDistance a a = zero := by
  rw [ringDistance_of_clockwise ((le_iff_val _ _).mpr (Nat.le_refl _))]
  exact distance_self a

theorem ringDistance_eq_zero_iff {a k : Key} : ringDistance a k = zero ↔ a = k := by
  constructor
  · intro h
    by_cases hs : distance k a ≤ distance a k
    · rw [ringDistance_of_clockwise hs] at h
      exact (distance_eq_zero_iff.mp h).symm
    · rw [ringDistance_of_counterclockwise hs] at h
      exact distance_eq_zero_iff.mp h
  · rintro rfl
    exact ringDistance_self a

/-- Walking from `a` to `c` by way of `b` covers the clockwise distance from `a` to `c`, up to
whole turns of the ring. -/
theorem val_distance_trans (a b c : Key) :
    (distance a c).val = ((distance a b).val + (distance b c).val) % size := by
  have ha := a.val_lt
  have hb := b.val_lt
  have hc := c.val_lt
  rw [val_distance, val_distance, val_distance]
  rw [size_eq] at *
  omega

/-- A key lies on the clockwise arc from `l` to `r` when that arc is the whole ring or the walk
from `l` reaches the key no later than `r`. -/
theorem between_iff {t l r : Key} :
    t.between l r = true ↔ l = r ∨ distance l t ≤ distance l r := by
  have ht := t.val_lt
  have hl := l.val_lt
  have hr := r.val_lt
  have hval : ∀ a b : Key, a = b ↔ a.val = b.val := fun a b => ⟨congrArg val, ext_val⟩
  unfold between
  simp only [hval, lt_iff_val, le_iff_val, val_distance]
  rw [size_eq] at *
  split
  next hend =>
    simp only [true_iff]
    omega
  next hend =>
    split
    next hlr =>
      simp only [decide_eq_true_eq]
      omega
    next hlr =>
      -- the arc from `l` to `r` wraps past zero
      simp only [Bool.not_eq_true', decide_eq_false_iff_not, not_and, Nat.not_lt]
      omega

theorem between_left (l r : Key) : l.between l r = true := by
  refine between_iff.mpr (Or.inr ((le_iff_val _ _).mpr ?_))
  rw [distance_self, val_zero]
  exact Nat.zero_le _

theorem between_right (l r : Key) : r.between l r = true :=
  between_iff.mpr (Or.inr ((le_iff_val _ _).mpr (Nat.le_refl _)))

theorem between_whole_ring (t l : Key) : t.between l l = true :=
  between_iff.mpr (Or.inl rfl)

/-- `between` is the clockwise arc from `l` to `r`: a key lies on it exactly when the walk from
`l` reaches it no later than the walk to `r`, unless `l = r`, when the arc is the whole ring.
Both ends lie on it. -/
theorem between_clockwise_arc (t l r : Key) :
    (t.between l r = true ↔ l = r ∨ (distance l t).val ≤ (distance l r).val) ∧
      l.between l r = true ∧ r.between l r = true ∧ t.between l l = true := by
  refine ⟨?_, between_left l r, between_right l r, between_whole_ring t l⟩
  rw [between_iff, le_iff_val]

end PeerRing.Key
