import PeerRing.Proofs.Key.Distance
import PeerRing.Overlay.Leafset
import Mathlib
/-! # The nearest candidate

Lookups prefer candidates by rank: ring distance to the key, then lying clockwise of the key,
then the smaller key. Ranks are compared lexicographically, a strict total order, so the scan of
`firstBest` ends at a candidate that no other candidate ranks below. On keys the order is the
one of `NearerTo`: nearer by ring distance, a tie going to the key clockwise of the target.
-/
namespace PeerRing.Overlay

open Key

/-- Key `a` is nearer to `k` than key `b`: by ring distance, and on a tie when `a` lies
clockwise of `k` and `b` does not. -/
def NearerTo (k a b : Key) : Prop :=
  ringDistance a k < ringDistance b k ∨
    (ringDistance a k = ringDistance b k ∧ distance k a ≤ distance a k ∧
      ¬ distance k b ≤ distance b k)

instance (k a b : Key) : Decidable (NearerTo k a b) :=
  inferInstanceAs (Decidable (_ ∨ _))

theorem NearerTo.asymm {k a b : Key} (hab : NearerTo k a b) : ¬ NearerTo k b a := by
  unfold NearerTo at *
  simp only [lt_iff_val] at *
  rintro (hlt | ⟨heq, hb, -⟩)
  · rcases hab with hlt' | ⟨heq', -, -⟩
    · omega
    · rw [heq'] at hlt
      exact Nat.lt_irrefl _ hlt
  · rcases hab with hlt' | ⟨-, -, hb'⟩
    · rw [heq] at hlt'
      exact Nat.lt_irrefl _ hlt'
    · exact hb' hb

theorem nearerTo_target {k b : Key} (hb : b ≠ k) : NearerTo k k b := by
  have hne : ringDistance b k ≠ zero := fun h => hb (ringDistance_eq_zero_iff.mp h)
  have hpos : (ringDistance b k).val ≠ 0 := fun h => hne (ext_val (h.trans val_zero.symm))
  refine Or.inl ?_
  rw [ringDistance_self, lt_iff_val, val_zero]
  exact Nat.pos_of_ne_zero hpos

namespace Leafset

theorem rankLt_iff (a b : Nat × Nat × Nat) :
    rankLt a b ↔ a.1 < b.1 ∨ (a.1 = b.1 ∧ (a.2.1 < b.2.1 ∨ (a.2.1 = b.2.1 ∧ a.2.2 < b.2.2))) := by
  simp [rankLt]

theorem rankLt_irrefl (a : Nat × Nat × Nat) : rankLt a a = false := by
  simp [rankLt]

theorem rankLt_trans {a b c : Nat × Nat × Nat} (hab : rankLt a b) (hbc : rankLt b c) :
    rankLt a c := by
  rw [rankLt_iff] at *
  omega

theorem rankLt_total {a b : Nat × Nat × Nat} (h : a ≠ b) : rankLt a b ∨ rankLt b a := by
  obtain ⟨a1, a2, a3⟩ := a
  obtain ⟨b1, b2, b3⟩ := b
  have hne : ¬ (a1 = b1 ∧ a2 = b2 ∧ a3 = b3) := fun ⟨h1, h2, h3⟩ => h (by rw [h1, h2, h3])
  rw [rankLt_iff, rankLt_iff]
  dsimp only
  omega

theorem rankLt_eq_false_trans {a b c : Nat × Nat × Nat} (hab : rankLt a b = false)
    (hbc : rankLt b c = false) : rankLt a c = false := by
  rw [Bool.eq_false_iff, ne_eq, rankLt_iff] at *
  omega

/-- The step of the scan in `firstBest`. -/
def better (rk : Key → Nat × Nat × Nat) (best c : Key × Host.Id) : Key × Host.Id :=
  if rankLt (rk c.1) (rk best.1) then c else best

theorem better_mem (rk : Key → Nat × Nat × Nat) (best c : Key × Host.Id) :
    better rk best c = best ∨ better rk best c = c := by
  unfold better
  split
  · exact Or.inr rfl
  · exact Or.inl rfl

theorem rankLt_better_left (rk : Key → Nat × Nat × Nat) (best c : Key × Host.Id) :
    rankLt (rk best.1) (rk (better rk best c).1) = false := by
  unfold better
  split
  next hlt =>
    rw [Bool.eq_false_iff]
    intro hgt
    have := rankLt_trans hlt hgt
    rw [rankLt_irrefl] at this
    exact Bool.noConfusion this
  next => exact rankLt_irrefl _

theorem rankLt_better_right (rk : Key → Nat × Nat × Nat) (best c : Key × Host.Id) :
    rankLt (rk c.1) (rk (better rk best c).1) = false := by
  unfold better
  split
  next => exact rankLt_irrefl _
  next hge => exact Bool.eq_false_iff.mpr hge

/-- The scan keeps a candidate it has seen, and none of the candidates it has seen ranks below
the one it keeps. -/
theorem foldl_better (rk : Key → Nat × Nat × Nat) (cs : List (Key × Host.Id))
    (best : Key × Host.Id) :
    cs.foldl (better rk) best ∈ best :: cs ∧
      ∀ c ∈ best :: cs, rankLt (rk c.1) (rk (cs.foldl (better rk) best).1) = false := by
  induction cs generalizing best with
  | nil =>
    refine ⟨List.mem_singleton_self best, fun c hc => ?_⟩
    rw [List.mem_singleton.mp hc]
    exact rankLt_irrefl _
  | cons c cs ih =>
    obtain ⟨hmem, hmin⟩ := ih (better rk best c)
    have hkept := hmin _ List.mem_cons_self
    rw [List.foldl_cons]
    refine ⟨?_, fun d hd => ?_⟩
    · rcases List.mem_cons.mp hmem with he | hm
      · rcases better_mem rk best c with hb | hb <;> rw [he, hb] <;> simp
      · exact List.mem_cons_of_mem _ (List.mem_cons_of_mem _ hm)
    rcases List.mem_cons.mp hd with rfl | hd
    · exact rankLt_eq_false_trans (rankLt_better_left rk d c) hkept
    rcases List.mem_cons.mp hd with rfl | hd
    · exact rankLt_eq_false_trans (rankLt_better_right rk best d) hkept
    · exact hmin d (List.mem_cons_of_mem _ hd)

/-- `firstBest` answers a candidate that no candidate ranks below. -/
theorem firstBest_min (rk : Key → Nat × Nat × Nat) (first : Key × Host.Id)
    (rest : List (Key × Host.Id)) :
    ∃ b ∈ first :: rest, firstBest rk first rest = b.2 ∧
      ∀ c ∈ first :: rest, rankLt (rk c.1) (rk b.1) = false :=
  ⟨_, (foldl_better rk rest first).1, rfl, (foldl_better rk rest first).2⟩

/-- On different keys, rank order is `NearerTo`. -/
theorem rankLt_rank_iff {k a b : Key} (hab : a ≠ b) : rankLt (rank k a) (rank k b) ↔ NearerTo k a b := by
  have hside : ¬ ((ringDistance a k).val = (ringDistance b k).val ∧
      (distance k a ≤ distance a k ↔ distance k b ≤ distance b k)) :=
    fun ⟨hd, hs⟩ => hab (eq_of_ringDistance_eq (ext_val hd) hs)
  rw [rankLt_iff]
  unfold rank NearerTo
  simp only [lt_iff_val]
  constructor
  · rintro (hlt | ⟨heq, hlt | ⟨hf, -⟩⟩)
    · exact Or.inl hlt
    · refine Or.inr ⟨ext_val heq, ?_⟩
      split at hlt <;> split at hlt <;> simp_all
    · refine absurd ⟨heq, ?_⟩ hside
      split at hf <;> split at hf <;> simp_all
  · rintro (hlt | ⟨heq, ha, hb⟩)
    · exact Or.inl hlt
    · refine Or.inr ⟨congrArg val heq, Or.inl ?_⟩
      rw [if_pos ha, if_neg hb]
      exact Nat.zero_lt_one

theorem rank_injective (k : Key) : Function.Injective (rank k) := fun _ _ h =>
  ext_val (congrArg (fun r : Nat × Nat × Nat => r.2.2) h)

/-- When no two candidates share a key, `firstBest` answers the candidate nearer to `k` than
every other one. -/
theorem firstBest_nearer (k : Key) (first : Key × Host.Id) (rest : List (Key × Host.Id))
    (hkeys : ((first :: rest).map Prod.fst).Nodup) :
    ∃ b ∈ first :: rest, firstBest (rank k) first rest = b.2 ∧
      ∀ c ∈ first :: rest, c ≠ b → NearerTo k b.1 c.1 := by
  obtain ⟨b, hb, hfb, hmin⟩ := firstBest_min (rank k) first rest
  refine ⟨b, hb, hfb, fun c hc hne => ?_⟩
  have hkey : b.1 ≠ c.1 := fun he => hne ((List.inj_on_of_nodup_map hkeys hc hb he.symm))
  rcases rankLt_total (fun he => hkey (rank_injective k he)) with hlt | hlt
  · exact (rankLt_rank_iff hkey).mp hlt
  · rw [hmin c hc] at hlt
    exact Bool.noConfusion hlt

end Leafset

end PeerRing.Overlay
