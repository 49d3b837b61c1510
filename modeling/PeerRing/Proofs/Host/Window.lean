import PeerRing.Host.Stats
import Mathlib
/-! # The success window

Read from the slot the next outcome goes to, round to the slot before it, the window is the
last 20 outcomes of the history that starts with the initial ten failures and ten successes,
oldest first: each outcome overwrites the oldest one. So the window counts the successes among
the last 20 outcomes, and the success average is that count over 20.

This holds for the first 2^64 outcomes. The running index then wraps to 0, and as 2^64 is not
a multiple of 20, the next outcome overwrites slot 0 where the oldest outcome sits in slot 16:
the window keeps an outcome older than the last 20 and loses one of them.
-/
namespace PeerRing.Host.Stats

/-- Overwriting slot `p` of a window read from `p` drops the oldest outcome and appends the new
one, read from the slot after `p`. -/
theorem rotate_set (w : List Bool) (hw : w.length = windowSize) {p : Nat} (hp : p < windowSize)
    (b : Bool) : (w.set p b).rotate ((p + 1) % windowSize) = (w.rotate p).tail ++ [b] := by
  unfold windowSize at hw hp
  apply List.ext_getElem
  · simp [hw]
  intro k hk hk'
  simp only [List.length_rotate, List.length_set, hw] at hk
  rw [List.getElem_rotate, List.getElem_set]
  simp only [List.length_set, hw, windowSize]
  by_cases hlast : k = 19
  · -- the last place of the new reading is the slot just written
    subst hlast
    rw [if_pos (by omega), List.getElem_append_right (by simp [hw])]
    simp
  · rw [if_neg (by omega), List.getElem_append_left (by simp [hw]; omega), List.getElem_tail,
      List.getElem_rotate]
    simp only [hw]
    congr 1
    omega

theorem length_window_record (s : Stats) (b : Bool) :
    (s.record b).window.length = s.window.length :=
  List.length_set

theorem index_foldl_record (os : List Bool) (s : Stats) :
    (os.foldl record s).index.toNat = (s.index.toNat + os.length) % 2 ^ 64 := by
  induction os generalizing s with
  | nil => simp
  | cons b os ih =>
    rw [List.foldl_cons, ih, record_index, UInt64.toNat_add, UInt64.toNat_one, List.length_cons]
    omega

/-- While the index has not wrapped, the window read from the slot of the `n`-th outcome is the
window read from the slot of the first one, followed by the new outcomes, less as many of its
oldest entries as outcomes came. -/
theorem rotate_foldl_record (os : List Bool) (s : Stats) (n : Nat)
    (hw : s.window.length = windowSize) (hidx : s.index.toNat = n % 2 ^ 64)
    (hn : n + os.length ≤ 2 ^ 64) :
    (os.foldl record s).window.rotate ((n + os.length) % windowSize) =
      (s.window.rotate (n % windowSize) ++ os).drop os.length := by
  induction os generalizing s n with
  | nil => simp
  | cons b os ih =>
    simp only [List.length_cons] at hn
    have hslot : s.index.toNat % windowSize = n % windowSize := by
      rw [hidx, Nat.mod_eq_of_lt (show n < 2 ^ 64 by omega)]
    have hstep : (s.record b).window.rotate ((n + 1) % windowSize) =
        (s.window.rotate (n % windowSize)).tail ++ [b] := by
      have hnext : (n + 1) % windowSize = (n % windowSize + 1) % windowSize := by
        unfold windowSize
        omega
      show (s.window.set (s.index.toNat % windowSize) b).rotate ((n + 1) % windowSize) = _
      rw [hslot, hnext, rotate_set s.window hw (Nat.mod_lt _ (by decide)) b]
    have hidx' : (s.record b).index.toNat = (n + 1) % 2 ^ 64 := by
      rw [record_index, UInt64.toNat_add, UInt64.toNat_one, hidx]
      omega
    have hne : s.window.rotate (n % windowSize) ≠ [] := by
      rw [← List.length_pos_iff, List.length_rotate, hw]
      decide
    rw [List.foldl_cons, List.length_cons, show n + (os.length + 1) = n + 1 + os.length by omega,
      ih (s.record b) (n + 1) ((length_window_record s b).trans hw) hidx' (by omega), hstep,
      ← List.drop_tail, List.tail_append_of_ne_nil hne, List.append_assoc, List.singleton_append]

theorem length_initial_window : initial.window.length = windowSize := by
  decide

/-- The successes among the last 20 entries of the history that starts with the initial window
and goes on with the outcomes `os`. -/
def lastSuccesses (os : List Bool) : Nat := ((initial.window ++ os).rtake windowSize).count true

/-- For the first 2^64 outcomes `os` recorded on a fresh record, the window holds as many
successes as the last 20 entries of the history, and the success average is that count, at most
20, over 20. -/
theorem successes_count_last_outcomes (os : List Bool) (hn : os.length ≤ 2 ^ 64) :
    (os.foldl record initial).successes = lastSuccesses os ∧ lastSuccesses os ≤ windowSize ∧
      (os.foldl record initial).successAvg = (lastSuccesses os).toFloat32 / 20 := by
  have hrot := rotate_foldl_record os initial 0 length_initial_window rfl (by omega)
  rw [Nat.zero_add, Nat.zero_mod, List.rotate_zero] at hrot
  have hlast : (initial.window ++ os).rtake windowSize = (initial.window ++ os).drop os.length := by
    rw [List.rtake, List.length_append, length_initial_window, Nat.add_sub_cancel_left]
  -- the window is a rotation of the last outcomes, so it counts the same successes
  have hcount : (os.foldl record initial).successes = lastSuccesses os := by
    rw [successes, ← (List.rotate_perm _ (os.length % windowSize)).count_eq, hrot, lastSuccesses,
      hlast]
  refine ⟨hcount, ?_, by rw [successAvg, hcount]⟩
  calc lastSuccesses os ≤ ((initial.window ++ os).rtake windowSize).length := List.count_le_length
    _ = windowSize := by simp [List.rtake, length_initial_window]

theorem successes_of_three_outcomes :
    [true, false, false].length ≤ 2 ^ 64 ∧
      ([true, false, false].foldl record initial).successes = lastSuccesses [true, false, false] ∧
      lastSuccesses [true, false, false] ≤ windowSize ∧
      ([true, false, false].foldl record initial).successAvg =
        (lastSuccesses [true, false, false]).toFloat32 / 20 :=
  ⟨by decide, successes_count_last_outcomes [true, false, false] (by decide)⟩

theorem successes_record (s : Stats) (b : Bool) :
    (s.record b).successes = (s.window.set (s.index.toNat % windowSize) b).count true :=
  rfl

/-- 2^64 − 20 failures, then a success and 19 failures: 2^64 outcomes. -/
def wrapPrefix : List Bool := List.replicate (2 ^ 64 - 20) false ++ (true :: List.replicate 19 false)

/-- `wrapPrefix` and one more failure. -/
def wrapOutcomes : List Bool := wrapPrefix ++ [false]

/-- Past the wrap of the index the window no longer follows the last 20 outcomes: after
`wrapOutcomes` they hold no success, but the window still holds the success recorded 21
outcomes before the end, which sat in the slot the wrapped index skips. -/
theorem window_keeps_success_past_wrap :
    (wrapOutcomes.foldl record initial).successes = 1 ∧ lastSuccesses wrapOutcomes = 0 := by
  have hfill : (initial.window ++ List.replicate (2 ^ 64 - 20) false).length = 2 ^ 64 := by
    rw [List.length_append, length_initial_window, List.length_replicate]
    norm_num [windowSize]
  have hpre : wrapPrefix.length = 2 ^ 64 := by
    rw [wrapPrefix, List.length_append, List.length_replicate, List.length_cons,
      List.length_replicate]
    norm_num
  obtain ⟨s, hs⟩ : ∃ s, wrapPrefix.foldl record initial = s := ⟨_, rfl⟩
  -- after the first 2^64 outcomes the window, read from slot 16, is the last 20 of them
  have hrot : s.window.rotate 16 = true :: List.replicate 19 false := by
    have hlast : (initial.window ++ wrapPrefix).drop (2 ^ 64) = true :: List.replicate 19 false := by
      rw [wrapPrefix, ← List.append_assoc, List.drop_left' hfill]
    have h := rotate_foldl_record wrapPrefix initial 0 length_initial_window rfl (by omega)
    rw [Nat.zero_add, hpre, Nat.zero_mod, List.rotate_zero, hlast, hs,
      show 2 ^ 64 % windowSize = 16 by norm_num [windowSize]] at h
    exact h
  have hlen : s.window.length = windowSize := by
    have h := (List.rotate_perm s.window 16).length_eq
    rw [hrot] at h
    rw [← h]
    rfl
  have hwin : s.window = (true :: List.replicate 19 false).rotate 4 := by
    rw [← hrot, List.rotate_rotate]
    exact (hlen ▸ List.rotate_length s.window : s.window.rotate windowSize = s.window).symm
  have hidx : s.index.toNat = 0 := by
    rw [← hs, index_foldl_record, hpre]
    simp [initial]
  refine ⟨?_, ?_⟩
  · -- the last outcome goes to slot 0, not to slot 16 where the success sits
    rw [wrapOutcomes, List.foldl_append, hs, List.foldl_cons, List.foldl_nil, successes_record,
      hidx, hwin]
    decide
  · have hsplit : initial.window ++ wrapOutcomes = (initial.window ++ List.replicate (2 ^ 64 - 20)
        false) ++ true :: (List.replicate 19 false ++ [false]) := by
      simp only [wrapOutcomes, wrapPrefix, List.append_assoc, List.cons_append]
    rw [lastSuccesses, hsplit, List.rtake, List.length_append, hfill, List.drop_append,
      List.drop_eq_nil_of_le (by rw [hfill]; simp [windowSize]), hfill]
    simp [windowSize]

end PeerRing.Host.Stats
