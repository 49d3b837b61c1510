import Mathlib
import PeerRing.Daemon.Transport
/-! # Acknowledgements reach their own sends

Properties of every interleaving of a transport's sends with acknowledgements and timers. Send
`i` holds number `i + 1`, wrapped to 64 bits, so the numbers are distinct as long as at most
2^64 of them have been handed out, and repeat after. Whatever the number of sends, the table
only holds entries of sends that registered their number and still wait on it, and a send
succeeds only after an acknowledgement of its own number found its entry. While the numbers are
distinct the table holds exactly those entries: an entry leaves it only through an
acknowledgement of its number or through its own send's removal, once, and the other removals
find nothing.
-/
namespace PeerRing.Daemon

namespace Phase

/-- The transition table read backwards: each step a send can take. -/
theorem after_eq_some {acked : Bool} {q p : Phase} {a : Action} (h : q.after acked a = some p) :
    (q = .encoded ∧ a = .register ∧ p = .registered) ∨
    (∃ ok, q = .unacked ∧ a = .transmit ok ∧ p = .done ok) ∨
    (∃ ok, q = .registered ∧ a = .transmit ok ∧ p = if ok then .waiting else .clearing) ∨
    (q = .waiting ∧ a = .wake ∧ p = if acked then .done true else .clearing) ∨
    (q = .clearing ∧ a = .clear ∧ p = .done false) := by
  cases q <;> cases a <;> simp_all [after]

theorem after_register {acked : Bool} {q p : Phase} (h : q.after acked .register = some p) :
    q = .encoded ∧ p = .registered := by
  cases q <;> simp_all [after]

theorem after_clear {acked : Bool} {q p : Phase} (h : q.after acked .clear = some p) :
    q = .clearing ∧ p = .done false := by
  cases q <;> simp_all [after]

/-- A send begins encoded, or already failed: every kind requests an acknowledgement, so none
skips the table. -/
theorem start_eq (seq : UInt64) (m : Message) :
    start seq m = .encoded ∨ start seq m = .done false := by
  have hk : m.kind.requestsAck = true := by cases m.kind <;> rfl
  unfold start
  split
  · exact .inr rfl
  · simp [hk]

end Phase

namespace Send

variable {x : Send} {a : Action} {p : Phase}

/-- A send between registering its number and removing its entry. -/
def Registered (x : Send) : Prop :=
  x.phase = .registered ∨ x.phase = .waiting ∨ x.phase = .clearing

/-- A send that waits on its entry: registered and not yet acknowledged. -/
def Holds (x : Send) : Prop := x.Registered ∧ x.acked = false

/-- A send that has let go of its entry for good: acknowledged after registering, or returned. -/
def Released (x : Send) : Prop := (x.Registered ∧ x.acked = true) ∨ ∃ ok, x.phase = .done ok

/-- What holds of each send on its own: every kind requests an acknowledgement, only a
registered send can have been acknowledged, and a send succeeds only once acknowledged. -/
structure Sane (x : Send) : Prop where
  not_unacked : x.phase ≠ .unacked
  fresh : x.phase = .encoded → x.acked = false
  ok_acked : x.phase = .done true → x.acked = true

theorem Registered.phase_ne_encoded (hx : x.Registered) : x.phase ≠ .encoded := by
  rcases hx with h | h | h <;> simp [h]

theorem Registered.phase_ne_done (hx : x.Registered) (ok : Bool) : x.phase ≠ .done ok := by
  rcases hx with h | h | h <;> simp [h]

theorem Released.not_holds (hx : x.Released) : ¬ x.Holds := by
  rintro ⟨hr, hna⟩
  rcases hx with ⟨-, ha⟩ | ⟨ok, hd⟩
  · simp [ha] at hna
  · rcases hr with h | h | h <;> simp [hd] at h

theorem Released.ack (hx : x.Released) : ({ x with acked := true } : Send).Released := by
  rcases hx with ⟨hr, -⟩ | ⟨ok, h⟩
  · exact .inl ⟨hr, rfl⟩
  · exact .inr ⟨ok, h⟩

theorem Sane.after (hx : x.Sane) (hp : x.phase.after x.acked a = some p) :
    ({ x with phase := p } : Send).Sane := by
  rcases Phase.after_eq_some hp with
    ⟨-, -, rfl⟩ | ⟨ok, hq, -, rfl⟩ | ⟨ok, -, -, rfl⟩ | ⟨-, -, rfl⟩ | ⟨-, -, rfl⟩
  · exact ⟨by simp, by simp, by simp⟩
  · exact absurd hq hx.not_unacked
  · constructor <;> cases ok <;> simp
  · -- the wait ends in success only when the acknowledgement came
    constructor <;> cases h : x.acked <;> simp
  · exact ⟨by simp, by simp, by simp⟩

theorem Holds.after (hx : x.Holds) (hp : x.phase.after x.acked a = some p) (ha : a ≠ .clear) :
    ({ x with phase := p } : Send).Holds := by
  obtain ⟨hr, hna⟩ := hx
  refine ⟨?_, hna⟩
  rcases Phase.after_eq_some hp with
    ⟨hq, -, -⟩ | ⟨ok, hq, -, -⟩ | ⟨ok, -, -, rfl⟩ | ⟨-, -, rfl⟩ | ⟨-, rfl, -⟩
  · rcases hr with h | h | h <;> simp [hq] at h
  · rcases hr with h | h | h <;> simp [hq] at h
  · cases ok <;> simp [Registered]
  · simp [Registered, hna]
  · exact absurd rfl ha

/-- A send waits on its entry after a step only if it did before, or the step registered it. -/
theorem holds_of_after (hy : ({ x with phase := p } : Send).Holds)
    (hp : x.phase.after x.acked a = some p) : a = .register ∨ x.Holds := by
  obtain ⟨hr, hna⟩ := hy
  rcases Phase.after_eq_some hp with
    ⟨-, rfl, -⟩ | ⟨ok, -, -, rfl⟩ | ⟨ok, hq, -, -⟩ | ⟨hq, -, -⟩ | ⟨-, -, rfl⟩
  · exact .inl rfl
  · rcases hr with h | h | h <;> simp at h
  · exact .inr ⟨.inl hq, hna⟩
  · exact .inr ⟨.inr (.inl hq), hna⟩
  · rcases hr with h | h | h <;> simp at h

theorem Released.after (hx : x.Released) (hp : x.phase.after x.acked a = some p) :
    ({ x with phase := p } : Send).Released := by
  rcases Phase.after_eq_some hp with
    ⟨hq, -, -⟩ | ⟨ok, -, -, rfl⟩ | ⟨ok, hq, -, rfl⟩ | ⟨hq, -, rfl⟩ | ⟨-, -, rfl⟩
  · rcases hx with ⟨h | h | h, -⟩ | ⟨ok, h⟩ <;> simp [hq] at h
  · exact .inr ⟨ok, rfl⟩
  · -- a registered send that let go of its entry had been acknowledged
    rcases hx with ⟨-, ha⟩ | ⟨ok', h⟩
    · cases ok <;> simp [Released, Registered, ha]
    · simp [hq] at h
  · rcases hx with ⟨-, ha⟩ | ⟨ok', h⟩
    · simp [Released, ha]
    · simp [hq] at h
  · exact .inr ⟨false, rfl⟩

end Send

namespace Transport

variable {t : Transport} {i : Nat} {a : Action} {x : Send} {p : Phase}

theorem run_append_singleton (evs : List Event) (e : Event) :
    run (evs ++ [e]) = (run evs).step e := by
  simp [run, List.foldl_append]

@[simp] theorem sends_new : new.sends = [] := rfl

@[simp] theorem pending_new : new.pending = [] := rfl

/-! ### What one event does -/

theorem act_of_after (hx : t.sends[i]? = some x) (hp : x.phase.after x.acked a = some p) :
    t.act i a = { t with pending := tableAfter t.pending x.seq i a,
                         sends := t.sends.set i { x with phase := p } } := by
  simp [act, hx, hp]

/-- A step of a send that is due, or nothing. -/
theorem act_cases (t : Transport) (i : Nat) (a : Action) :
    t.act i a = t ∨ ∃ x p, t.sends[i]? = some x ∧ x.phase.after x.acked a = some p ∧
      t.act i a = { t with pending := tableAfter t.pending x.seq i a,
                           sends := t.sends.set i { x with phase := p } } := by
  cases hx : t.sends[i]? with
  | none => left; simp [act, hx]
  | some x =>
    cases hp : x.phase.after x.acked a with
    | none => left; simp [act, hx, hp]
    | some p => exact .inr ⟨x, p, rfl, hp, act_of_after hx hp⟩

theorem resolveAck_of_lookup_none {seq : UInt64} (h : t.pending.lookup seq = none) :
    t.resolveAck seq = t := by
  simp [resolveAck, h]

theorem resolveAck_of_lookup_some {seq : UInt64} (h : t.pending.lookup seq = some i) :
    t.resolveAck seq = { t with pending := without t.pending seq,
                                sends := t.sends.modify i ({ · with acked := true }) } := by
  simp [resolveAck, h]

theorem mem_without {pending : List (UInt64 × Nat)} {seq s : UInt64} {j : Nat} :
    (s, j) ∈ without pending seq ↔ (s, j) ∈ pending ∧ s ≠ seq := by
  simp [without]

/-! ### Numbers -/

/-- Send `i` holds number `i + 1` wrapped to 64 bits, and the next number follows the last. -/
structure Numbered (t : Transport) : Prop where
  seqs : t.sends.map Send.seq = (List.range t.sends.length).map fun i => UInt64.ofNat (i + 1)
  next : t.nextSeq = UInt64.ofNat (t.sends.length + 1)

theorem map_seq_set {l : List Send} (hx : l[i]? = some x) (p : Phase) :
    (l.set i { x with phase := p }).map Send.seq = l.map Send.seq := by
  apply List.ext_getElem?
  intro k
  simp only [List.getElem?_map, List.getElem?_set]
  by_cases hk : i = k
  · subst hk
    obtain ⟨hi, hxi⟩ := List.getElem?_eq_some_iff.mp hx
    simp [hi, hxi]
  · simp [hk]

theorem seqs_act (t : Transport) (i : Nat) (a : Action) :
    (t.act i a).sends.map Send.seq = t.sends.map Send.seq ∧ (t.act i a).nextSeq = t.nextSeq := by
  rcases act_cases t i a with h | ⟨x, p, hx, -, h⟩
  · simp [h]
  · simp [h, map_seq_set hx]

theorem seqs_resolveAck (t : Transport) (seq : UInt64) :
    (t.resolveAck seq).sends.map Send.seq = t.sends.map Send.seq ∧
      (t.resolveAck seq).nextSeq = t.nextSeq := by
  cases h : t.pending.lookup seq with
  | none => simp [resolveAck_of_lookup_none h]
  | some i =>
    refine ⟨?_, by simp [resolveAck_of_lookup_some h]⟩
    rw [resolveAck_of_lookup_some h]
    apply List.ext_getElem?
    intro k
    simp only [List.getElem?_map, List.getElem?_modify]
    cases t.sends[k]? <;> simp
    split <;> rfl

theorem length_sends_act (t : Transport) (i : Nat) (a : Action) :
    (t.act i a).sends.length = t.sends.length := by
  simpa using congrArg List.length (seqs_act t i a).1

theorem length_sends_resolveAck (t : Transport) (seq : UInt64) :
    (t.resolveAck seq).sends.length = t.sends.length := by
  simpa using congrArg List.length (seqs_resolveAck t seq).1

theorem numbered_new : Numbered new := ⟨rfl, rfl⟩

theorem numbered_step (hn : Numbered t) (e : Event) : Numbered (t.step e) := by
  cases e with
  | call m =>
    constructor
    · simp only [step, call, List.map_append, hn.seqs, List.length_append, List.length_singleton,
        List.range_succ, List.map_cons, List.map_nil, hn.next]
    · simp only [step, call, hn.next, List.length_append, List.length_singleton]
      rw [UInt64.ofNat_add (t.sends.length + 1) 1]
      rfl
  | act i a =>
    obtain ⟨hs, hnext⟩ := seqs_act t i a
    exact ⟨by rw [step, hs, length_sends_act, hn.seqs],
      by rw [step, hnext, length_sends_act, hn.next]⟩
  | ack seq =>
    obtain ⟨hs, hnext⟩ := seqs_resolveAck t seq
    exact ⟨by rw [step, hs, length_sends_resolveAck, hn.seqs],
      by rw [step, hnext, length_sends_resolveAck, hn.next]⟩

theorem numbered_run (evs : List Event) : Numbered (run evs) := by
  induction evs using List.reverseRecOn with
  | nil => exact numbered_new
  | append_singleton evs e ih => rw [run_append_singleton]; exact numbered_step ih e

theorem Numbered.seq_eq (hn : Numbered t) (hx : t.sends[i]? = some x) :
    x.seq = UInt64.ofNat (i + 1) := by
  have hi : i < t.sends.length := (List.getElem?_eq_some_iff.mp hx).1
  have h := congrArg (·[i]?) hn.seqs
  simpa [hx, List.getElem?_range hi] using h

theorem ofNat_succ_inj {j : Nat} (hi : i < 2 ^ 64) (hj : j < 2 ^ 64)
    (h : UInt64.ofNat (i + 1) = UInt64.ofNat (j + 1)) : i = j := by
  have h' := congrArg UInt64.toNat h
  simp only [UInt64.toNat_ofNat'] at h'
  omega

/-- While at most 2^64 numbers have been handed out, no two sends share one. -/
theorem Numbered.seq_inj (hn : Numbered t) (hb : t.sends.length ≤ 2 ^ 64) {j : Nat} {y : Send}
    (hx : t.sends[i]? = some x) (hy : t.sends[j]? = some y) (h : x.seq = y.seq) : i = j := by
  have hi := (List.getElem?_eq_some_iff.mp hx).1
  have hj := (List.getElem?_eq_some_iff.mp hy).1
  rw [hn.seq_eq hx, hn.seq_eq hy] at h
  exact ofNat_succ_inj (by omega) (by omega) h

theorem Numbered.nodup (hn : Numbered t) (hb : t.sends.length ≤ 2 ^ 64) :
    (t.sends.map Send.seq).Nodup := by
  rw [hn.seqs]
  refine List.Nodup.map_on ?_ List.nodup_range
  intro i hi j hj h
  rw [List.mem_range] at hi hj
  exact ofNat_succ_inj (by omega) (by omega) h

/-- The numbers repeat after 2^64 sends: send `i + 2^64` holds the number of send `i`. -/
theorem Numbered.seq_wraps (hn : Numbered t) {y : Send} (hx : t.sends[i]? = some x)
    (hy : t.sends[i + 2 ^ 64]? = some y) : x.seq = y.seq := by
  rw [hn.seq_eq hx, hn.seq_eq hy]
  apply UInt64.toNat_inj.mp
  simp only [UInt64.toNat_ofNat']
  omega

/-! ### Each send under one event -/

theorem sends_call (t : Transport) (m : Message) (k : Nat) :
    (t.call m).sends[k]? =
      if k = t.sends.length then some ⟨t.nextSeq, .start t.nextSeq m, false⟩
      else t.sends[k]? := by
  rcases Nat.lt_trichotomy k t.sends.length with h | rfl | h
  · simp [call, List.getElem?_append_left h, Nat.ne_of_lt h]
  · simp [call]
  · have hk : t.sends.length ≤ k := Nat.le_of_lt h
    simp [call, List.getElem?_append_right hk, Nat.ne_of_gt h, List.getElem?_eq_none hk]
    omega

theorem sends_act_of_after (hx : t.sends[i]? = some x) (hp : x.phase.after x.acked a = some p)
    (k : Nat) :
    (t.act i a).sends[k]? = if k = i then some { x with phase := p } else t.sends[k]? := by
  have hi := (List.getElem?_eq_some_iff.mp hx).1
  rw [act_of_after hx hp, List.getElem?_set]
  by_cases hk : k = i
  · subst hk
    simp [hi]
  · simp [hk, Ne.symm hk]

theorem sends_resolveAck_of_lookup_some {seq : UInt64} (h : t.pending.lookup seq = some i)
    (k : Nat) : (t.resolveAck seq).sends[k]? =
      if k = i then t.sends[k]?.map ({ · with acked := true }) else t.sends[k]? := by
  rw [resolveAck_of_lookup_some h, List.getElem?_modify]
  by_cases hk : k = i
  · subst hk
    simp
  · simp [hk, Ne.symm hk]

theorem mem_tableAfter {pending : List (UInt64 × Nat)} {seq s : UInt64} {j : Nat} :
    (s, j) ∈ tableAfter pending seq i a ↔
      (a = .register ∧ s = seq ∧ j = i) ∨
        ((s, j) ∈ pending ∧ ((a = .register ∨ a = .clear) → s ≠ seq)) := by
  cases a <;> simp [tableAfter, mem_without]

theorem mem_of_lookup {pending : List (UInt64 × Nat)} {seq : UInt64}
    (h : pending.lookup seq = some i) : (seq, i) ∈ pending := by
  obtain ⟨l₁, l₂, rfl, -⟩ := List.lookup_eq_some_iff.mp h
  simp

/-! ### The table names waiting sends -/

/-- What holds of every transport that events reach, however many numbers were handed out:
every entry of the table is the entry of the send it names, which waits on it. -/
structure Sound (t : Transport) : Prop where
  owned : ∀ s j, (s, j) ∈ t.pending → ∃ x, t.sends[j]? = some x ∧ x.seq = s ∧ x.Holds
  sane : ∀ (j : Nat) (x : Send), t.sends[j]? = some x → x.Sane

theorem sound_new : Sound new := ⟨by simp, by simp⟩

theorem sound_call (h : Sound t) (m : Message) : Sound (t.call m) := by
  constructor
  · intro s j hs
    obtain ⟨x, hx, rfl, hh⟩ := h.owned s j hs
    have hj := (List.getElem?_eq_some_iff.mp hx).1
    exact ⟨x, by rw [sends_call, if_neg (Nat.ne_of_lt hj), hx], rfl, hh⟩
  · intro j y hy
    rw [sends_call] at hy
    split at hy
    · cases hy
      rcases Phase.start_eq t.nextSeq m with h | h <;> exact ⟨by simp [h], by simp, by simp [h]⟩
    · exact h.sane j y hy

theorem sound_act (h : Sound t) (i : Nat) (a : Action) : Sound (t.act i a) := by
  rcases act_cases t i a with he | ⟨x, p, hx, hp, he⟩
  · rwa [he]
  have hsx := h.sane i x hx
  constructor
  · intro s j hs
    rw [he] at hs
    rcases mem_tableAfter.mp hs with ⟨rfl, rfl, rfl⟩ | ⟨hs, hne⟩
    · -- the entry the step registered
      obtain ⟨hq, rfl⟩ := Phase.after_register hp
      exact ⟨{ x with phase := .registered }, by rw [sends_act_of_after hx hp, if_pos rfl], rfl,
        .inl rfl, hsx.fresh hq⟩
    · obtain ⟨y, hy, rfl, hh⟩ := h.owned s j hs
      by_cases hj : j = i
      · -- the entry of the send that stepped: it was not the removal
        subst hj
        rw [hx] at hy
        cases hy
        have ha : a ≠ .clear := by
          rintro rfl
          exact hne (.inr rfl) rfl
        exact ⟨{ x with phase := p }, by rw [sends_act_of_after hx hp, if_pos rfl], rfl,
          hh.after hp ha⟩
      · exact ⟨y, by rw [sends_act_of_after hx hp, if_neg hj, hy], rfl, hh⟩
  · intro j y hy
    rw [sends_act_of_after hx hp] at hy
    split at hy
    · cases hy
      exact hsx.after hp
    · exact h.sane j y hy

theorem sound_resolveAck (h : Sound t) (seq : UInt64) : Sound (t.resolveAck seq) := by
  cases hl : t.pending.lookup seq with
  | none => rwa [resolveAck_of_lookup_none hl]
  | some k =>
    obtain ⟨x, hx, hxs, hxh⟩ := h.owned seq k (mem_of_lookup hl)
    constructor
    · intro s j hs
      rw [resolveAck_of_lookup_some hl, mem_without] at hs
      obtain ⟨hs, hne⟩ := hs
      obtain ⟨y, hy, rfl, hh⟩ := h.owned s j hs
      have hj : j ≠ k := by
        rintro rfl
        rw [hx] at hy
        cases hy
        exact hne hxs
      exact ⟨y, by rw [sends_resolveAck_of_lookup_some hl, if_neg hj, hy], rfl, hh⟩
    · intro j y hy
      rw [sends_resolveAck_of_lookup_some hl] at hy
      split at hy
      · subst j
        rw [hx] at hy
        cases hy
        exact ⟨(h.sane k x hx).not_unacked, fun he => absurd he hxh.1.phase_ne_encoded,
          fun _ => rfl⟩
      · exact h.sane j y hy

theorem sound_step (h : Sound t) (e : Event) : Sound (t.step e) := by
  cases e with
  | call m => exact sound_call h m
  | act i a => exact sound_act h i a
  | ack seq => exact sound_resolveAck h seq

theorem sound_run (evs : List Event) : Sound (run evs) := by
  induction evs using List.reverseRecOn with
  | nil => exact sound_new
  | append_singleton evs e ih => rw [run_append_singleton]; exact sound_step ih e

theorem length_sends_step (t : Transport) (e : Event) :
    t.sends.length ≤ (t.step e).sends.length ∧
      (t.step e).sends.length ≤ t.sends.length + 1 := by
  cases e with
  | call m => simp [step, call]
  | act i a => simp [step, length_sends_act]
  | ack seq => simp [step, length_sends_resolveAck]

theorem length_sends_run (evs : List Event) : (run evs).sends.length ≤ evs.length := by
  induction evs using List.reverseRecOn with
  | nil => simp [run, new]
  | append_singleton evs e ih =>
    rw [run_append_singleton, List.length_append, List.length_singleton]
    exact Nat.le_trans (length_sends_step _ e).2 (Nat.succ_le_succ ih)

/-! ### While numbers are distinct, the table is exact -/

/-- No two sends share a number. -/
def Distinct (t : Transport) : Prop :=
  ∀ {i j : Nat} {x y : Send},
    t.sends[i]? = some x → t.sends[j]? = some y → x.seq = y.seq → i = j

/-- Every send that waits on its entry finds it in the table. -/
def Complete (t : Transport) : Prop :=
  ∀ (j : Nat) (x : Send), t.sends[j]? = some x → x.Holds → (x.seq, j) ∈ t.pending

theorem Numbered.distinct (hn : Numbered t) (hb : t.sends.length ≤ 2 ^ 64) : Distinct t :=
  fun hx hy h => hn.seq_inj hb hx hy h

theorem complete_call (hc : Complete t) (m : Message) : Complete (t.call m) := by
  intro j y hy hh
  rw [sends_call] at hy
  split at hy
  · -- a send that has just begun has not registered
    cases hy
    rcases Phase.start_eq t.nextSeq m with h | h <;>
      rcases hh.1 with h' | h' | h' <;> simp [h] at h'
  · exact hc j y hy hh

theorem complete_act (hd : Distinct t) (hc : Complete t) (i : Nat) (a : Action) :
    Complete (t.act i a) := by
  rcases act_cases t i a with he | ⟨x, p, hx, hp, he⟩
  · rwa [he]
  intro j y hy hh
  rw [sends_act_of_after hx hp] at hy
  rw [he]
  change (y.seq, j) ∈ tableAfter t.pending x.seq i a
  rw [mem_tableAfter]
  by_cases hj : j = i
  · -- the send that stepped: registered now, or waiting on the entry it had
    subst hj
    rw [if_pos rfl] at hy
    cases hy
    rcases Send.holds_of_after hh hp with rfl | hxh
    · exact .inl ⟨rfl, rfl, rfl⟩
    · refine .inr ⟨hc j x hx hxh, ?_⟩
      rintro (rfl | rfl)
      · exact absurd (Phase.after_register hp).1 hxh.1.phase_ne_encoded
      · exact absurd (Phase.after_clear hp).2 (hh.1.phase_ne_done false)
  · -- another send: its number is not the one that stepped
    rw [if_neg hj] at hy
    exact .inr ⟨hc j y hy hh, fun _ heq => hj (hd hy hx heq)⟩

theorem complete_resolveAck (hs : Sound t) (hd : Distinct t) (hc : Complete t) (seq : UInt64) :
    Complete (t.resolveAck seq) := by
  cases hl : t.pending.lookup seq with
  | none => rwa [resolveAck_of_lookup_none hl]
  | some k =>
    obtain ⟨x, hx, hxs, -⟩ := hs.owned seq k (mem_of_lookup hl)
    intro j y hy hh
    rw [sends_resolveAck_of_lookup_some hl] at hy
    rw [resolveAck_of_lookup_some hl]
    change (y.seq, j) ∈ without t.pending seq
    rw [mem_without]
    by_cases hj : j = k
    · subst hj
      rw [if_pos rfl, hx] at hy
      cases hy
      exact absurd hh.2 (by simp)
    · rw [if_neg hj] at hy
      exact ⟨hc j y hy hh, fun heq => hj (hd hy hx (heq.trans hxs.symm))⟩

theorem complete_step (hs : Sound t) (hd : Distinct t) (hc : Complete t) (e : Event) :
    Complete (t.step e) := by
  cases e with
  | call m => exact complete_call hc m
  | act i a => exact complete_act hd hc i a
  | ack seq => exact complete_resolveAck hs hd hc seq

theorem complete_run (evs : List Event) (hb : (run evs).sends.length ≤ 2 ^ 64) :
    Complete (run evs) := by
  induction evs using List.reverseRecOn with
  | nil => intro j x hx; simp [run, new] at hx
  | append_singleton evs e ih =>
    rw [run_append_singleton] at hb ⊢
    have hb' := Nat.le_trans (length_sends_step (run evs) e).1 hb
    exact complete_step (sound_run evs) ((numbered_run evs).distinct hb') (ih hb') e

/-- While at most 2^64 numbers have been handed out, the table holds exactly the entries of the
sends that wait on them. -/
theorem mem_pending_run_iff (evs : List Event) (hb : (run evs).sends.length ≤ 2 ^ 64)
    {s : UInt64} {j : Nat} :
    (s, j) ∈ (run evs).pending ↔
      ∃ x, (run evs).sends[j]? = some x ∧ x.seq = s ∧ x.Holds :=
  ⟨(sound_run evs).owned s j, fun ⟨x, hx, hs, hh⟩ => hs ▸ complete_run evs hb j x hx hh⟩

/-! ### Along a run -/

/-- What one event does to one send: nothing, or it begins the send, takes a step of it, or
acknowledges it through its entry. -/
theorem send_step_cases (e : Event) {j : Nat} {y : Send} (hy : (t.step e).sends[j]? = some y) :
    t.sends[j]? = some y ∨
      (∃ m, e = .call m ∧ j = t.sends.length ∧
        y = ⟨t.nextSeq, .start t.nextSeq m, false⟩) ∨
      (∃ x a p, e = .act j a ∧ t.sends[j]? = some x ∧ x.phase.after x.acked a = some p ∧
        y = { x with phase := p }) ∨
      (∃ x seq, e = .ack seq ∧ (seq, j) ∈ t.pending ∧ t.sends[j]? = some x ∧
        y = { x with acked := true }) := by
  cases e with
  | call m =>
    simp only [step] at hy
    rw [sends_call] at hy
    by_cases hj : j = t.sends.length
    · rw [if_pos hj] at hy
      exact .inr (.inl ⟨m, rfl, hj, (Option.some.inj hy).symm⟩)
    · rw [if_neg hj] at hy
      exact .inl hy
  | act k a =>
    rcases act_cases t k a with he | ⟨x, p, hx, hp, he⟩
    · simp only [step, he] at hy
      exact .inl hy
    simp only [step] at hy
    rw [sends_act_of_after hx hp] at hy
    by_cases hjk : j = k
    · subst hjk
      rw [if_pos rfl] at hy
      exact .inr (.inr (.inl ⟨x, a, p, rfl, hx, hp, (Option.some.inj hy).symm⟩))
    · rw [if_neg hjk] at hy
      exact .inl hy
  | ack seq =>
    cases hl : t.pending.lookup seq with
    | none =>
      simp only [step, resolveAck_of_lookup_none hl] at hy
      exact .inl hy
    | some k =>
      simp only [step] at hy
      rw [sends_resolveAck_of_lookup_some hl] at hy
      by_cases hjk : j = k
      · subst hjk
        rw [if_pos rfl] at hy
        obtain ⟨x, hx, rfl⟩ := Option.map_eq_some_iff.mp hy
        exact .inr (.inr (.inr ⟨x, seq, rfl, mem_of_lookup hl, hx, rfl⟩))
      · rw [if_neg hjk] at hy
        exact .inl hy

/-- A send is acknowledged at a step only by an acknowledgement of its own number that finds its
entry. -/
theorem acked_step (hs : Sound t) (e : Event) {y : Send} (hy : (t.step e).sends[i]? = some y)
    (ha : y.acked = true) :
    (∃ x, t.sends[i]? = some x ∧ x.seq = y.seq ∧ x.acked = true) ∨
      (e = .ack y.seq ∧ (y.seq, i) ∈ t.pending) := by
  rcases send_step_cases e hy with hy | ⟨m, -, -, rfl⟩ | ⟨x, a, p, -, hx, -, rfl⟩ |
    ⟨x, seq, rfl, hmem, hx, rfl⟩
  · exact .inl ⟨y, hy, rfl, ha⟩
  · simp at ha
  · exact .inl ⟨x, hx, rfl, ha⟩
  · -- the entry found carries the number of the send it names
    obtain ⟨x', hx', hxs, -⟩ := hs.owned seq i hmem
    rw [hx] at hx'
    cases hx'
    exact .inr ⟨by rw [← hxs], by simpa [hxs] using hmem⟩

/-- A send that has been acknowledged was acknowledged by its own number while its entry was in
the table. -/
theorem acked_history (evs : List Event) {x : Send} (hx : (run evs).sends[i]? = some x)
    (ha : x.acked = true) :
    ∃ pre post, evs = pre ++ .ack x.seq :: post ∧ (x.seq, i) ∈ (run pre).pending := by
  induction evs using List.reverseRecOn generalizing x with
  | nil => simp [run, new] at hx
  | append_singleton evs e ih =>
    rw [run_append_singleton] at hx
    rcases acked_step (sound_run evs) e hx ha with ⟨x', hx', hseq, ha'⟩ | ⟨rfl, hmem⟩
    · obtain ⟨pre, post, rfl, hmem⟩ := ih hx' ha'
      exact ⟨pre, post ++ [e], by simp [hseq], hseq ▸ hmem⟩
    · exact ⟨evs, [], rfl, hmem⟩

theorem released_step (e : Event) {j : Nat} {x : Send} (hx : t.sends[j]? = some x)
    (hr : x.Released) : ∃ y, (t.step e).sends[j]? = some y ∧ y.Released := by
  have hj := (List.getElem?_eq_some_iff.mp hx).1
  have hj' : j < (t.step e).sends.length := Nat.lt_of_lt_of_le hj (length_sends_step t e).1
  refine ⟨_, List.getElem?_eq_getElem hj', ?_⟩
  rcases send_step_cases e (List.getElem?_eq_getElem hj') with hy | ⟨m, -, rfl, -⟩ |
    ⟨x', a, p, -, hx', hp, hy⟩ | ⟨x', seq, -, -, hx', hy⟩
  · rw [hx] at hy
    cases hy
    exact hr
  · -- a send that begins takes an index no send had
    exact absurd hj (Nat.lt_irrefl _)
  · rw [hx] at hx'
    cases hx'
    exact hy ▸ hr.after hp
  · rw [hx] at hx'
    cases hx'
    exact hy ▸ hr.ack

/-- A send that let go of its entry stays so for the rest of any run. -/
theorem released_foldl (post : List Event) (t : Transport) {j : Nat} {x : Send}
    (hx : t.sends[j]? = some x) (hr : x.Released) :
    ∃ y, (post.foldl step t).sends[j]? = some y ∧ y.Released := by
  induction post generalizing t x with
  | nil => exact ⟨x, hx, hr⟩
  | cons e post ih =>
    obtain ⟨y, hy, hry⟩ := released_step e hx hr
    exact ih (t.step e) hy hry

/-- While numbers are distinct, an entry leaves the table only through an acknowledgement of its
number or through its own send's removal, and that send lets go of it for good. -/
theorem removal_step (hs : Sound t) (hd : Distinct t) (e : Event) {s : UInt64} {j : Nat}
    (hin : (s, j) ∈ t.pending) (hout : (s, j) ∉ (t.step e).pending) :
    (e = .ack s ∨ e = .act j .clear) ∧ ∃ y, (t.step e).sends[j]? = some y ∧ y.Released := by
  obtain ⟨x, hx, rfl, hh⟩ := hs.owned s j hin
  cases e with
  | call m => exact absurd hin hout
  | act k a =>
    rcases act_cases t k a with he | ⟨x', p, hx', hp, he⟩
    · simp only [step, he] at hout
      exact absurd hin hout
    simp only [step, he, mem_tableAfter] at hout
    -- only a registration or a removal of the same number takes an entry out
    have hrc : (a = .register ∨ a = .clear) ∧ x.seq = x'.seq :=
      Classical.byContradiction fun hc => hout (.inr ⟨hin, fun ha heq => hc ⟨ha, heq⟩⟩)
    obtain ⟨hrc, hseq⟩ := hrc
    have hjk : j = k := hd hx hx' hseq
    subst hjk
    rw [hx] at hx'
    cases hx'
    rcases hrc with rfl | rfl
    · exact absurd (Phase.after_register hp).1 hh.1.phase_ne_encoded
    · obtain ⟨-, rfl⟩ := Phase.after_clear hp
      refine ⟨.inr rfl, { x with phase := .done false }, ?_, .inr ⟨false, rfl⟩⟩
      simp only [step]
      rw [sends_act_of_after hx hp, if_pos rfl]
  | ack seq =>
    cases hl : t.pending.lookup seq with
    | none =>
      simp only [step, resolveAck_of_lookup_none hl] at hout
      exact absurd hin hout
    | some k =>
      simp only [step, resolveAck_of_lookup_some hl, mem_without] at hout
      have hseq : x.seq = seq := Classical.byContradiction fun hne => hout ⟨hin, hne⟩
      subst hseq
      -- the entry found is this send's: no other send holds its number
      obtain ⟨x', hx', hxs', -⟩ := hs.owned x.seq k (mem_of_lookup hl)
      have hjk : j = k := hd hx hx' hxs'.symm
      subst hjk
      refine ⟨.inl rfl, { x with acked := true }, ?_, .inl ⟨hh.1, rfl⟩⟩
      simp only [step]
      rw [sends_resolveAck_of_lookup_some hl, if_pos rfl, hx]
      rfl

theorem length_sends_foldl (post : List Event) (t : Transport) :
    t.sends.length ≤ (post.foldl step t).sends.length := by
  induction post generalizing t with
  | nil => exact Nat.le_refl _
  | cons e post ih => exact Nat.le_trans (length_sends_step t e).1 (ih (t.step e))

/-- While at most 2^64 numbers have been handed out, an entry that leaves the table does so
through an acknowledgement of its number or its own send's removal, and never comes back. -/
theorem removed_for_good (pre : List Event) (e : Event) (post : List Event)
    (hb : (run (pre ++ e :: post)).sends.length ≤ 2 ^ 64) {s : UInt64} {j : Nat}
    (hin : (s, j) ∈ (run pre).pending) (hout : (s, j) ∉ ((run pre).step e).pending) :
    (e = .ack s ∨ e = .act j .clear) ∧ (s, j) ∉ (run (pre ++ e :: post)).pending := by
  have hrun : run (pre ++ e :: post) = post.foldl step ((run pre).step e) := by
    simp only [run, List.foldl_append, List.foldl_cons]
  have hb' : (run pre).sends.length ≤ 2 ^ 64 := by
    have h := Nat.le_trans (length_sends_step (run pre) e).1 (length_sends_foldl post _)
    rw [← hrun] at h
    omega
  obtain ⟨hcause, y, hy, hry⟩ :=
    removal_step (sound_run pre) ((numbered_run pre).distinct hb') e hin hout
  refine ⟨hcause, fun hmem => ?_⟩
  obtain ⟨z, hz, hrz⟩ := released_foldl post _ hy hry
  obtain ⟨z', hz', -, hh⟩ := (sound_run _).owned s j hmem
  rw [hrun, hz] at hz'
  cases hz'
  exact hrz.not_holds hh

theorem resolveAck_of_not_mem {seq : UInt64} (h : ∀ j, (seq, j) ∉ t.pending) :
    t.resolveAck seq = t := by
  apply resolveAck_of_lookup_none
  rw [List.lookup_eq_none_iff]
  rintro ⟨s, j⟩ hmem
  have hne : s ≠ seq := fun hs => h j (hs ▸ hmem)
  exact bne_iff_ne.mpr (Ne.symm hne)

theorem Sound.pending_eq_nil (hs : Sound t)
    (hidle : ∀ x ∈ t.sends, ∃ ok, x.phase = .done ok) :
    t.pending = [] := by
  rw [List.eq_nil_iff_forall_not_mem]
  rintro ⟨s, j⟩ hmem
  obtain ⟨x, hx, -, hh⟩ := hs.owned s j hmem
  obtain ⟨ok, hok⟩ := hidle x (List.mem_of_getElem? hx)
  exact hh.1.phase_ne_done ok hok

/-- Acknowledgements reach only their own sends. In every interleaving of sends with
acknowledgements of any numbers and with timers, while at most 2^64 numbers have been handed
out: the sends hold distinct numbers; a send succeeds only if an acknowledgement of its own number
found its entry in the table; an entry leaves the table only through an acknowledgement of its
number or its own send's removal, and never comes back; an acknowledgement of a number without an
entry changes nothing; and once every send has returned the table is empty. -/
theorem acknowledgements_resolve_own_sends (evs : List Event)
    (hb : (run evs).sends.length ≤ 2 ^ 64) :
    ((run evs).sends.map Send.seq).Nodup ∧
    (∀ i x, (run evs).sends[i]? = some x → x.phase = .done true →
      ∃ pre post, evs = pre ++ .ack x.seq :: post ∧ (x.seq, i) ∈ (run pre).pending) ∧
    (∀ pre e post s j, evs = pre ++ e :: post → (s, j) ∈ (run pre).pending →
      (s, j) ∉ ((run pre).step e).pending →
        (e = .ack s ∨ e = .act j .clear) ∧ (s, j) ∉ (run evs).pending) ∧
    (∀ s, (∀ j, (s, j) ∉ (run evs).pending) → (run evs).step (.ack s) = run evs) ∧
    ((∀ x ∈ (run evs).sends, ∃ ok, x.phase = .done ok) → (run evs).pending = []) := by
  refine ⟨(numbered_run evs).nodup hb, ?_, ?_, fun s h => resolveAck_of_not_mem h,
    (sound_run evs).pending_eq_nil⟩
  · intro i x hx hok
    exact acked_history evs hx (((sound_run evs).sane i x hx).ok_acked hok)
  · rintro pre e post s j rfl hin hout
    exact removed_for_good pre e post hb hin hout

/-- Two pings race: the second is acknowledged before its datagram has left, twice; an unknown
number is acknowledged; the first times out and its acknowledgement arrives before it removes its
entry. -/
def racingPings : List Event :=
  let ping := Message.ping (.ofNat 1) (.ofNat 2) ⟨.ofNat 1, .v4 (127, 0, 0, 1) 40000⟩
  [.call ping, .call ping, .act 0 .register, .act 1 .register, .ack 2, .act 0 (.transmit true),
    .act 1 (.transmit true), .ack 2, .ack 7, .act 0 .wake, .ack 1, .act 0 .clear, .act 1 .wake]

theorem racing_pings_resolve_own_sends :
    (run racingPings).sends.length ≤ 2 ^ 64 ∧
    ((run racingPings).sends.map Send.seq).Nodup ∧
    (∀ i x, (run racingPings).sends[i]? = some x → x.phase = .done true →
      ∃ pre post, racingPings = pre ++ .ack x.seq :: post ∧
        (x.seq, i) ∈ (run pre).pending) ∧
    (∀ pre e post s j, racingPings = pre ++ e :: post → (s, j) ∈ (run pre).pending →
      (s, j) ∉ ((run pre).step e).pending →
        (e = .ack s ∨ e = .act j .clear) ∧ (s, j) ∉ (run racingPings).pending) ∧
    (∀ s, (∀ j, (s, j) ∉ (run racingPings).pending) →
      (run racingPings).step (.ack s) = run racingPings) ∧
    ((∀ x ∈ (run racingPings).sends, ∃ ok, x.phase = .done ok) →
      (run racingPings).pending = []) :=
  have hb : (run racingPings).sends.length ≤ 2 ^ 64 :=
    Nat.le_trans (length_sends_run racingPings) (by decide)
  ⟨hb, acknowledgements_resolve_own_sends racingPings hb⟩

end Transport

end PeerRing.Daemon
