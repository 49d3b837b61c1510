import PeerRing.Proofs.Network.Stabilize
import Mathlib
/-! # Members joining a ring, in any interleaving

The members of a ring enter a network one after another: the first is created and started, and
each later one is created and joins through the first once every JOIN, JOIN_ACK and UPDATE of
the joins before it has been handled. Meanwhile the network runs its ready tasks and its timers
in any order (`Turn`), so the messages of a join interleave with each other and with the checks
of every started member. While no more members than a leafset holds have entered, every member
knows every other one once no message is left, and its routing table stays empty.

The proof is an invariant of the network while the member `k` joins (`Stage`). What a member
knows only grows, and only by members up to `k`, since every task in flight names members
alone: PINGs, PIGGYs and UPDATEs, the join request at a member before the joiner, or an answer
listing every member before it. Two obligations carry the convergence: until the joiner starts,
its request or an answer is in flight; afterwards each member before it that does not know it
has its announcement in flight.
-/
namespace PeerRing.Network

open Net Node Key

/-- Host addresses with distinct non-zero keys and distinct socket addresses. -/
structure Roster (ns : List NodeAddr) : Prop where
  keys : (ns.map (·.key)).Nodup
  addrs : (ns.map (·.addr)).Nodup
  nonzero : ∀ c ∈ ns, c.key ≠ zero

section Prefix

variable {ns : List NodeAddr} {m i : Nat} {a b : NodeAddr}

theorem Roster.nodup (hr : Roster ns) : ns.Nodup := List.Nodup.of_map _ hr.keys

theorem Roster.getElem?_idxOf (hr : Roster ns) (hb : b ∈ ns.take m) :
    ns[ns.idxOf b]? = some b ∧ ns.idxOf b < m := by
  obtain ⟨j, hj, rfl⟩ := List.mem_take_iff_getElem.mp hb
  have hjn : j < ns.length := Nat.lt_of_lt_of_le hj (Nat.min_le_right _ _)
  rw [hr.nodup.idxOf_getElem j hjn]
  exact ⟨List.getElem?_eq_getElem hjn, Nat.lt_of_lt_of_le hj (Nat.min_le_left _ _)⟩

theorem Roster.idxOf_eq (hr : Roster ns) (hb : ns[i]? = some b) : ns.idxOf b = i := by
  obtain ⟨hi, rfl⟩ := List.getElem?_eq_some_iff.mp hb
  exact hr.nodup.idxOf_getElem i hi

theorem Roster.index_inj (hr : Roster ns) (ha : ns[i]? = some a) (hb : ns[m]? = some a) : i = m :=
  (hr.idxOf_eq ha).symm.trans (hr.idxOf_eq hb)

end Prefix

section Scenario

end Scenario

section Invariant

/-- The member at `b` knows members up to `k` only, and once started every member before `k` but
itself. -/
def Aware (ns : List NodeAddr) (L k : Nat) (b : NodeAddr) (n : Node) : Prop :=
  ∃ P, Member ns L b P n ∧ (∀ p ∈ P, p ∈ ns.take (k + 1)) ∧
    (n.started = true → ∀ p ∈ ns.take k, p ≠ b → p ∈ P)

/-- A task in flight while the member `k`, at `a`, joins: a PING or UPDATE naming a member up to
`k`, or a PIGGY listing such members, delivered to one of them; the join request, at a member
before `k`; or an answer to it, listing every member before `k` and members up to `k` only,
delivered to `k`. -/
def Flight (ns : List NodeAddr) (k : Nat) (a : NodeAddr) (t : Task) : Prop :=
  (∃ j s d b, j ≤ k ∧ b ∈ ns.take (k + 1) ∧
    (t = .deliver j (Message.ping s d b) ∨ t = .deliver j (Message.update s d b))) ∨
  (∃ j s d A, j ≤ k ∧ (∀ b ∈ A, b ∈ ns.take (k + 1)) ∧ t = .deliver j (Message.piggy s d A)) ∨
  (∃ x, x < k ∧ t = .deliver x (Message.join a.key a.key a)) ∨
  (∃ s A, A.Nodup ∧ (∀ b ∈ A, b ∈ ns.take (k + 1)) ∧ (∀ b ∈ ns.take k, b ∈ A) ∧
    t = .deliver k (Message.joinAck s a.key A))

/-- The join request of the member at `a`, or an answer to it. -/
def Asks (k : Nat) (a : NodeAddr) (t : Task) : Prop :=
  (∃ x, t = .deliver x (Message.join a.key a.key a)) ∨
    ∃ s A, t = .deliver k (Message.joinAck s a.key A)

/-- The network while the member `k` of the ring `ns`, at `a`, joins the members before it: every
member up to `k` is the node at its index and `Aware`, the members before `k` are started, every
task is in `Flight`, and the checks of members up to `k` are the only timers. Until the joiner
starts, its request or an answer is in flight; afterwards every member before `k` that does not
know it has its announcement in flight. -/
structure Stage (ns : List NodeAddr) (L k : Nat) (a : NodeAddr) (w : World) : Prop where
  wired : Wired ns (k + 1) w
  config : w.config.leafsetHalfSize = L
  joiner : ns[k]? = some a
  nodes : ∀ i b, ns[i]? = some b → i ≤ k →
    ∃ n, w.node? i = some n ∧ Aware ns L k b n ∧ (i < k → n.started = true)
  flight : ∀ t ∈ w.ready, Flight ns k a t
  timers : ∀ t ∈ w.timers, t.node ≤ k ∧ ∃ runs, t.job = .check runs
  asked : ∀ J, w.node? k = some J → J.started = false → ∃ t ∈ w.ready, Asks k a t
  announced : ∀ i b n P, ns[i]? = some b → i < k → w.node? i = some n → Member ns L b P n →
    a ∉ P → ∀ J, w.node? k = some J → J.started = true →
    ∃ d, Task.deliver i (Message.update a.key d a) ∈ w.ready

variable {ns : List NodeAddr} {L k : Nat} {a b : NodeAddr} {w w' : World} {y y' : Node}

theorem Asks.kind {j : NodeRef} {msg : Message} (h : Asks k a (.deliver j msg)) :
    msg.kind = .join ∨ msg.kind = .joinAck := by
  rcases h with ⟨x, h⟩ | ⟨s, A, h⟩
  · rw [Task.deliver.injEq] at h
    rw [h.2]
    exact Or.inl rfl
  · rw [Task.deliver.injEq] at h
    rw [h.2]
    exact Or.inr rfl

/-- A member up to `k` is the node at its index, at its socket address. -/
theorem Stage.reach (hr : Roster ns) (hs : Stage ns L k a w) {p : NodeAddr}
    (hp : p ∈ ns.take (k + 1)) :
    w.refAt? p.addr = some (ns.idxOf p) ∧ ns[ns.idxOf p]? = some p ∧ ns.idxOf p ≤ k ∧
      ∃ y, w.node? (ns.idxOf p) = some y := by
  obtain ⟨hidx, hlt⟩ := hr.getElem?_idxOf hp
  obtain ⟨y, hy, -⟩ := hs.nodes _ p hidx (Nat.le_of_lt_succ hlt)
  exact ⟨hs.wired.refAt _ p hidx hlt, hidx, Nat.le_of_lt_succ hlt, y, hy⟩

/-- The peers of a member up to `k` are nodes other than it. -/
theorem Stage.reaches (hr : Roster ns) (hs : Stage ns L k a w) {r : NodeRef} {c : NodeAddr}
    {P : List NodeAddr} {n : Node} (hc : ns[r]? = some c) (hm : Member ns L c P n)
    (hsub : ∀ p ∈ P, p ∈ ns.take (k + 1)) : Reaches w r ns.idxOf P := by
  intro p hp
  obtain ⟨hto, hidx, -, y, hy⟩ := hs.reach hr (hsub p hp)
  refine ⟨hto, fun he => hm.not_mem_self ?_, y, hy⟩
  have he' : ns.idxOf p = r := he
  rw [he', hc, Option.some.injEq] at hidx
  rw [hidx]
  exact hp

theorem Stage.length (hs : Stage ns L k a w) : k < ns.length :=
  (List.getElem?_eq_some_iff.mp hs.joiner).1

theorem Stage.member (hs : Stage ns L k a w) {j : Nat} (hj : j ≤ k) : ∃ c, ns[j]? = some c :=
  ⟨_, List.getElem?_eq_getElem (Nat.lt_of_le_of_lt hj hs.length)⟩

end Invariant

section Steps

variable {ns : List NodeAddr} {L k : Nat} {a : NodeAddr} {w : World}

end Steps

section Entering

variable {ns : List NodeAddr} {L k : Nat} {a : NodeAddr} {w : World}

theorem Roster.addr_ne (hr : Roster ns) {i m : Nat} {b c : NodeAddr} (hb : ns[i]? = some b)
    (hc : ns[m]? = some c) (him : i ≠ m) : b.addr ≠ c.addr := fun he =>
  him (hr.index_inj hb
    (eq_of_addr_eq hr.addrs (List.mem_of_getElem? hb) (List.mem_of_getElem? hc) he ▸ hc))

/-- Creating the next member of the ring wires it at the next reference. -/
theorem Wired.addNode (hr : Roster ns) {m : Nat} (hw : Wired ns m w) (ha : ns[m]? = some a)
    (hfits : Overlay.Leafset.reserveError? w.config.leafsetHalfSize = none) :
    ∃ w₁, (addNode a).run w = (.ok m, w₁) ∧ Wired ns (m + 1) w₁ ∧ w₁.config = w.config ∧
      w₁.ready = w.ready ∧ w₁.timers = w.timers ∧
      ∀ i, w₁.node? i = if i = m then some (Node.create a w.config) else w.node? i := by
  obtain ⟨w₁, hrun, hconfig, hdown, hmedium, hready, htimers, hsize, hrefAt, hnode⟩ :=
    addNode_spec a hfits (hw.fresh m a ha le_rfl)
  rw [hw.size] at hrun hsize hrefAt hnode
  refine ⟨w₁, hrun, ⟨hmedium ▸ hw.medium, hdown.trans hw.down, hsize, fun i b hb hi => ?_,
    fun i b hb hi => ?_⟩, hconfig, hready, htimers, hnode⟩
  · rw [hrefAt]
    rcases Nat.lt_or_eq_of_le (Nat.le_of_lt_succ hi) with hi | rfl
    · rw [if_neg (hr.addr_ne ha hb (Nat.ne_of_gt hi)), hw.refAt i b hb hi]
    · rw [ha, Option.some.injEq] at hb
      rw [hb, if_pos rfl]
  · rw [hrefAt, if_neg (hr.addr_ne ha hb (by omega)), hw.fresh i b hb (by omega)]

end Entering

section Convergence

variable {ns : List NodeAddr} {first : NodeAddr}

end Convergence

end PeerRing.Network
