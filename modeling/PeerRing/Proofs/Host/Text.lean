import PeerRing.Proofs.Key.Numeral
import PeerRing.Proofs.Host.Cache
/-! # Host text read back through the cache

The text of a host address is its key's 40 digits, an `@` and its socket address. No digit is an
`@`, so reading splits the text where the key ends and each part reads back: the key from its
digits, the socket address by the behaviour of its text, which is taken as given. Decoding then
gets the host address from the cache, which answers a record at that address. Its key is the
one in the text, except when that key is zero and a record is filed at the address: the cache
gives a filed record a new key only when the key it is asked with is not zero, so it answers
the filed record with the key it has.
-/
namespace PeerRing

open Net Host

namespace NodeAddr

theorem at_not_mem_toHex (k : Key) : '@' ∉ k.toHex.toList := by
  intro hmem
  have hdigit := (Key.toHex_lowercase k).2 '@' hmem
  revert hdigit
  decide

/-- The text of a host address reads back as that address when its socket address does. -/
theorem parse_toText (a : NodeAddr) (h : SocketAddr.parse? a.addr.toText = some a.addr) :
    parse a.toText = .ok a := by
  have hkey := at_not_mem_toHex a.key
  have hsplit : a.toText.toList = a.key.toHex.toList ++ '@' :: a.addr.toText.toList := by
    simp [toText]
  -- the key's digits come before the first `@`, the socket address after it
  have htake : a.toText.toList.takeWhile (· ≠ '@') = a.key.toHex.toList := by
    rw [hsplit, List.takeWhile_append_of_pos]
    · simp
    · intro c hc
      simpa using fun he : c = '@' => hkey (he ▸ hc)
  have hdrop : (a.toText.toList.dropWhile (· ≠ '@')).drop 1 = a.addr.toText.toList := by
    rw [hsplit, List.dropWhile_append_of_pos]
    · simp
    · intro c hc
      simpa using fun he : c = '@' => hkey (he ▸ hc)
  have hmem : '@' ∈ a.toText.toList := by
    rw [hsplit]
    simp
  unfold parse
  simp only [hmem, not_true_eq_false, if_false, htake, hdrop, String.ofList_toList,
    Key.ofHex_toHex, h]

end NodeAddr

namespace Host.Cache

variable {c : Cache} {reg : Registry}

/-- The record `getHost` answers holds the asked address, and the asked key unless that key is
zero and a record is filed at the address: then it is that record, with the key it has. -/
theorem getHost_answer (hf : Filed reg c) (a : NodeAddr) (pinned : Id → Bool) :
    let r := c.getHost reg a pinned
    r.2.1.addr r.2.2 = a.addr ∧
      ((r.2.1.key r.2.2 = a.key ∧ (a.key.isZero = false ∨ c.lookup a.addr = none)) ∨
        (a.key.isZero = true ∧ c.lookup a.addr = some r.2.2 ∧ r.2.1.key r.2.2 = reg.key r.2.2)) := by
  intro r
  unfold r
  cases hl : c.lookup a.addr with
  | some h =>
    obtain ⟨hlt, haddr⟩ := hf _ (mem_of_lookup hl)
    rw [getHost_of_lookup_some hl]
    refine ⟨by simpa using haddr, ?_⟩
    dsimp only
    rw [Registry.key_offerKey_self hlt]
    cases hz : a.key.isZero
    · -- a non-zero key: the filed record takes it
      exact Or.inl ⟨if_neg Bool.false_ne_true, Or.inl rfl⟩
    · -- the zero key gives no new key
      exact Or.inr ⟨rfl, rfl, if_pos rfl⟩
  | none =>
    rw [getHost_of_lookup_none hl]
    refine ⟨?_, Or.inl ⟨Registry.key_create_self a, Or.inr rfl⟩⟩
    simp [Registry.addr, Registry.get_create, Record.ofNodeAddr]

theorem decodeHost_of_parse {s : String} {a : NodeAddr} (h : NodeAddr.parse s = .ok a)
    (pinned : Id → Bool) : c.decodeHost reg s pinned = .ok (c.getHost reg a pinned) := by
  simp only [decodeHost, h]

/-- The text of a record reads back as its host address, and decoding it answers a record at
its address: with its key, unless that key is zero and a record is filed at the address, which
is then answered with the key it has. -/
theorem decodeHost_encode (hf : Filed reg c) (h : Id)
    (haddr : SocketAddr.parse? (reg.addr h).toText = some (reg.addr h)) (pinned : Id → Bool) :
    NodeAddr.parse (reg.encode h) = .ok (reg.nodeAddr h) ∧
      ∃ c' reg' h', c.decodeHost reg (reg.encode h) pinned = .ok (c', reg', h') ∧
        reg'.addr h' = reg.addr h ∧
        ((reg'.key h' = reg.key h ∧ ((reg.key h).isZero = false ∨ c.lookup (reg.addr h) = none)) ∨
          ((reg.key h).isZero = true ∧ c.lookup (reg.addr h) = some h' ∧ reg'.key h' = reg.key h')) := by
  have hparse : NodeAddr.parse (reg.encode h) = .ok (reg.nodeAddr h) :=
    NodeAddr.parse_toText _ haddr
  exact ⟨hparse, _, _, _, decodeHost_of_parse hparse pinned, getHost_answer hf _ pinned⟩

/-- The socket address `127.0.0.1:5001`. -/
def sharedAddr : SocketAddr := .v4 (127, 0, 0, 1) 5001

/-- Two records of one socket address: the first keyed `1000…0`, the second unkeyed, as made
by another cache. -/
def sharedAddrRegistry : Registry :=
  ⟨#[Record.ofNodeAddr ⟨Key.ofNat (2 ^ 156), sharedAddr⟩, Record.ofNodeAddr (.unkeyed sharedAddr)]⟩

/-- A cache that files the keyed record under the address. -/
def sharedAddrCache : Cache := ⟨8, [(sharedAddr, ⟨0⟩)]⟩

theorem sharedAddr_filed : Filed sharedAddrRegistry sharedAddrCache := by
  intro e he
  simp only [sharedAddrCache, List.mem_singleton] at he
  subst he
  exact ⟨by decide, rfl⟩

theorem parse_sharedAddr :
    SocketAddr.parse? sharedAddr.toText = some sharedAddr := by
  decide +kernel

theorem decodeHost_encode_unkeyed :
    Filed sharedAddrRegistry sharedAddrCache ∧
      SocketAddr.parse? (sharedAddrRegistry.addr ⟨1⟩).toText = some (sharedAddrRegistry.addr ⟨1⟩) ∧
      (NodeAddr.parse (sharedAddrRegistry.encode ⟨1⟩) = .ok (sharedAddrRegistry.nodeAddr ⟨1⟩) ∧
        ∃ c' reg' h', sharedAddrCache.decodeHost sharedAddrRegistry
            (sharedAddrRegistry.encode ⟨1⟩) (fun _ => false) = .ok (c', reg', h') ∧
          reg'.addr h' = sharedAddrRegistry.addr ⟨1⟩ ∧
          ((reg'.key h' = sharedAddrRegistry.key ⟨1⟩ ∧
              ((sharedAddrRegistry.key ⟨1⟩).isZero = false ∨
                sharedAddrCache.lookup (sharedAddrRegistry.addr ⟨1⟩) = none)) ∨
            ((sharedAddrRegistry.key ⟨1⟩).isZero = true ∧
              sharedAddrCache.lookup (sharedAddrRegistry.addr ⟨1⟩) = some h' ∧
              reg'.key h' = sharedAddrRegistry.key h'))) :=
  ⟨sharedAddr_filed, parse_sharedAddr,
    decodeHost_encode sharedAddr_filed ⟨1⟩ parse_sharedAddr (fun _ => false)⟩

/-- Decoding the text of the unkeyed record answers the keyed record filed at its address, with
its key `1000…0` and not the zero key of the text. -/
theorem decodeHost_keeps_filed_key :
    Filed sharedAddrRegistry sharedAddrCache ∧
      ∃ c' reg' h', sharedAddrCache.decodeHost sharedAddrRegistry (sharedAddrRegistry.encode ⟨1⟩)
          (fun _ => false) = .ok (c', reg', h') ∧ reg'.key h' ≠ sharedAddrRegistry.key ⟨1⟩ := by
  have hparse := NodeAddr.parse_toText (sharedAddrRegistry.nodeAddr ⟨1⟩) parse_sharedAddr
  refine ⟨sharedAddr_filed, _, _, _, decodeHost_of_parse hparse _, ?_⟩
  decide +kernel

end Host.Cache

end PeerRing
