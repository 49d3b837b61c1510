import PeerRing.Config.Basic
import PeerRing.Toml.Parse
import PeerRing.Decimal.Nearest
/-! # Reading a configuration file

A configuration file is TOML with a `node` and an `overlay` table. Every setting has a default,
so a missing table or key keeps it, and keys the configuration does not know are ignored. A
section may also be given as an array of its settings in their declared order; missing ones
keep their defaults and extra ones are ignored.

Each setting must have its type: text for the key and the bootstrap address, a socket address
written as text for the listen address, a non-negative integer in range for the counts and
durations (below 2^32 for `piggy_every`), and a number for `bad_link`, which is stored as a
32-bit float: an integer is rounded to it directly, a float is rounded from its double. Any
other value makes the whole file invalid.
-/
namespace PeerRing.Config

open Toml

/-- A text setting. -/
def textSetting : Toml.Value → Option String
  | .str s => some s
  | _ => none

/-- A socket address setting. -/
def addrSetting : Toml.Value → Option Net.SocketAddr
  | .str s => Net.SocketAddr.parse? s
  | _ => none

/-- A non-negative integer setting below `bound`. -/
def natSetting (bound : Nat) : Toml.Value → Option Nat
  | .int n => if 0 ≤ n ∧ n.toNat < bound then some n.toNat else none
  | _ => none

def wordBound : Nat := Nat.pow 2 64

/-- The nearest 32-bit float to an integer. -/
def singleOfInt (n : Int) : Float32 :=
  let bits := Decimal.binary32.nearest n.natAbs 0 + if n < 0 then Nat.pow 2 31 else 0
  Float32.ofBits bits.toUInt32

/-- A 32-bit float setting. -/
def singleSetting : Toml.Value → Option Float32
  | .int n => some (singleOfInt n)
  | .float x => some x.toFloat32
  | _ => none

/-- Reads a section: a table of named settings, or an array of settings in declared order.
`apply` sets one setting from its position and value. -/
def readSection (names : List String) (init : α) (apply : α → Nat → Toml.Value → Option α) :
    Toml.Value → Option α
  | .table fields =>
    let step (acc : α) (entry : String × Nat) : Option α :=
      match (fields.find? (·.1 == entry.1)).map (·.2) with
      | some v => apply acc entry.2 v
      | none => some acc
    names.zipIdx.foldlM step init
  | .arr items =>
    (items.take names.length).zipIdx.foldlM (fun acc e => apply acc e.2 e.1) init
  | _ => none

/-- The node settings of a file section. -/
def Node.ofToml : Toml.Value → Option Node :=
  readSection ["listen_addr", "key", "bootstrap"] {} fun c i v =>
    match i with
    | 0 => (addrSetting v).map fun a => { c with listenAddr := a }
    | 1 => (textSetting v).map fun s => { c with key := s }
    | _ => (textSetting v).map fun s => { c with bootstrap := s }

/-- The overlay settings of a file section. -/
def Overlay.ofToml : Toml.Value → Option Overlay :=
  readSection ["leafset_half_size", "grace_period_secs", "check_interval_secs", "piggy_every",
      "bad_link", "host_cache_size", "ping_timeout_ms"] {} fun c i v =>
    match i with
    | 0 => (natSetting wordBound v).map fun n => { c with leafsetHalfSize := n }
    | 1 => (natSetting wordBound v).map fun n => { c with gracePeriodSecs := n }
    | 2 => (natSetting wordBound v).map fun n => { c with checkIntervalSecs := n }
    | 3 => (natSetting (Nat.pow 2 32) v).map fun n => { c with piggyEvery := n }
    | 4 => (singleSetting v).map fun x => { c with badLink := x }
    | 5 => (natSetting wordBound v).map fun n => { c with hostCacheSize := n }
    | _ => (natSetting wordBound v).map fun n => { c with pingTimeoutMs := n }

/-- The configuration a TOML document gives. -/
def Ring.ofToml : Toml.Value → Option Ring :=
  readSection ["node", "overlay"] {} fun c i v =>
    match i with
    | 0 => (Node.ofToml v).map fun n => { c with node := n }
    | _ => (Overlay.ofToml v).map fun o => { c with overlay := o }

/-- Reads a configuration file; none if it is not valid TOML or a setting has a wrong type or
is out of range. -/
def Ring.parse (text : String) : Option Ring := (Toml.parse text).bind Ring.ofToml

/-- The text of the default configuration file. -/
def defaultText : String :=
  "[node]\nlisten_addr = \"0.0.0.0:4555\"\nkey = \"\"\nbootstrap = \"\"\n\n" ++
  "[overlay]\nleafset_half_size = 4\ngrace_period_secs = 30\ncheck_interval_secs = 20\n" ++
  "piggy_every = 3\nbad_link = 0.30000001192092896\nhost_cache_size = 64\nping_timeout_ms = 1000\n"

end PeerRing.Config
