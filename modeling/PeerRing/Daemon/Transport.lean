import PeerRing.Frame
/-! # The acknowledged datagram transport

A daemon's transport numbers every message it sends and, for a kind that requests an
acknowledgement, waits for the ACK frame that echoes the number. Its shared state is the next
number to hand out (from 1, wrapping after 2^64 - 1) and the table of numbers still waiting,
each with the send that waits on it.

Sends run concurrently. Each follows one program, a few steps that each touch the shared state at
most once, and the steps of all sends interleave with each other, with the acknowledgements the
listener resolves (for any number: late, repeated or unknown) and with the sends' timers:
1. a send takes the next number and encodes its frame; a frame too large for a datagram fails it;
2. it registers its number in the table, replacing any entry of that number;
3. the socket sends its datagram or refuses it;
4. its wait ends: if its acknowledgement came it succeeds, otherwise its timer fired;
5. after a refusal or a timeout it removes the entry of its number and fails.
A kind that requests no acknowledgement skips the table: its send succeeds when the socket takes
the datagram. An acknowledgement removes the entry of its number, if any, and signals the send
named there.

Time is not modelled: a timer may fire at any moment of the wait, and the round trip that a
successful send records is left out. A step due at another point of a send's program does
nothing.
-/
namespace PeerRing.Daemon

/-- Where a send stands in its program. -/
inductive Phase where
  /-- Numbered and encoded; its number is about to be registered. -/
  | encoded
  /-- Numbered and encoded, of a kind that requests no acknowledgement. -/
  | unacked
  /-- Registered; its datagram is being sent. -/
  | registered
  /-- Sent; waiting for its acknowledgement or its timer. -/
  | waiting
  /-- Refused by the socket or timed out; about to remove its entry. -/
  | clearing
  /-- Returned its result. -/
  | done (ok : Bool)
  deriving DecidableEq, Repr

/-- A step of a send's program. -/
inductive Action where
  /-- It registers its number in the table. -/
  | register
  /-- The socket sends its datagram, or refuses it. -/
  | transmit (ok : Bool)
  /-- Its wait ends: its acknowledgement came, or its timer fired. -/
  | wake
  /-- It removes the entry of its number after a failure. -/
  | clear
  deriving DecidableEq, Repr

namespace Phase

/-- Where a send of a message stands once it has its number: a frame too large for a datagram
fails it at once. -/
def start (seq : UInt64) (m : Message) : Phase :=
  match Frame.encodeData seq m with
  | .error _ => .done false
  | .ok _ => if m.kind.requestsAck then .encoded else .unacked

/-- Where an action takes a send at this point, given whether its acknowledgement came; none when
the action is not due here. -/
def after (acked : Bool) : Phase → Action → Option Phase
  | .encoded, .register => some .registered
  | .unacked, .transmit ok => some (.done ok)
  | .registered, .transmit ok => some (if ok then .waiting else .clearing)
  | .waiting, .wake => some (if acked then .done true else .clearing)
  | .clearing, .clear => some (.done false)
  | _, _ => none

end Phase

/-- One call of send: its number, where it stands, and whether its acknowledgement came. -/
structure Send where
  seq : UInt64
  phase : Phase
  acked : Bool := false
  deriving DecidableEq, Repr

/-- Something that happens to a transport. -/
inductive Event where
  /-- A send of a message begins: it takes a number and encodes its frame. -/
  | call (m : Message)
  /-- The send with this index takes a step. -/
  | act (i : Nat) (a : Action)
  /-- The listener resolves an acknowledgement with this number. -/
  | ack (seq : UInt64)

/-- A transport with the sends made through it, by call order; `pending` holds the numbers
waiting for an acknowledgement, each with the index of the send that waits. -/
structure Transport where
  nextSeq : UInt64 := 1
  pending : List (UInt64 × Nat) := []
  sends : List Send := []
  deriving Repr

namespace Transport

def new : Transport := {}

/-- The table without the entry of a number. -/
def without (pending : List (UInt64 × Nat)) (seq : UInt64) : List (UInt64 × Nat) :=
  pending.filter (·.1 != seq)

/-- The table after a step of send `i`, whose number is `seq`. -/
def tableAfter (pending : List (UInt64 × Nat)) (seq : UInt64) (i : Nat) :
    Action → List (UInt64 × Nat)
  | .register => (seq, i) :: without pending seq
  | .clear => without pending seq
  | _ => pending

/-- A send of a message begins: it takes the next number and encodes its frame. -/
def call (t : Transport) (m : Message) : Transport :=
  { t with nextSeq := t.nextSeq + 1,
           sends := t.sends ++ [⟨t.nextSeq, .start t.nextSeq m, false⟩] }

/-- Send `i` takes a step of its program, if that step is due. -/
def act (t : Transport) (i : Nat) (a : Action) : Transport :=
  match t.sends[i]? with
  | none => t
  | some x =>
    match x.phase.after x.acked a with
    | none => t
    | some p =>
      { t with pending := tableAfter t.pending x.seq i a,
               sends := t.sends.set i { x with phase := p } }

/-- The listener resolves an acknowledgement: the entry of its number leaves the table and the
send named there learns that its acknowledgement came. An unknown number is ignored. -/
def resolveAck (t : Transport) (seq : UInt64) : Transport :=
  match t.pending.lookup seq with
  | none => t
  | some i =>
    { t with pending := without t.pending seq,
             sends := t.sends.modify i ({ · with acked := true }) }

/-- One event. -/
def step (t : Transport) : Event → Transport
  | .call m => t.call m
  | .act i a => t.act i a
  | .ack seq => t.resolveAck seq

/-- A send of a message run alone from start to end: numbered, registered and handed to the
socket; if the socket took it, acknowledged when it arrived and timed out otherwise; if not,
cleared at once. -/
def sendAlone (t : Transport) (msg : Message) (taken arrived : Bool) : Transport :=
  let i := t.sends.length
  let seq := t.nextSeq
  let t := ((t.call msg).act i .register).act i (.transmit taken)
  if !taken then t.act i .clear
  else if arrived then (t.resolveAck seq).act i .wake
  else (t.act i .wake).act i .clear

def run (evs : List Event) : Transport := evs.foldl step new

end Transport

end PeerRing.Daemon
