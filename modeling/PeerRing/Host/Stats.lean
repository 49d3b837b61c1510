/-! # Link statistics

Each peer record keeps the outcomes of the last 20 sends to it, a smoothed round-trip time and
the time of its last detected failure.

The outcomes live in a window of 20 slots that starts as ten failures followed by ten
successes; each outcome overwrites the slot at the running index modulo 20, and the index, a
64-bit counter, wraps. The success average is the number of successes in the window divided by
20, as a single. The latency keeps a moving average: negative samples are ignored, a sample
replaces a latency below 0.00001 outright, and otherwise counts one tenth.
-/
namespace PeerRing.Host

def windowSize : Nat := 20

/-- Statistics of one peer record: the outcome slots (true for success) with the running index
of the next slot to write, the smoothed round-trip time in seconds, and the virtual time of the
last detected failure in milliseconds. -/
structure Stats where
  window : List Bool
  index : UInt64
  latency : Float
  failedAt : Option Nat

namespace Stats

/-- A fresh record: half failures, half successes, no latency and no failure. -/
def initial : Stats :=
  ⟨List.replicate 10 false ++ List.replicate 10 true, 0, 0.0, none⟩

/-- Records one send outcome. -/
def record (s : Stats) (success : Bool) : Stats :=
  { s with window := s.window.set (s.index.toNat % windowSize) success, index := s.index + 1 }

/-- Records the same outcome `n` times. -/
def recordTimes (s : Stats) (success : Bool) : Nat → Stats
  | 0 => s
  | n + 1 => (s.record success).recordTimes success n

def successes (s : Stats) : Nat := s.window.count true

/-- The success average, a multiple of 1/20. -/
def successAvg (s : Stats) : Float32 := s.successes.toFloat32 / 20

def isBadLink (s : Stats) (threshold : Float32) : Bool := s.successAvg < threshold

def healthy (s : Stats) : Bool := s.successAvg > 0.8

/-- Folds a round-trip sample, in seconds, into the smoothed latency. -/
def updateLatency (s : Stats) (sample : Float) : Stats :=
  if sample < 0.0 then s
  else if s.latency < 0.00001 then { s with latency := sample }
  else { s with latency := (1.0 - 0.1) * s.latency + 0.1 * sample }

def markFailed (s : Stats) (now : Nat) : Stats := { s with failedAt := some now }

/-- Whether the last failure happened less than `period` milliseconds before `now`. -/
def failedWithin (s : Stats) (now period : Nat) : Bool :=
  match s.failedAt with
  | some t => now - t < period
  | none => false

@[simp] theorem record_index (s : Stats) (b : Bool) : (s.record b).index = s.index + 1 := rfl

end Stats

end PeerRing.Host
