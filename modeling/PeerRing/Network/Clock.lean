import PeerRing.Network.Stabilize
/-! # Running queued work and moving the clock

Queued tasks run one at a time, in the order they were queued, each to completion; a task may
queue more. Time moves only when asked to: the clock jumps to the earliest due timer, its work
runs together with everything it queues, and only then does time move again. A timer due at the
very end of the wait still runs. Timers of nodes that no longer exist do nothing.

A stabilization job started at time `s` runs at `s + P`, `s + 2P`, and so on, where `P` is the
check interval.

A runtime that gives no such guarantee may run its work in any order: any ready task next, or
any timer early or late. `Turn` is one move of such a runtime, and every interleaving of handler
tasks and background jobs is a sequence of turns.

Every loop here is bounded: a task queues more work only by a successful send, so a medium
that caps a step's sends bounds the tasks a step runs (`Medium.taskBudget`).
-/
namespace PeerRing.Network

/-- Runs one queued task. A message its receiver refuses is logged. -/
def runTask : Task → NetM Unit
  | .deliver r msg => do
    if let .error e ← handle r msg then
      if let some n ← getNode r then logEvent (.refused n.addr e)
  | .retryJoin r _ => do
    let some n ← getNode r | return
    if let some b := n.bootstrap then discard <| sendJoin r b

/-- Runs queued tasks until none is left, at most `fuel` of them. -/
def drainFor : Nat → NetM Unit
  | 0 => pure ()
  | fuel + 1 => do
    let w ← get
    match w.ready with
    | [] => pure ()
    | t :: rest =>
      set { w with ready := rest }
      runTask t
      drainFor fuel

/-- Runs queued tasks until none is left. -/
def drain : NetM Unit := do
  let w ← get
  drainFor (w.ready.length + w.medium.taskBudget)

/-- Runs the work of a timer that fell due; a stabilization job waits for its next turn. -/
def fire (t : Timer) : NetM Unit := do
  let some n ← getNode t.node | return
  match t.job with
  | .check runs =>
    let runs ← checkRun t.node runs
    let next : Timer := { t with due := t.due + n.config.checkIntervalMs, job := .check runs }
    modify fun w => { w with timers := w.timers ++ [next] }
  | .retryJoin =>
    if let some b := n.bootstrap then discard <| sendJoin t.node b

/-- The earliest of some timers; the first started on a tie. -/
def earliest : List Timer → Option Timer
  | [] => none
  | t :: ts =>
    match earliest ts with
    | some u => if u.due < t.due then some u else some t
    | none => some t

/-- Lets timers due by `target` fire in order, at most `fuel` of them. -/
def advanceFor (target : Nat) : Nat → NetM Unit
  | 0 => modify fun w => { w with now := target }
  | fuel + 1 => do
    let w ← get
    match earliest (w.timers.filter (·.due ≤ target)) with
    | none => set { w with now := target }
    | some t =>
      set { w with now := t.due, timers := w.timers.filter (·.id != t.id) }
      fire t
      drain
      if (← get).stormed then modify fun w => { w with now := target }
      else advanceFor target fuel

/-- Lets `ms` milliseconds pass. -/
def sleep (ms : Nat) : NetM Unit := do
  let w ← get
  let target := w.now + ms
  let turns := (w.timers.length + w.nodes.size + 1) * (ms / 1000 + 2) + w.medium.taskBudget
  advanceFor target turns

end PeerRing.Network
