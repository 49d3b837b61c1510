import PeerRing.Config.Resolve
import PeerRing.Node.Status
import PeerRing.Json.Print
import PeerRing.Key.Hash
/-! # The node daemon's start

Resolves the configuration from the environment and the configuration file, writing the default
file first when there is none; a file that cannot be read or parsed leaves the defaults. The
node's key is the configured one, or a random one when none is configured; a configured key that
is not a key stops the start. The daemon then prints the status of its fresh node.
-/

open PeerRing

/-- Reads a file, none when it cannot be read. -/
def readText (p : String) : IO (Option String) := do
  try return some (← IO.FS.readFile p) catch _ => return none

/-- Writes the default configuration file with its directories; none when that fails. -/
def writeDefault (p : String) : IO (Option String) := do
  try
    if let some parent := Config.parentPath? p then
      if !parent.isEmpty then IO.FS.createDirAll parent
    IO.FS.writeFile p Config.defaultText
    return some Config.defaultText
  catch _ => return none

/-- A key of random bytes. -/
def randomKey : IO Key := do
  let bytes ← (List.range 20).mapM fun _ => do return (← IO.rand 0 255).toUInt8
  return Key.ofBytes bytes

def main : IO UInt32 := do
  let mut vars : List (String × String) := []
  for name in Config.environmentKeys do
    if let some v ← IO.getEnv name then vars := vars ++ [(name, v)]
  let env : Config.Env := { vars }
  let path := env.filePath
  let text ← match ← readText path with
    | some t => pure (some t)
    | none => writeDefault path
  let env := match text with
    | some t => { env with files := Config.Files.single path t }
    | none => env
  let config := match env.load with
    | .ok c => c
    | .error _ => {}
  let key ← if config.node.key.isEmpty then randomKey
    else match Key.ofHex config.node.key with
      | .ok k => pure k
      | .error e =>
        IO.eprintln ("Error: invalid node key in config: " ++ e.message)
        return 1
  let node := Node.create ⟨key, config.node.listenAddr⟩ config.overlay
  IO.println (node.status 0).toJson.render
  return 0
