import PeerRing.Config.Read
/-! # Finding and loading the configuration

The configuration file is `$RINGMESH_CONFIG` when that variable is set, even to the empty text;
otherwise `config.toml` in the `ringmesh` directory of `$XDG_CONFIG_HOME`, or of `.config` in
`$HOME`, or of `/tmp/.config` without a home. Loading reads that file when it exists (and fails
when it cannot be read or is not a valid configuration) and starts from the defaults when it
does not; then the environment overrides single settings: the listen address when it is a
socket address, the key and the bootstrap address as given, and the grace period and check
interval when they are whole numbers of 64 bits. Writing the default file creates its missing
parent directories, and leaves an existing path alone.

The environment is a set of variables and a tree of files and directories, so that resolution
can be reasoned about without any real file system. The tree answers as a system does: a path
is followed part by part, each part but the last must be a directory, and `.` and `..` are
steps within the tree, so `a/../b` needs the directory `a`. The parent of a path, which is
made before the file is written, is taken from the text of the path alone.
-/
namespace PeerRing.Config

/-- What stands at a place of a file tree. -/
inductive Entry where
  | file (text : String)
  | dir

/-- A place of a file tree, as the names leading to it: `/` first under the root directory, and
the empty list for the working directory. -/
abbrev Place := List String

/-- The place above a place; the root and the working directory are their own. -/
def Place.up (p : Place) : Place :=
  if p == ["/"] then p else p.dropLast

/-- Why a file operation failed. -/
inductive FsError where
  /-- Nothing stands at a place the operation needs. -/
  | notFound
  /-- A file stands where a directory is needed. -/
  | notDir
  /-- A directory stands where a file is needed. -/
  | isDir
  /-- Something already stands where a directory is to be made. -/
  | alreadyExists
  /-- The path has no parent to make first. -/
  | noParent

/-- A file tree: the entries below its root and working directories, which always exist. -/
structure Files where
  entries : List (Place × Entry) := []

/-- Appends a relative path to a path; an absolute one replaces it. -/
def joinPath (a b : String) : String :=
  if b.startsWith "/" || a.isEmpty then b
  else if a.endsWith "/" then a ++ b
  else a ++ "/" ++ b

/-- The components of a path as the library reads it: `/` first for an absolute path, `.` only
as the first component of a relative one, empty parts and other `.` parts dropped, and `..`
kept. -/
def components (p : String) : List String :=
  let parts := p.splitOn "/"
  let absolute := p.startsWith "/"
  let start := if absolute then ["/"] else if parts.head? == some "." then ["."] else []
  start ++ (parts.drop (if absolute then 0 else if start.isEmpty then 0 else 1)).filter
    fun part => !part.isEmpty && part != "."

/-- The text of a path given by its components. -/
def ofComponents : List String → String
  | "/" :: rest => "/" ++ "/".intercalate rest
  | cs => "/".intercalate cs

/-- The parent of a path: the path without its last component; none for the empty path and the
root. -/
def parentPath? (p : String) : Option String :=
  match (components p).reverse with
  | [] => none
  | "/" :: _ => none
  | _ :: rest => some (ofComponents rest.reverse)

namespace Files

/-- The entry at a place. -/
def lookup (fs : Files) (pl : Place) : Option Entry :=
  if pl == [] || pl == ["/"] then some .dir
  else (fs.entries.find? fun e => e.1 == pl).map (·.2)

/-- Walks the parts of a path from a directory: every part but the last must lead to a
directory, and the place of the last part is the result, whether or not anything stands
there. -/
def walk (fs : Files) : Place → List String → Except FsError Place
  | here, [] => .ok here
  | here, part :: rest =>
    let next := if part == "." then here else if part == ".." then here.up else here ++ [part]
    match rest with
    | [] => .ok next
    | _ =>
      match fs.lookup next with
      | some .dir => fs.walk next rest
      | some (.file _) => .error .notDir
      | none => .error .notFound

/-- Where a path leads, and whether it names a directory only (it ends in `/`, `.` or `..`).
The empty path leads nowhere. -/
def resolve (fs : Files) (p : String) : Except FsError (Place × Bool) := do
  if p.isEmpty then throw .notFound
  let parts := (p.splitOn "/").filter (!·.isEmpty)
  let start : Place := if p.startsWith "/" then ["/"] else []
  let here ← fs.walk start parts
  let dirOnly := p.endsWith "/" || parts.getLast? == some "." || parts.getLast? == some ".."
  return (here, dirOnly)

/-- What stands at a path. -/
def stat (fs : Files) (p : String) : Except FsError Entry := do
  let (here, dirOnly) ← fs.resolve p
  match fs.lookup here with
  | none => throw .notFound
  | some (.file t) => if dirOnly then throw .notDir else return .file t
  | some .dir => return .dir

/-- Whether something stands at a path. -/
def present (fs : Files) (p : String) : Bool :=
  match fs.stat p with
  | .ok _ => true
  | .error _ => false

/-- Whether a directory stands at a path. -/
def isDirAt (fs : Files) (p : String) : Bool :=
  match fs.stat p with
  | .ok .dir => true
  | _ => false

/-- Makes one directory, whose parent must exist. -/
def mkdir (fs : Files) (p : String) : Except FsError Files := do
  let (here, _) ← fs.resolve p
  match fs.lookup here with
  | some _ => throw .alreadyExists
  | none => return { entries := fs.entries ++ [(here, .dir)] }

/-- Writes a file, replacing one that stands there; its directory must exist. -/
def write (fs : Files) (p : String) (text : String) : Except FsError Files := do
  let (here, dirOnly) ← fs.resolve p
  match fs.lookup here with
  | some .dir => throw .isDir
  | some (.file _) =>
    if dirOnly then throw .notDir
    else return { entries := fs.entries.map fun e => if e.1 == here then (here, .file text) else e }
  | none =>
    if dirOnly then throw .isDir
    else return { entries := fs.entries ++ [(here, .file text)] }

/-- Reads a file. -/
def read (fs : Files) (p : String) : Except FsError String := do
  match ← fs.stat p with
  | .file t => return t
  | .dir => throw .isDir

/-- Makes a directory and its missing ancestors: it tries the directory itself, makes its
parent first when that is missing, and accepts a directory that is already there. The fuel
bounds the ancestors, each of which has fewer components. -/
def mkdirAllFor : Nat → Files → String → Except FsError Files
  | 0, _, _ => .error .noParent
  | fuel + 1, fs, p =>
    if components p == [] then .ok fs
    else
      match fs.mkdir p with
      | .ok fs => .ok fs
      | .error .notFound =>
        match parentPath? p with
        | none => .error .noParent
        | some q => do
          let fs ← mkdirAllFor fuel fs q
          match fs.mkdir p with
          | .ok fs => .ok fs
          | .error e => if fs.isDirAt p then .ok fs else .error e
      | .error e => if fs.isDirAt p then .ok fs else .error e

/-- Makes a directory and its missing ancestors. -/
def mkdirAll (fs : Files) (p : String) : Except FsError Files :=
  mkdirAllFor ((components p).length + 1) fs p

/-- Writes a file after making its missing ancestors. -/
def writeWithParents (fs : Files) (p : String) (text : String) : Except FsError Files := do
  let fs ← match parentPath? p with
    | some q => fs.mkdirAll q
    | none => pure fs
  fs.write p text

end Files

/-- A file tree holding one file, with its parent directories. -/
def Files.single (p : String) (text : String) : Files :=
  let fs : Files := {}
  match fs.writeWithParents p text with
  | .ok fs => fs
  | .error _ => fs

/-- Why resolving the configuration failed. -/
inductive Error where
  | readFailed
  | parseFailed
  | writeFailed

/-- The name of an error kind. -/
def Error.kindName : Error → String
  | .readFailed => "ReadFailed"
  | .parseFailed => "ParseFailed"
  | .writeFailed => "WriteFailed"

/-- The environment variables resolution reads. -/
def environmentKeys : List String :=
  ["RINGMESH_CONFIG", "XDG_CONFIG_HOME", "HOME", "RINGMESH_NODE__LISTEN_ADDR", "RINGMESH_NODE__KEY",
    "RINGMESH_NODE__BOOTSTRAP", "RINGMESH_OVERLAY__GRACE_PERIOD_SECS",
    "RINGMESH_OVERLAY__CHECK_INTERVAL_SECS"]

/-- Environment variables and a file tree. -/
structure Env where
  vars : List (String × String) := []
  files : Files := {}

namespace Env

def var? (env : Env) (name : String) : Option String := (env.vars.find? (·.1 == name)).map (·.2)

/-- The directory of the configuration file. -/
def configDir (env : Env) : String :=
  match env.var? "XDG_CONFIG_HOME" with
  | some x => joinPath x "ringmesh"
  | none => joinPath (joinPath ((env.var? "HOME").getD "/tmp") ".config") "ringmesh"

/-- The path of the configuration file. -/
def filePath (env : Env) : String :=
  (env.var? "RINGMESH_CONFIG").getD (joinPath env.configDir "config.toml")

/-- Reads a configuration file. -/
def fromFile (env : Env) (p : String) : Except Error Ring :=
  match env.files.read p with
  | .ok text =>
    match Ring.parse text with
    | some c => .ok c
    | none => .error .parseFailed
  | .error _ => .error .readFailed

/-- A whole number of 64 bits, with an optional `+`. -/
def parseWord (s : String) : Option Nat :=
  let ds := match s.toList with
    | '+' :: r => r
    | r => r
  if !ds.isEmpty && ds.all Char.isDigit then
    let n := ds.foldl (fun n c => n * 10 + (c.toNat - '0'.toNat)) 0
    if n < Nat.pow 2 64 then some n else none
  else none

/-- Applies the settings the environment overrides. -/
def override (env : Env) (c : Ring) : Ring :=
  let node := c.node
  let node := match (env.var? "RINGMESH_NODE__LISTEN_ADDR").bind Net.SocketAddr.parse? with
    | some a => { node with listenAddr := a }
    | none => node
  let node := match env.var? "RINGMESH_NODE__KEY" with
    | some k => { node with key := k }
    | none => node
  let node := match env.var? "RINGMESH_NODE__BOOTSTRAP" with
    | some b => { node with bootstrap := b }
    | none => node
  let overlay := c.overlay
  let overlay := match (env.var? "RINGMESH_OVERLAY__GRACE_PERIOD_SECS").bind parseWord with
    | some n => { overlay with gracePeriodSecs := n }
    | none => overlay
  let overlay := match (env.var? "RINGMESH_OVERLAY__CHECK_INTERVAL_SECS").bind parseWord with
    | some n => { overlay with checkIntervalSecs := n }
    | none => overlay
  { node, overlay }

/-- Loads the configuration: the file if it exists, else the defaults, then the overrides. -/
def load (env : Env) : Except Error Ring := do
  let p := env.filePath
  let base ← if env.files.present p then env.fromFile p else pure {}
  return env.override base

/-- Writes the default configuration file unless something is at its path, making its parent
directory first; gives the path. -/
def writeDefault (env : Env) : Except Error (Env × String) :=
  let p := env.filePath
  if env.files.present p then .ok (env, p)
  else
    match env.files.writeWithParents p defaultText with
    | .ok files => .ok ({ env with files }, p)
    | .error _ => .error .writeFailed

end Env

end PeerRing.Config
