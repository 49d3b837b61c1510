import PeerRing.Toml.Scalar
/-! # Reading a TOML document

A document is read line by line. A line is blank, a comment, a key-value pair, a `[table]`
header or an `[[array of tables]]` header; whatever it holds may be followed by blanks and a
comment. Key-value pairs go to the table of the last header, or to the top-level table before
the first one. Arrays may span lines and hold comments; inline tables stay on one line and
have no trailing comma. An array or inline table nested `nestingLimit` deep is refused.

A table being filled is kept apart from the document and put in place when the next header
comes or the text ends, following the rules of `PeerRing.Toml.Value`.
-/
namespace PeerRing.Toml

mutual
/-- A value inside `depth` arrays and inline tables: a string, an array, an inline table, or a
number, boolean, date or time. -/
def value : Nat → Nat → Step Value
  | 0, _, _ => none
  | fuel + 1, depth, s =>
    match s with
    | '"' :: '"' :: '"' :: r => (mlBasicBody r.length [] (dropFirstBreak r)).map fun (t, r) => (.str t, r)
    | '"' :: r => (basicBody [] r).map fun (t, r) => (.str t, r)
    | '\'' :: '\'' :: '\'' :: r => (mlLiteralBody [] (dropFirstBreak r)).map fun (t, r) => (.str t, r)
    | '\'' :: r => (literalBody [] r).map fun (t, r) => (.str t, r)
    | '[' :: r =>
      if depth + 1 ≥ nestingLimit then none
      else do
        let r ← skipGap false r
        let (items, r) ← arrayItems fuel (depth + 1) [] r
        return (.arr items, r)
    | '{' :: r =>
      if depth + 1 ≥ nestingLimit then none
      else
        match skipBlank r with
        | '}' :: r => some (.table [], r)
        | r => do
          let (es, r) ← inlineFields fuel (depth + 1) [] r
          return (.table (entriesToValue es), r)
    | _ => scalar s

/-- The items of an array at the given depth after its opening bracket or a comma, with the gap
before them skipped. -/
def arrayItems : Nat → Nat → List Value → Step (List Value)
  | 0, _, _, _ => none
  | _ + 1, _, acc, ']' :: r => some (acc, r)
  | fuel + 1, depth, acc, s => do
    let (v, r) ← value fuel depth s
    match ← skipGap false r with
    | ',' :: r => arrayItems fuel depth (acc ++ [v]) (← skipGap false r)
    | ']' :: r => some (acc ++ [v], r)
    | _ => none

/-- The fields of an inline table at the given depth, from one that starts here to the closing
brace. -/
def inlineFields : Nat → Nat → Entries → Step Entries
  | 0, _, _, _ => none
  | fuel + 1, depth, es, s => do
    let (keys, r) ← dottedKey s
    let r ← expect '=' (skipBlank r)
    let (v, r) ← value fuel depth (skipBlank r)
    let es ← es.insertAt keys.dropLast (keys.getLastD "") (.value v)
    match skipBlank r with
    | ',' :: r => inlineFields fuel depth es (skipBlank r)
    | '}' :: r => some (es, r)
    | _ => none
end

/-- A document being read: the tables put in place so far, the table being filled, and the
header it came from, if any. -/
structure Doc where
  root : Entries := []
  current : Entries := []
  header : List String := []
  isArray : Bool := false

namespace Doc

/-- Puts the table being filled in place and gives the document's tables. -/
def close (d : Doc) : Option Entries :=
  match d.header.getLast? with
  | none => some d.current
  | some last =>
    let place (_ : Bool) (es : Entries) : Option (Entries × Unit) :=
      match es.lookup last, d.isArray with
      | none, true => some (es ++ [(last, .tables [d.current])], ())
      | some (.tables ts), true => some (es.put last (.tables (ts ++ [d.current])), ())
      | none, false => some (es ++ [(last, .table false false d.current)], ())
      | some (.table true _ _), false => some (es.put last (.table false false d.current), ())
      | _, _ => none
    (d.root.modifyAt false place d.header.dropLast false).map (·.1)

/-- Starts the table of a `[header]`. A table that only longer headers created becomes the
one being filled; any other entry under that key refuses. -/
def openTable (d : Doc) (header : List String) : Option Doc := do
  let root ← d.close
  let last := header.getLastD ""
  let take (_ : Bool) (es : Entries) : Option (Entries × Entries) :=
    match es.lookup last with
    | none => some (es, [])
    | some (.table true false sub) => some (es.erase last, sub)
    | some _ => none
  let (root, current) ← root.modifyAt false take header.dropLast false
  return { root, current, header, isArray := false }

/-- Starts a new element of the array of tables of a `[[header]]`. -/
def openArray (d : Doc) (header : List String) : Option Doc := do
  let root ← d.close
  let last := header.getLastD ""
  let make (_ : Bool) (es : Entries) : Option (Entries × Unit) :=
    match es.lookup last with
    | none => some (es ++ [(last, .tables [])], ())
    | some (.tables _) => some (es, ())
    | some _ => none
  let (root, _) ← root.modifyAt false make header.dropLast false
  return { root, current := [], header, isArray := true }

/-- Adds a key-value pair to the table being filled. -/
def add (d : Doc) (keys : List String) (v : Value) : Option Doc := do
  let current ← d.current.insertAt keys.dropLast (keys.getLastD "") (.value v)
  return { d with current }

end Doc

/-- Reads a header's key and its closing brackets. -/
def header (close : Input → Option Input) (s : Input) : Option (List String × Input) := do
  let (keys, r) ← dottedKey (skipBlank s)
  let r ← close (skipBlank r)
  return (keys, r)

/-- Reads the lines of a document. -/
def lines : Nat → Doc → Input → Option Entries
  | 0, _, _ => none
  | fuel + 1, d, s =>
    match skipBlank s with
    | [] => d.close
    | '\n' :: r => lines fuel d r
    | '\r' :: '\n' :: r => lines fuel d r
    | '#' :: r => do lines fuel d (← lineEnd ('#' :: r))
    | '[' :: '[' :: r => do
      let (keys, r) ← header (fun r => expect ']' r >>= expect ']') r
      lines fuel (← d.openArray keys) (← lineEnd r)
    | '[' :: r => do
      let (keys, r) ← header (expect ']') r
      lines fuel (← d.openTable keys) (← lineEnd r)
    | r => do
      let (keys, r) ← dottedKey r
      let r ← expect '=' (skipBlank r)
      let (v, r) ← value r.length 0 (skipBlank r)
      lines fuel (← d.add keys v) (← lineEnd r)

/-- Reads a TOML document as its top-level table; none if the text is not valid TOML. -/
def parse (text : String) : Option Value :=
  let s := match text.toList with
    | '\uFEFF' :: r => r
    | r => r
  (lines (s.length + 1) {} s).map fun es => .table (entriesToValue es)

end PeerRing.Toml
