/-! # TOML values and documents

A TOML document is a table of keys. While a document is read, every table remembers how it
came to exist, because that decides what may still be added to it:

* a table named by a `[header]` is *defined*; it cannot be defined again;
* a table that only exists because a longer header or a dotted key passed through it is
  *implicit*; a header may still define it later, unless dotted keys created it;
* a table created by dotted keys (`a.b = 1`) is *dotted*; only dotted keys may add to it;
* an inline table or an array written as a value is closed: nothing may add to it;
* an array of tables (`[[header]]`) gets one element per header, and keys and headers below it
  go to its last element.

A key may be given only once per table.
-/
namespace PeerRing.Toml

/-- A TOML value. -/
inductive Value where
  | str (s : String)
  | int (n : Int)
  | float (x : Float)
  | bool (b : Bool)
  /-- A date, a time or both, kept as written. -/
  | datetime (text : String)
  | arr (items : List Value)
  | table (fields : List (String × Value))

instance : Inhabited Value := ⟨.table []⟩

/-- An entry of a table while a document is read. -/
inductive Item where
  /-- A value written after `=`, closed to additions. -/
  | value (v : Value)
  /-- A table; `implicit` until a header defines it, `dotted` when dotted keys created it. -/
  | table (implicit dotted : Bool) (entries : List (String × Item))
  /-- An array of tables, each given by its entries. -/
  | tables (items : List (List (String × Item)))

abbrev Entries := List (String × Item)

def Entries.lookup (es : Entries) (k : String) : Option Item := (List.find? (·.1 == k) es).map (·.2)

/-- Replaces the entry of a key. -/
def Entries.put (es : Entries) (k : String) (i : Item) : Entries :=
  es.map fun e => if e.1 == k then (k, i) else e

def Entries.erase (es : Entries) (k : String) : Entries := es.filter (·.1 != k)

/-- Applies `f` to the table at `path` below a table, creating missing tables on the way
(implicit, and dotted when `dotted`). On the way, a closed value refuses, an array of tables
leads to its last element, and a table that a header defined refuses dotted keys. `f` sees
whether the table it reaches is dotted. -/
def Entries.modifyAt (dotted : Bool) (f : Bool → Entries → Option (Entries × α)) :
    List String → Bool → Entries → Option (Entries × α)
  | [], isDotted, es => f isDotted es
  | k :: ks, _, es =>
    match es.lookup k with
    | none => do
      let (sub, a) ← modifyAt dotted f ks dotted []
      return (es ++ [(k, .table true dotted sub)], a)
    | some (.value _) => none
    | some (.tables ts) =>
      match ts.getLast? with
      | none => none
      | some last => do
        let (sub, a) ← modifyAt dotted f ks false last
        return (es.put k (.tables (ts.dropLast ++ [sub])), a)
    | some (.table imp dot sub) =>
      if dotted && !imp then none
      else do
        let (sub, a) ← modifyAt dotted f ks dot sub
        return (es.put k (.table imp dot sub), a)

/-- Adds `key = v` under the dotted prefix `path` of a table. Dotted keys may only reach
tables that dotted keys created, and the key must be new there. -/
def Entries.insertAt (es : Entries) (path : List String) (key : String) (v : Item) :
    Option Entries :=
  let place (isDotted : Bool) (t : Entries) : Option (Entries × Unit) :=
    if isDotted == path.isEmpty then none
    else if (t.lookup key).isSome then none
    else some (t ++ [(key, v)], ())
  (es.modifyAt true place path false).map (·.1)

mutual
/-- The value of an entry. -/
def Item.toValue : Item → Value
  | .value v => v
  | .table _ _ es => .table (entriesToValue es)
  | .tables ts => .arr (tablesToValue ts)

/-- The fields of entries. -/
def entriesToValue : Entries → List (String × Value)
  | [] => []
  | (k, i) :: rest => (k, i.toValue) :: entriesToValue rest

/-- The tables of an array of tables. -/
def tablesToValue : List Entries → List Value
  | [] => []
  | t :: rest => .table (entriesToValue t) :: tablesToValue rest
end

/-- The value of a field of a table value. -/
def Value.get? (v : Value) (k : String) : Option Value :=
  match v with
  | .table fs => (fs.find? (·.1 == k)).map (·.2)
  | _ => none

end PeerRing.Toml
