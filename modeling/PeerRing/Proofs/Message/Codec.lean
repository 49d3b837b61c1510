import PeerRing.Message.Codec
import PeerRing.Proofs.Json.Read
import PeerRing.Proofs.Key.Text
import Mathlib
/-! # Messages read back from their bytes

The body of a message reads back as that message when the message passes its schema, and as
the schema's complaint when it does not. Its JSON is plain: whole numbers, strings, and objects
and arrays nested five deep. Keys read back from their digits. The texts of socket addresses
are taken to read back as the addresses they were written from.
-/
namespace PeerRing.Message

open Json Net

/-- The host addresses an argument carries. -/
def Arg.nodeAddrs : Arg → List NodeAddr
  | .addr a => [a]
  | .addrList as => as
  | .str _ => []

/-- Every socket address a message carries reads back from its text. -/
def AddrTextsReadBack (m : Message) : Prop :=
  ∀ arg ∈ m.args, ∀ a ∈ arg.nodeAddrs, SocketAddr.parse? a.addr.toText = some a.addr

theorem mapM_map_of_readBack {α β : Type} {f : β → Option α} {g : α → β} {l : List α}
    (h : ∀ a ∈ l, f (g a) = some a) : (l.map g).mapM f = some l := by
  induction l with
  | nil => rfl
  | cons a l ih =>
    simp [h a List.mem_cons_self, ih fun b hb => h b (List.mem_cons_of_mem a hb)]

section Plain

theorem plain_nodeAddrJson (a : NodeAddr) : Plain 1 (nodeAddrJson a) := by
  refine .obj fun f hf => ?_
  simp only [List.mem_cons, List.not_mem_nil, or_false] at hf
  rcases hf with rfl | rfl <;> exact .str 0 _

theorem plain_argToJson (arg : Arg) : Plain 3 arg.toJson := by
  -- every argument is a tag and a value nested at most twice
  have htagged : ∀ (t : String) (v : Value), Plain 2 v →
      Plain 3 (.obj [("type", .str t), ("value", v)]) := by
    intro t v hv
    refine .obj fun f hf => ?_
    simp only [List.mem_cons, List.not_mem_nil, or_false] at hf
    rcases hf with rfl | rfl
    · exact .str 2 t
    · exact hv
  cases arg with
  | addr a => exact htagged "addr" _ ((plain_nodeAddrJson a).mono (by decide))
  | addrList as =>
    refine htagged "addr_list" _ (.arr fun v hv => ?_)
    obtain ⟨a, -, rfl⟩ := List.mem_map.mp hv
    exact plain_nodeAddrJson a
  | str s => exact htagged "str" _ (.str 2 s)

theorem plain_toJson (m : Message) : Plain 5 m.toJson := by
  have hcode : m.kind.code ≤ maxWord := by cases m.kind <;> decide
  have hargs : Plain 4 (.arr (m.args.map Arg.toJson)) := by
    refine .arr fun v hv => ?_
    obtain ⟨arg, -, rfl⟩ := List.mem_map.mp hv
    exact plain_argToJson arg
  refine .obj fun f hf => ?_
  simp only [List.mem_cons, List.not_mem_nil, or_false] at hf
  rcases hf with rfl | rfl | rfl | rfl
  · exact .nat 4 hcode
  · exact .str 4 _
  · exact .str 4 _
  · exact hargs

end Plain

section Read

theorem nodeAddrOfJson?_nodeAddrJson {a : NodeAddr}
    (h : SocketAddr.parse? a.addr.toText = some a.addr) :
    nodeAddrOfJson? (nodeAddrJson a) = some a := by
  simp [nodeAddrOfJson?, recordFields, nodeAddrJson, Value.get?, keyOfJson?, Key.ofHex_toHex, h,
    Except.toOption]

theorem argOfJson?_toJson {arg : Arg}
    (h : ∀ a ∈ arg.nodeAddrs, SocketAddr.parse? a.addr.toText = some a.addr) :
    argOfJson? arg.toJson = some arg := by
  cases arg with
  | addr a =>
    simp [argOfJson?, Arg.toJson, Value.get?, argTagOfJson?,
      nodeAddrOfJson?_nodeAddrJson (h a (by simp [Arg.nodeAddrs]))]
  | addrList as =>
    have hitems : (as.map nodeAddrJson).mapM nodeAddrOfJson? = some as :=
      mapM_map_of_readBack fun a ha => nodeAddrOfJson?_nodeAddrJson (h a ha)
    simp [argOfJson?, Arg.toJson, Value.get?, argTagOfJson?, hitems]
  | str s => simp [argOfJson?, Arg.toJson, Value.get?, argTagOfJson?]

theorem ofJson?_toJson {m : Message} (h : m.AddrTextsReadBack) : ofJson? m.toJson = some m := by
  have hargs : (m.args.map Arg.toJson).mapM argOfJson? = some m.args :=
    mapM_map_of_readBack fun arg harg => argOfJson?_toJson (h arg harg)
  simp [ofJson?, recordFields, toJson, Value.get?, kindOfJson?, Value.ofNat, keyOfJson?,
    Key.ofHex_toHex, Kind.ofCode?_code, hargs, Except.toOption]

theorem ofValue_toJson {m : Message} (h : m.AddrTextsReadBack) :
    ofValue m.toJson = m.validate.map fun _ => m := by
  have hkind : (m.toJson.get? "kind").bind Value.getNat? = some m.kind.code := by
    simp [toJson, Value.get?, Value.getNat?, Value.ofNat]
  simp [ofValue, hkind, Kind.ofCode?_code, ofJson?_toJson h]

/-- A message's body reads back as the message when it passes its schema, and as the schema's
complaint when it does not. -/
theorem decode_encode {m : Message} (h : m.AddrTextsReadBack) :
    decode m.encode = m.validate.map fun _ => m := by
  rw [decode, encode, Json.parseBytes_toUTF8, encodeText,
    Json.parse_render (plain_toJson m) (by decide)]
  exact ofValue_toJson h

end Read

end PeerRing.Message
