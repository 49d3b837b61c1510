import PeerRing.Frame
import PeerRing.Proofs.Message.Codec
import PeerRing.Proofs.Text.Digits
import Mathlib
/-! # Datagram frames read back

The header of a frame reads back field by field: the magic number, the version, the flags and
the sequence number sit where the reader looks for them, and the body starts right after the
sixteen header bytes. So an acknowledgement reads back as itself, and a data frame, unless it
is too long to send, reads back as its message when the message passes its schema and as the
schema's complaint when it does not.
-/
namespace PeerRing.Frame

theorem length_bigEndian (w n : Nat) : (bigEndian w n).length = w := by
  simp [bigEndian]

/-- Big-endian bytes read back as the number modulo the bytes' range. -/
theorem ofBigEndian_bigEndian (w n : Nat) : ofBigEndian (bigEndian w n) = n % 256 ^ w := by
  have hbytes : (bigEndian w n).map UInt8.toNat = (List.range w).reverse.map fun i => n / 256 ^ i % 256 := by
    simp [bigEndian, Function.comp_def, Nat.pow_eq]
  rw [ofBigEndian, ← List.foldl_map, hbytes, Text.foldl_digits]

theorem magic_bigEndian : ofBigEndian (bigEndian 4 magic) = magic := by
  decide

/-- A header followed by a body, split where the reader splits it. -/
theorem header_append (flags : Nat) (seq : UInt64) (body : List UInt8) :
    header flags seq ++ body =
      bigEndian 4 magic ++ version.toUInt8 :: flags.toUInt8 :: 0 :: 0 :: (bigEndian 8 seq.toNat ++ body) := by
  simp [header]

theorem length_header_append (flags : Nat) (seq : UInt64) (body : List UInt8) :
    (header flags seq ++ body).length = headerLen + body.length := by
  rw [header_append]
  simp [length_bigEndian, headerLen]
  omega

theorem header_fields (flags : Nat) (seq : UInt64) (body : List UInt8) :
    ofBigEndian ((header flags seq ++ body).take 4) = magic ∧
      ((header flags seq ++ body).getD 4 0).toNat = version ∧
      ((header flags seq ++ body).getD 5 0).toNat = flags % 256 ∧
      (ofBigEndian (((header flags seq ++ body).drop 8).take 8)).toUInt64 = seq ∧
      (header flags seq ++ body).drop headerLen = body := by
  have h4 := length_bigEndian 4 magic
  have h8 := length_bigEndian 8 seq.toNat
  rw [header_append]
  refine ⟨?_, ?_, ?_, ?_, ?_⟩
  · rw [List.take_left' h4, magic_bigEndian]
  · rw [List.getD_eq_getElem?_getD, List.getElem?_append_right (by omega), h4]
    rfl
  · rw [List.getD_eq_getElem?_getD, List.getElem?_append_right (by omega), h4]
    simp
  · have hdrop : (bigEndian 4 magic ++ version.toUInt8 :: flags.toUInt8 :: 0 :: 0 ::
        (bigEndian 8 seq.toNat ++ body)).drop 8 = bigEndian 8 seq.toNat ++ body := by
      simp [List.drop_append, h4]
    have hlt : seq.toNat < 256 ^ 8 := seq.toNat_lt_size
    rw [hdrop, List.take_left' h8, ofBigEndian_bigEndian, Nat.mod_eq_of_lt hlt]
    exact UInt64.ofNat_toNat
  · simp [List.drop_append, h4, h8, headerLen, List.drop_eq_nil_of_le]

/-- A data header followed by a body reads as the body's message, or as its complaint. -/
theorem decode_data (seq : UInt64) (body : List UInt8) :
    decode (header flagData seq ++ body) =
      ((Message.decode body).map (Frame.data seq)).mapError Error.message := by
  obtain ⟨hm, hv, hf, hs, hb⟩ := header_fields flagData seq body
  have hlen := length_header_append flagData seq body
  rw [decode, if_neg (by omega)]
  simp only [hm, hv, hf, hs, hb, ne_eq, not_true_eq_false, if_false]
  cases Message.decode body <;> rfl

theorem decode_encodeAck (seq : UInt64) : decode (encodeAck seq) = .ok (.ack seq) := by
  obtain ⟨hm, hv, hf, hs, -⟩ := header_fields flagAck seq []
  have hlen := length_header_append flagAck seq []
  have hack : ((header flagAck seq ++ []).getD 5 0).toNat = flagAck := hf
  rw [List.append_nil] at hm hv hack hs hlen
  rw [encodeAck, decode, if_neg (by omega)]
  simp only [hm, hv, hack, hs, ne_eq, not_true_eq_false, if_false, if_true]

/-- A data frame is refused exactly when header and body together are longer than a
datagram; otherwise it is the header followed by the body. -/
theorem encodeData_spec (seq : UInt64) (m : Message) :
    ((∃ n, encodeData seq m = .error (.tooLarge n)) ↔ maxDatagram < headerLen + m.encode.length) ∧
      (headerLen + m.encode.length ≤ maxDatagram →
        encodeData seq m = .ok (header flagData seq ++ m.encode)) := by
  have hlen := length_header_append flagData seq m.encode
  by_cases hbig : maxDatagram < headerLen + m.encode.length
  · have hgt : (header flagData seq ++ m.encode).length > maxDatagram := by omega
    refine ⟨iff_of_true ⟨(header flagData seq ++ m.encode).length, ?_⟩ hbig, fun h => absurd h (by omega)⟩
    simp only [encodeData, if_pos hgt]
  · have hle : ¬ (header flagData seq ++ m.encode).length > maxDatagram := by omega
    refine ⟨iff_of_false ?_ hbig, fun _ => by simp only [encodeData, if_neg hle]⟩
    rintro ⟨n, hn⟩
    simp only [encodeData, if_neg hle, reduceCtorEq] at hn

/-- Datagrams read back: an acknowledgement as itself; a data frame is refused as too large
exactly when it would exceed a datagram, and otherwise reads back as its message when the
message passes its schema and as the schema's complaint when it does not; and a message body
reads back as its message exactly when the message passes its schema. The texts of the socket
addresses the message carries are taken to read back. -/
theorem datagram_roundtrip (seq : UInt64) (m : Message) (h : m.AddrTextsReadBack) :
    decode (encodeAck seq) = .ok (.ack seq) ∧
      ((∃ n, encodeData seq m = .error (.tooLarge n)) ↔ maxDatagram < headerLen + m.encode.length) ∧
      (headerLen + m.encode.length ≤ maxDatagram →
        ∃ bytes, encodeData seq m = .ok bytes ∧
          decode bytes = (m.validate.map fun _ => Frame.data seq m).mapError Error.message) ∧
      (Message.decode m.encode = .ok m ↔ m.validate = .ok ()) := by
  obtain ⟨htoo, hfits⟩ := encodeData_spec seq m
  have hbody := Message.decode_encode h
  refine ⟨decode_encodeAck seq, htoo, fun hle => ⟨_, hfits hle, ?_⟩, ?_⟩
  · rw [decode_data, hbody]
    cases m.validate <;> rfl
  · rw [hbody]
    cases m.validate <;> simp [Except.map]

/-- A ping naming the host `127.0.0.1:5001`. -/
def pingSample : Message :=
  Message.ping (Key.ofNat 1) (Key.ofNat 2) ⟨Key.ofNat 3, .v4 (127, 0, 0, 1) 5001⟩

theorem pingSample_roundtrip :
    pingSample.AddrTextsReadBack ∧
      decode (encodeAck 7) = .ok (.ack 7) ∧
      ((∃ n, encodeData 7 pingSample = .error (.tooLarge n)) ↔
        maxDatagram < headerLen + pingSample.encode.length) ∧
      (headerLen + pingSample.encode.length ≤ maxDatagram →
        ∃ bytes, encodeData 7 pingSample = .ok bytes ∧
          decode bytes = (pingSample.validate.map fun _ => Frame.data 7 pingSample).mapError Error.message) ∧
      (Message.decode pingSample.encode = .ok pingSample ↔ pingSample.validate = .ok ()) := by
  have h : pingSample.AddrTextsReadBack := by
    intro arg harg a ha
    simp only [pingSample, Message.ping, List.mem_singleton] at harg
    subst harg
    simp only [Message.Arg.nodeAddrs, List.mem_singleton] at ha
    subst ha
    decide
  exact ⟨h, datagram_roundtrip 7 pingSample h⟩

end PeerRing.Frame
