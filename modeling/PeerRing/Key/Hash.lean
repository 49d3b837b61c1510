import PeerRing.Key.Basic
import PeerRing.Digest.Blake3
/-! # Keys of data

The key of a piece of data is the first 20 bytes of its BLAKE3 digest, read big-endian.
-/
namespace PeerRing.Key

/-- The key of a piece of data. -/
def hash (bytes : List UInt8) : Key :=
  ofBytes ((Digest.Blake3.digest bytes).take 20)

/-- The key of a text: the key of its UTF-8 bytes. -/
def hashText (s : String) : Key := hash s.toUTF8.toList

end PeerRing.Key
