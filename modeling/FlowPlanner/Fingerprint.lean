/-
FlowPlanner.Fingerprint — fingerprints of bytes.

A fingerprint is the 32-byte BLAKE3 hash. The bytes are cut into chunks of 1024,
each chunk into blocks of 64. The blocks of a chunk are compressed one after the
other; the chunks are the leaves of a binary tree, in which neighbours are
joined level by level and an odd last one moves up as it is.
-/
import FlowPlanner.Fingerprint.Compression
import FlowPlanner.Json

namespace FlowPlanner

/-- The hash of some bytes, 32 bytes long. -/
structure Fingerprint where
  bytes : List UInt8
deriving DecidableEq

namespace Fingerprint

/-! ## §1 Chunks -/

/-- Cut a list into pieces of `size`, the last one perhaps shorter; `fuel` bounds the cuts. -/
def piecesWithin (size : Nat) : Nat → List UInt8 → List (List UInt8)
  | 0, bytes => [bytes]
  | fuel + 1, bytes =>
    match bytes.drop size with
    | [] => [bytes]
    | rest => bytes.take size :: piecesWithin size fuel rest

/-- Cut a list into pieces of `size`; the empty list is one empty piece. -/
def pieces (size : Nat) (bytes : List UInt8) : List (List UInt8) :=
  piecesWithin size bytes.length bytes

/-- Four bytes as a word, the lowest first. -/
def word (bytes : Array UInt8) (i : Nat) : UInt32 :=
  let byte := fun j => (bytes.getD (4 * i + j) 0).toUInt32
  byte 0 ||| (byte 1 <<< 8) ||| (byte 2 <<< 16) ||| (byte 3 <<< 24)

/-- A block of at most 64 bytes, filled up with zeros. -/
def block (bytes : List UInt8) : Block :=
  let bytes := bytes.toArray
  Vector.ofFn fun (i : Fin 16) => word bytes i.val

/-- The block opens a chunk. -/
def chunkStart : UInt32 := 1

/-- The block closes a chunk. -/
def chunkEnd : UInt32 := 2

/-- The compression joins two subtrees. -/
def parentFlag : UInt32 := 4

/-- The compression is the last one. -/
def rootFlag : UInt32 := 8

/-- Compress the blocks of a chunk up to the last, which stays pending. -/
def chunkFrom (counter : UInt64) (chaining : Chaining) (flags : UInt32) :
    List (List UInt8) → Pending
  | [] => ⟨chaining, block [], counter, 0, flags ||| chunkEnd⟩
  | [last] => ⟨chaining, block last, counter, last.length.toUInt32, flags ||| chunkEnd⟩
  | bytes :: rest =>
    let step : Pending := ⟨chaining, block bytes, counter, bytes.length.toUInt32, flags⟩
    chunkFrom counter (step.finish 0) 0 rest

/-- A chunk with its number. -/
def chunk (bytes : List UInt8) (index : Nat) : Pending :=
  chunkFrom index.toUInt64 start chunkStart (pieces 64 bytes)

/-! ## §2 The tree -/

/-- Two subtrees joined. -/
def join (left right : Pending) : Pending :=
  ⟨start, left.finish 0 ++ right.finish 0, 0, 64, parentFlag⟩

/-- Neighbours joined; an odd last one stays. -/
def joinNeighbours : List Pending → List Pending
  | left :: right :: rest => join left right :: joinNeighbours rest
  | rest => rest

/-- The root above some subtrees; `fuel` bounds the levels. -/
def rootOf : Nat → Pending → List Pending → Pending
  | 0, first, _ => first
  | fuel + 1, first, rest =>
    match joinNeighbours (first :: rest) with
    | [] => first
    | [root] => root
    | first :: rest => rootOf fuel first rest

/-- The bytes of a word, the lowest first. -/
def wordBytes (w : UInt32) : List UInt8 :=
  [w.toUInt8, (w >>> 8).toUInt8, (w >>> 16).toUInt8, (w >>> 24).toUInt8]

/-- The fingerprint of some bytes. -/
def ofBytes (bytes : List UInt8) : Fingerprint :=
  match (pieces 1024 bytes).mapIdx fun index piece => chunk piece index with
  | [] => ⟨[]⟩
  | first :: rest =>
    ⟨((rootOf rest.length first rest).finish rootFlag).toList.flatMap wordBytes⟩

/-- The fingerprint of a text. -/
def ofText (s : String) : Fingerprint := ofBytes s.toUTF8.toList

/-! ## §3 Text -/

/-- All bytes in hexadecimal. -/
def hex (f : Fingerprint) : String := String.join (f.bytes.map fun b => Json.hexByte b.toNat)

/-- The first twelve digits. -/
def short (f : Fingerprint) : String := String.ofList (f.hex.toList.take 12)

end Fingerprint

end FlowPlanner
