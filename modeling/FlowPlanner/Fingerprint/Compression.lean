/-
FlowPlanner.Fingerprint.Compression — mixing one block of 64 bytes into a chaining value.

This is the compression function of the hash BLAKE3: seven rounds over sixteen
32-bit words, the words of the message permuted between the rounds. All
arithmetic is modulo 2 ^ 32.
-/

namespace FlowPlanner.Fingerprint

/-- Eight words that carry what has been hashed so far. -/
abbrev Chaining := Vector UInt32 8

/-- Sixteen words: a block of the message, or the state of the rounds. -/
abbrev Block := Vector UInt32 16

/-- The chaining value at the start. -/
def start : Chaining :=
  #v[0x6A09E667, 0xBB67AE85, 0x3C6EF372, 0xA54FF53A, 0x510E527F, 0x9B05688C, 0x1F83D9AB, 0x5BE0CD19]

/-- Where each word of the next round's message comes from. -/
def order : Vector (Fin 16) 16 := #v[2, 6, 3, 10, 7, 0, 4, 13, 1, 11, 12, 5, 9, 14, 15, 8]

/-- The message of the next round. -/
def permute (m : Block) : Block := order.map fun i => m[i]

/-- Turn a word to the right; `n` is above 0 and below 32. -/
def rotate (w n : UInt32) : UInt32 := (w >>> n) ||| (w <<< (32 - n))

/-- Mix two words of the message into four words of the state. -/
def mix (s : Block) (a b c d : Fin 16) (x y : UInt32) : Block :=
  let wa := s[a] + s[b] + x
  let wd := rotate (s[d] ^^^ wa) 16
  let wc := s[c] + wd
  let wb := rotate (s[b] ^^^ wc) 12
  let wa := wa + wb + y
  let wd := rotate (wd ^^^ wa) 8
  let wc := wc + wd
  let wb := rotate (wb ^^^ wc) 7
  (((s.set a wa).set b wb).set c wc).set d wd

/-- One round: the four columns of the state, then its four diagonals. -/
def round (s m : Block) : Block :=
  let s := mix s 0 4 8 12 m[0] m[1]
  let s := mix s 1 5 9 13 m[2] m[3]
  let s := mix s 2 6 10 14 m[4] m[5]
  let s := mix s 3 7 11 15 m[6] m[7]
  let s := mix s 0 5 10 15 m[8] m[9]
  let s := mix s 1 6 11 12 m[10] m[11]
  let s := mix s 2 7 8 13 m[12] m[13]
  mix s 3 4 9 14 m[14] m[15]

/-- A number of rounds, the message permuted after each. -/
def rounds : Nat → Block → Block → Block
  | 0, s, _ => s
  | n + 1, s, m => rounds n (round s m) (permute m)

/-- A compression that waits for its last flags. -/
structure Pending where
  chaining : Chaining
  block : Block
  /-- The number of the chunk; zero above the chunks. -/
  counter : UInt64
  /-- The number of bytes in the block. -/
  length : UInt32
  flags : UInt32

namespace Pending

/-- The state before the first round. -/
def state (p : Pending) (flags : UInt32) : Block :=
  p.chaining ++ #v[start[0], start[1], start[2], start[3],
    p.counter.toUInt32, (p.counter >>> 32).toUInt32, p.length, p.flags ||| flags]

/-- Carry the compression out, with flags added. -/
def finish (p : Pending) (flags : UInt32) : Chaining :=
  let out := rounds 7 (p.state flags) p.block
  Vector.ofFn fun (i : Fin 8) => out[i.val] ^^^ out[i.val + 8]

end Pending

end FlowPlanner.Fingerprint
