import Aggregate.Word

/-
  Digests

  Two ways to a 64-bit digest. `Digest.mix` takes in one word at a time by a
  rotation, an xor and a multiplication with an odd constant, and digests a
  sequence of words of one, two, four or eight bytes. `Digest.absorb` takes in
  one value by an xor and a multiplication with a prime, and digests a source
  location. Neither has a seed, so every device computes the same digests.
-/

namespace Aggregate

/-- A word given to the mixing digest, and the number of bytes it came from. -/
structure Chunk where
  bytes : Nat
  value : BitVec 64
  deriving DecidableEq, Repr

namespace Digest

/-! ## Mixing -/

def multiplier : BitVec 64 := 0x517cc1b727220a95

def mix (digest word : BitVec 64) : BitVec 64 :=
  (digest.rotateLeft 5 ^^^ word) * multiplier

/-- The digest of a sequence of words. -/
def ofChunks (chunks : List Chunk) : BitVec 64 :=
  chunks.foldl (fun digest chunk => mix digest chunk.value) 0

/-- The number that bytes spell, lowest first. -/
def littleEndian : List UInt8 → Nat
  | [] => 0
  | b :: rest => b.toNat + 256 * littleEndian rest

def chunk (n : Nat) (bytes : List UInt8) : Chunk :=
  ⟨n, BitVec.ofNat 64 (littleEndian (bytes.take n))⟩

/-- Bytes that number less than `2 * n` are read in words of `n` bytes and, halving, less. -/
def tailChunks (bytes : List UInt8) : Nat → List Chunk
  | 0 => []
  | k + 1 =>
    let n := Nat.pow 2 k
    if n ≤ bytes.length then chunk n bytes :: tailChunks (bytes.drop n) k
    else tailChunks bytes k

/-- Bytes are read in words of eight, then at most one each of four, two and one. -/
def chunks (bytes : List UInt8) : List Chunk :=
  if 8 ≤ bytes.length then chunk 8 bytes :: chunks (bytes.drop 8) else tailChunks bytes 3
termination_by bytes.length
decreasing_by simp only [List.length_drop]; omega

/-! ## Source locations -/

def basis : BitVec 64 := 0xcbf29ce484222325

def prime : BitVec 64 := 0x100000001b3

def absorb (digest value : BitVec 64) : BitVec 64 := (digest ^^^ value) * prime

/-- The digest of a position in a file: the bytes of its name, the line, the column. -/
def ofLocation (file : List UInt8) (line column : UInt32) : BitVec 64 :=
  let named := file.foldl (fun digest byte => absorb digest (byte.toBitVec.setWidth 64)) basis
  absorb (absorb named (line.toBitVec.setWidth 64)) (column.toBitVec.setWidth 64)

end Digest

/-- The identifier of a source location in a trace of the given width. -/
def codePoint (w : Width) (file : String) (line column : UInt32) : Word w :=
  narrow w (Digest.ofLocation file.toUTF8.toList line column)

end Aggregate
