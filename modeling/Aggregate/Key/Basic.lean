import Aggregate.Digest

/-
  Typed keys

  A `Key` is a value that a region can be opened for. Its digest is taken from
  the words that the value writes, in order: a machine integer is one word (two
  if it has 128 bits), a text its bytes and a closing byte, a sequence its
  length and then its members. A sequence of machine integers is written as one
  string of bytes instead, lowest byte of each integer first.
-/

namespace Aggregate

inductive IntWidth where
  | w8
  | w16
  | w32
  | w64
  | w128
  deriving DecidableEq, Repr

def IntWidth.bytes : IntWidth → Nat
  | .w8 => 1
  | .w16 => 2
  | .w32 => 4
  | .w64 => 8
  | .w128 => 16

def IntWidth.bits (width : IntWidth) : Nat := 8 * width.bytes

/-- A value that a region can be keyed by. Integers are given by their bits, so a negative number
stands for its two's complement. -/
inductive Key where
  | integer (width : IntWidth) (value : BitVec width.bits)
  | integers (width : IntWidth) (values : List (BitVec width.bits))
  | boolean (value : Bool)
  | character (value : Char)
  | text (value : String)
  | unit
  | absent
  | present (value : Key)
  | tuple (members : List Key)
  | sequence (members : List Key)

namespace Key

/-- The bytes of an integer, lowest first. -/
def bytesOf (width : IntWidth) (value : BitVec width.bits) : List UInt8 :=
  (List.range width.bytes).map fun i => UInt8.ofNat (value.toNat >>> (8 * i))

/-- The words that an integer writes. -/
def integerChunks (width : IntWidth) (value : BitVec width.bits) : List Chunk :=
  match width with
  | .w128 => Digest.chunks (bytesOf .w128 value)
  | width => [⟨width.bytes, BitVec.ofNat 64 value.toNat⟩]

/-- The word that a length or an alternative writes. -/
def countChunk (n : Nat) : Chunk := ⟨8, BitVec.ofNat 64 n⟩

mutual

/-- The words that a key writes, in order. -/
def chunks : Key → List Chunk
  | .integer width value => integerChunks width value
  | .integers width values =>
    countChunk values.length :: Digest.chunks (values.flatMap (bytesOf width))
  | .boolean value => [⟨1, if value then 1 else 0⟩]
  | .character value => [⟨4, BitVec.ofNat 64 value.toNat⟩]
  | .text value => Digest.chunks value.toUTF8.toList ++ [⟨1, 0xff⟩]
  | .unit => []
  | .absent => [countChunk 0]
  | .present value => countChunk 1 :: chunks value
  | .tuple members => memberChunks members
  | .sequence members => countChunk members.length :: memberChunks members

/-- The words that the members of a key write, one member after the other. -/
def memberChunks : List Key → List Chunk
  | [] => []
  | key :: rest => chunks key ++ memberChunks rest

end

/-- The digest of a key in a trace of the given width. -/
def digest (w : Width) (key : Key) : Word w := narrow w (Digest.ofChunks key.chunks)

end Key

end Aggregate
