import SealedScript.Text.Utf8

/-!
BLAKE3 with its default output of 256 bits.

The input is cut into chunks of 1024 bytes and each chunk into blocks of 64; a compression function
chains the blocks of a chunk and joins chunks in a binary tree whose left subtrees are complete. The
root alone is compressed with the root flag.
-/

namespace SealedScript.Blake3
set_option autoImplicit false

/-- Words of a chaining value, a block or a compression state. -/
abbrev Words := Array UInt32

/-! ## Compression -/

def initial : Words :=
  #[0x6A09E667, 0xBB67AE85, 0x3C6EF372, 0xA54FF53A, 0x510E527F, 0x9B05688C, 0x1F83D9AB, 0x5BE0CD19]

/-- Where each word of a block comes from in the block of the round before. -/
def permutation : List Nat := [2, 6, 3, 10, 7, 0, 4, 13, 1, 11, 12, 5, 9, 14, 15, 8]

/-- The words that one quarter round mixes, columns first, then diagonals. -/
def quarters : List (Nat × Nat × Nat × Nat) :=
  [(0, 4, 8, 12), (1, 5, 9, 13), (2, 6, 10, 14), (3, 7, 11, 15), (0, 5, 10, 15), (1, 6, 11, 12),
    (2, 7, 8, 13), (3, 4, 9, 14)]

def word (ws : Words) (i : Nat) : UInt32 := ws.getD i 0

def rotate (w : UInt32) (places : UInt32) : UInt32 := (w >>> places) ||| (w <<< (32 - places))

def mix (s : Words) (q : Nat × Nat × Nat × Nat) (x y : UInt32) : Words :=
  let (ia, ib, ic, id) := q
  let a := word s ia + word s ib + x
  let d := rotate (word s id ^^^ a) 16
  let c := word s ic + d
  let b := rotate (word s ib ^^^ c) 12
  let a := a + b + y
  let d := rotate (d ^^^ a) 8
  let c := c + d
  let b := rotate (b ^^^ c) 7
  (((s.setIfInBounds ia a).setIfInBounds ib b).setIfInBounds ic c).setIfInBounds id d

/-- All quarter rounds of one round, taking message words from the index on. -/
def mixAll (s block : Words) (i : Nat) : List (Nat × Nat × Nat × Nat) → Words
  | [] => s
  | q :: qs => mixAll (mix s q (word block (2 * i)) (word block (2 * i + 1))) block (i + 1) qs

/-- The remaining rounds, the block being permuted between them. -/
def rounds : Nat → Words → Words → Words
  | 0, s, _ => s
  | n + 1, s, block =>
    rounds n (mixAll s block 0 quarters) (permutation.map (word block)).toArray

/-- A block ready to be compressed. -/
structure Node where
  chaining : Words
  block : Words
  counter : Nat
  length : Nat
  flags : UInt32

def chunkStart : UInt32 := 1

def chunkEnd : UInt32 := 2

def parent : UInt32 := 4

def root : UInt32 := 8

/-- The chaining value that compressing a block under more flags gives. -/
def Node.compress (n : Node) (more : UInt32) : Words :=
  let state :=
    n.chaining ++ initial.extract 0 4
      ++ #[UInt32.ofNat n.counter, UInt32.ofNat (n.counter / Nat.pow 2 32), UInt32.ofNat n.length,
        n.flags ||| more]
  let out := rounds 7 state n.block
  ((List.range 8).map fun i => word out i ^^^ word out (i + 8)).toArray

/-! ## Chunks -/

/-- Four bytes at a time as words, low byte first, filled up with zeros. -/
def wordsOf : Bytes → List UInt32
  | a :: b :: c :: d :: rest =>
    (a.toUInt32 ||| (b.toUInt32 <<< 8) ||| (c.toUInt32 <<< 16) ||| (d.toUInt32 <<< 24))
      :: wordsOf rest
  | [] => []
  | [a] => [a.toUInt32]
  | [a, b] => [a.toUInt32 ||| (b.toUInt32 <<< 8)]
  | [a, b, c] => [a.toUInt32 ||| (b.toUInt32 <<< 8) ||| (c.toUInt32 <<< 16)]

/-- The pieces of `size` bytes, at least one; `fuel` bounds their number. -/
def pieces (size : Nat) : Nat → Bytes → List Bytes
  | 0, bs => [bs]
  | fuel + 1, bs =>
    match bs.drop size with
    | [] => [bs]
    | rest => bs.take size :: pieces size fuel rest

def chain (counter : Nat) (chaining : Words) (flags : UInt32) : List Bytes → Node
  | [] => ⟨chaining, #[], counter, 0, flags ||| chunkEnd⟩
  | [last] => ⟨chaining, (wordsOf last).toArray, counter, last.length, flags ||| chunkEnd⟩
  | block :: rest =>
    let node : Node := ⟨chaining, (wordsOf block).toArray, counter, block.length, flags⟩
    chain counter (node.compress 0) 0 rest

def chunkNode (counter : Nat) (chunk : Bytes) : Node :=
  chain counter initial chunkStart (pieces 64 chunk.length chunk)

/-! ## The tree -/

def join (left right : Node) : Node :=
  ⟨initial, left.compress 0 ++ right.compress 0, 0, 64, parent⟩

/-- The node of a tree over chunks, of which the first has this counter; `fuel` bounds its height. -/
def treeNode : Nat → Nat → List Bytes → Node
  | 0, counter, chunks => chunkNode counter (chunks.headD [])
  | fuel + 1, counter, chunks =>
    match chunks with
    | [] => chunkNode counter []
    | [chunk] => chunkNode counter chunk
    | _ =>
      let left := Nat.pow 2 (chunks.length - 1).log2
      join (treeNode fuel counter (chunks.take left))
        (treeNode fuel (counter + left) (chunks.drop left))

def wordBytes (w : UInt32) : Bytes :=
  [w.toUInt8, (w >>> 8).toUInt8, (w >>> 16).toUInt8, (w >>> 24).toUInt8]

def hash (bs : Bytes) : Bytes :=
  let chunks := pieces 1024 bs.length bs
  ((treeNode chunks.length 0 chunks).compress root).toList.flatMap wordBytes

end SealedScript.Blake3
