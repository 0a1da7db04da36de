import NavCheck.Text.Bytes

/-!
# Digests

The BLAKE3 hash function, as far as its first output word: the input is cut into chunks of 1024 bytes, every chunk is folded
block by block into a chaining value, and the chaining values are combined pairwise up to a root. It is the hash that the
program derives codes of diagnostics from; nothing else depends on which hash that is.
-/

namespace NavCheck.Text.Digest

/-- A chaining value: eight words. -/
abbrev Chaining := Vector UInt32 8

/-- The sixteen words of a message block, or of the state that is mixed. -/
abbrev Block := Vector UInt32 16

/-- The words that hashing starts from. -/
def initial : Chaining :=
  #v[0x6A09E667, 0xBB67AE85, 0x3C6EF372, 0xA54FF53A, 0x510E527F, 0x9B05688C, 0x1F83D9AB, 0x5BE0CD19]

/-- First block of a chunk. -/
def chunkStart : UInt32 := 1

/-- Last block of a chunk. -/
def chunkEnd : UInt32 := 2

/-- Block of two chaining values. -/
def parent : UInt32 := 4

/-- Block whose output is the hash. -/
def root : UInt32 := 8

/-- A word turned right by `n` bits. -/
def rotate (w : UInt32) (n : UInt32) : UInt32 :=
  (w >>> n) ||| (w <<< (32 - n))

/-- Mixes two message words into four words of the state. -/
def mix (s : Block) (a b c d : Fin 16) (x y : UInt32) : Block :=
  let sa := s[a] + s[b] + x
  let sd := rotate (s[d] ^^^ sa) 16
  let sc := s[c] + sd
  let sb := rotate (s[b] ^^^ sc) 12
  let sa := sa + sb + y
  let sd := rotate (sd ^^^ sa) 8
  let sc := sc + sd
  let sb := rotate (sb ^^^ sc) 7
  (((s.set a sa).set b sb).set c sc).set d sd

/-- One round: the four columns of the state, then its four diagonals. -/
def mixAll (s m : Block) : Block :=
  let s := mix s 0 4 8 12 m[0] m[1]
  let s := mix s 1 5 9 13 m[2] m[3]
  let s := mix s 2 6 10 14 m[4] m[5]
  let s := mix s 3 7 11 15 m[6] m[7]
  let s := mix s 0 5 10 15 m[8] m[9]
  let s := mix s 1 6 11 12 m[10] m[11]
  let s := mix s 2 7 8 13 m[12] m[13]
  mix s 3 4 9 14 m[14] m[15]

/-- The order of the message words in the next round. -/
def permute (m : Block) : Block :=
  #v[m[2], m[6], m[3], m[10], m[7], m[0], m[4], m[13], m[1], m[11], m[12], m[5], m[9], m[14], m[15], m[8]]

/-- `n` further rounds. -/
def rounds : Nat → Block → Block → Block
  | 0, s, _ => s
  | n + 1, s, m => rounds n (mixAll s m) (permute m)

/-- Folds one block of `size` bytes into a chaining value. -/
def compress (cv : Chaining) (m : Block) (counter : UInt64) (size flags : UInt32) : Chaining :=
  let s := rounds 7 (#v[cv[0], cv[1], cv[2], cv[3], cv[4], cv[5], cv[6], cv[7], 0x6A09E667, 0xBB67AE85, 0x3C6EF372,
    0xA54FF53A, counter.toUInt32, (counter >>> 32).toUInt32, size, flags]) m
  Vector.ofFn fun i : Fin 8 => s[i.val] ^^^ s[i.val + 8]

/-- The word of four bytes, least significant first. -/
def word (bytes : Array UInt8) (at4 : Nat) : UInt32 :=
  let byte (i : Nat) : UInt32 := (bytes.getD (at4 + i) 0).toUInt32
  byte 0 ||| (byte 1 <<< 8) ||| (byte 2 <<< 16) ||| (byte 3 <<< 24)

/-- A block of at most 64 bytes, filled up with zeros. -/
def block (bytes : List UInt8) : Block :=
  let bytes := bytes.toArray
  Vector.ofFn fun i => word bytes (4 * i.val)

/-- The pieces of `size` bytes of an input; the last may be shorter, and an empty input is one empty piece. -/
def pieces (size : Nat) (bytes : List UInt8) : List (List UInt8) :=
  if 0 < size ∧ size < bytes.length then
    bytes.take size :: pieces size (bytes.drop size)
  else [bytes]
termination_by bytes.length
decreasing_by simp only [List.length_drop]; omega

/-- Folds the blocks of a chunk; `extra` marks the last block of an input that is one chunk. -/
def foldBlocks (counter : UInt64) (extra : UInt32) : (first : Bool) → Chaining → List (List UInt8) → Chaining
  | _, cv, [] => cv
  | first, cv, [b] =>
    compress cv (block b) counter b.length.toUInt32 ((if first then chunkStart else 0) ||| chunkEnd ||| extra)
  | first, cv, b :: bs =>
    foldBlocks counter extra false
      (compress cv (block b) counter b.length.toUInt32 (if first then chunkStart else 0)) bs

/-- The chaining value of one chunk. -/
def chunk (counter : Nat) (extra : UInt32) (bytes : List UInt8) : Chaining :=
  foldBlocks counter.toUInt64 extra true initial (pieces 64 bytes)

/-- The chaining value above two others. -/
def join (extra : UInt32) (left right : Chaining) : Chaining :=
  compress initial (left ++ right) 0 64 (parent ||| extra)

/-- Joins neighbours pairwise; a single last value goes up as it is. -/
def joinPairs : List Chaining → List Chaining
  | left :: right :: rest => join 0 left right :: joinPairs rest
  | rest => rest

theorem length_joinPairs (cvs : List Chaining) : (joinPairs cvs).length = (cvs.length + 1) / 2 := by
  fun_induction joinPairs cvs with
  | case1 left right rest ih => simp only [List.length_cons, ih]; omega
  | case2 rest h =>
    match rest, h with
    | [], _ => rfl
    | [_], _ => simp
    | a :: b :: cs, h => exact absurd rfl (h a b cs)

/-- The root above at least two chaining values; the left subtree is the largest full one. -/
def rootOf (cvs : List Chaining) : Chaining :=
  match cvs with
  | [] => initial
  | [cv] => cv
  | [left, right] => join root left right
  | a :: b :: c :: rest => rootOf (joinPairs (a :: b :: c :: rest))
termination_by cvs.length
decreasing_by rw [length_joinPairs]; simp only [List.length_cons]; omega

/-- The chaining values of all chunks, numbered from `counter`. -/
def chunks (counter : Nat) : List (List UInt8) → List Chaining
  | [] => []
  | b :: bs => chunk counter 0 b :: chunks (counter + 1) bs

/-- The first word of the hash of an input. -/
def firstWord (bytes : List UInt8) : UInt32 :=
  match pieces 1024 bytes with
  | [b] => (chunk 0 root b)[0]
  | bs => (rootOf (chunks 0 bs))[0]

instance blake3 : Hash :=
  ⟨firstWord⟩

end NavCheck.Text.Digest
