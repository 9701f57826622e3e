set_option autoImplicit false

namespace AddressMap.Digest.Blake3

abbrev Words (n : Nat) := Vector UInt32 n

def iv : Words 8 := #v[
  0x6A09E667, 0xBB67AE85, 0x3C6EF372, 0xA54FF53A,
  0x510E527F, 0x9B05688C, 0x1F83D9AB, 0x5BE0CD19]

def permutation : Vector (Fin 16) 16 := #v[2, 6, 3, 10, 7, 0, 4, 13, 1, 11, 12, 5, 9, 14, 15, 8]

def chunkStart : UInt32 := 1
def chunkEnd : UInt32 := 2
def parent : UInt32 := 4
def root : UInt32 := 8

def rotateRight (x : UInt32) (n : UInt32) : UInt32 := (x >>> n) ||| (x <<< (32 - n))

def mix (v : Words 16) (a b c d : Fin 16) (x y : UInt32) : Words 16 :=
  let v := v.set a (v[a] + v[b] + x)
  let v := v.set d (rotateRight (v[d] ^^^ v[a]) 16)
  let v := v.set c (v[c] + v[d])
  let v := v.set b (rotateRight (v[b] ^^^ v[c]) 12)
  let v := v.set a (v[a] + v[b] + y)
  let v := v.set d (rotateRight (v[d] ^^^ v[a]) 8)
  let v := v.set c (v[c] + v[d])
  v.set b (rotateRight (v[b] ^^^ v[c]) 7)

def round (v m : Words 16) : Words 16 :=
  let v := mix v 0 4 8 12 m[0] m[1]
  let v := mix v 1 5 9 13 m[2] m[3]
  let v := mix v 2 6 10 14 m[4] m[5]
  let v := mix v 3 7 11 15 m[6] m[7]
  let v := mix v 0 5 10 15 m[8] m[9]
  let v := mix v 1 6 11 12 m[10] m[11]
  let v := mix v 2 7 8 13 m[12] m[13]
  mix v 3 4 9 14 m[14] m[15]

def permute (m : Words 16) : Words 16 := permutation.map fun i => m[i]

def rounds : Nat → Words 16 → Words 16 → Words 16
  | 0, v, _ => v
  | n + 1, v, m => rounds n (round v m) (permute m)

/-- A compression that has not been run yet: the root is run with one more flag. -/
structure Node where
  chaining : Words 8
  block : Words 16
  counter : Nat
  size : Nat
  flags : UInt32

def Node.compress (n : Node) (extra : UInt32) : Words 8 :=
  let h := n.chaining
  let v : Words 16 := #v[
    h[0], h[1], h[2], h[3], h[4], h[5], h[6], h[7],
    iv[0], iv[1], iv[2], iv[3],
    n.counter.toUInt32, (n.counter / 0x100000000).toUInt32, n.size.toUInt32, n.flags ||| extra]
  let v := rounds 7 v n.block
  #v[v[0] ^^^ v[8], v[1] ^^^ v[9], v[2] ^^^ v[10], v[3] ^^^ v[11],
    v[4] ^^^ v[12], v[5] ^^^ v[13], v[6] ^^^ v[14], v[7] ^^^ v[15]]

def byteAt (data : ByteArray) (i : Nat) : UInt32 :=
  if h : i < data.size then data[i].toUInt32 else 0

def wordAt (data : ByteArray) (i : Nat) : UInt32 :=
  byteAt data i ||| byteAt data (i + 1) <<< 8 ||| byteAt data (i + 2) <<< 16 |||
    byteAt data (i + 3) <<< 24

def blockAt (data : ByteArray) (i : Nat) : Words 16 := Vector.ofFn fun k => wordAt data (i + 4 * k)

def chunkFrom (data : ByteArray) (counter : Nat) : Nat → Nat → Nat → Words 8 → UInt32 → Node
  | 0, start, size, chaining, flags =>
    ⟨chaining, blockAt data start, counter, size, flags ||| chunkEnd⟩
  | more + 1, start, size, chaining, flags =>
    let n : Node := ⟨chaining, blockAt data start, counter, 64, flags⟩
    chunkFrom data counter more (start + 64) (size - 64) (n.compress 0) 0

def chunk (data : ByteArray) (index : Nat) : Node :=
  let start := 1024 * index
  let size := min 1024 (data.size - start)
  chunkFrom data index ((size - 1) / 64) start size iv chunkStart

def join (left right : Node) : Node :=
  let l := left.compress 0
  let r := right.compress 0
  ⟨iv, #v[l[0], l[1], l[2], l[3], l[4], l[5], l[6], l[7],
    r[0], r[1], r[2], r[3], r[4], r[5], r[6], r[7]], 0, 64, parent⟩

/-- The tree over `count` chunks from `first` on. The left part is the largest power of two below
    `count`. -/
def tree (data : ByteArray) (first count : Nat) : Node :=
  if h : count ≤ 1 then chunk data first
  else
    let left := Nat.pow 2 (count - 1).log2
    have : left ≤ count - 1 := Nat.log2_self_le (by omega)
    have : 0 < left := Nat.two_pow_pos _
    join (tree data first left) (tree data (first + left) (count - left))
termination_by count
decreasing_by all_goals omega

def hexByte (b : UInt32) : List Char :=
  let n := b.toNat % 256
  Nat.toDigits 16 (n / 16) ++ Nat.toDigits 16 (n % 16)

def hexWord (w : UInt32) : List Char :=
  hexByte w ++ hexByte (w >>> 8) ++ hexByte (w >>> 16) ++ hexByte (w >>> 24)

def hash (data : ByteArray) : String :=
  let words := (tree data 0 (max 1 ((data.size + 1023) / 1024))).compress root
  String.ofList (words.toList.flatMap hexWord)

end AddressMap.Digest.Blake3
