import SocksChain.Bytes

/-!
The AES block cipher, for encryption, with keys of 16, 24 and 32 bytes. The substitution of a byte
is its inverse in the field of 256 elements, followed by an affine map.
-/

namespace SocksChain.Crypto.Aes

/-- Multiplication by the generator `x` of the field. -/
def double (b : UInt8) : UInt8 := (b <<< 1) ^^^ (if b &&& 0x80 = 0 then 0 else 0x1b)

/-- The product of two field elements, from the low eight bits of `y`. -/
def mul (x y : UInt8) : UInt8 :=
  ((List.range 8).foldl
    (fun (acc : UInt8 × UInt8) i =>
      (if y.toNat.testBit i then acc.1 ^^^ acc.2 else acc.1, double acc.2)) (0, x)).1

/-- The inverse of a field element, which is its power 254, and zero for zero. -/
def inverse (b : UInt8) : UInt8 := (List.range 253).foldl (fun acc _ => mul acc b) b

def rotate (b : UInt8) (n : UInt8) : UInt8 := (b <<< n) ||| (b >>> (8 - n))

def affine (b : UInt8) : UInt8 :=
  b ^^^ rotate b 1 ^^^ rotate b 2 ^^^ rotate b 3 ^^^ rotate b 4 ^^^ 0x63

def substitution : Array UInt8 := (Array.range 256).map fun i => affine (inverse (UInt8.ofNat i))

def substitute (b : UInt8) : UInt8 := substitution.getD b.toNat 0

/-- Four bytes: a column of the state, or a word of the key schedule. -/
structure Column where
  a : UInt8
  b : UInt8
  c : UInt8
  d : UInt8

namespace Column

def xor (x y : Column) : Column := ⟨x.a ^^^ y.a, x.b ^^^ y.b, x.c ^^^ y.c, x.d ^^^ y.d⟩

def bytes (x : Column) : Bytes := [x.a, x.b, x.c, x.d]

/-- The substitution of every byte. -/
def sub (x : Column) : Column :=
  ⟨substitute x.a, substitute x.b, substitute x.c, substitute x.d⟩

def rotate (x : Column) : Column := ⟨x.b, x.c, x.d, x.a⟩

/-- Each byte of the result mixes all four. -/
def mix (x : Column) : Column :=
  let all := x.a ^^^ x.b ^^^ x.c ^^^ x.d
  ⟨x.a ^^^ all ^^^ double (x.a ^^^ x.b), x.b ^^^ all ^^^ double (x.b ^^^ x.c),
    x.c ^^^ all ^^^ double (x.c ^^^ x.d), x.d ^^^ all ^^^ double (x.d ^^^ x.a)⟩

end Column

structure Block where
  c0 : Column
  c1 : Column
  c2 : Column
  c3 : Column

namespace Block

def addKey (x y : Block) : Block := ⟨x.c0.xor y.c0, x.c1.xor y.c1, x.c2.xor y.c2, x.c3.xor y.c3⟩

/-- Row `i` moves `i` columns to the left. -/
def shiftRows (x : Block) : Block :=
  ⟨⟨x.c0.a, x.c1.b, x.c2.c, x.c3.d⟩, ⟨x.c1.a, x.c2.b, x.c3.c, x.c0.d⟩,
    ⟨x.c2.a, x.c3.b, x.c0.c, x.c1.d⟩, ⟨x.c3.a, x.c0.b, x.c1.c, x.c2.d⟩⟩

def sub (x : Block) : Block := ⟨x.c0.sub, x.c1.sub, x.c2.sub, x.c3.sub⟩

def mix (x : Block) : Block := ⟨x.c0.mix, x.c1.mix, x.c2.mix, x.c3.mix⟩

def bytes (x : Block) : Bytes := x.c0.bytes ++ x.c1.bytes ++ x.c2.bytes ++ x.c3.bytes

@[simp] theorem length_bytes (x : Block) : x.bytes.length = 16 := rfl

end Block

def columns : Bytes → List Column
  | a :: b :: c :: d :: rest => ⟨a, b, c, d⟩ :: columns rest
  | _ => []

def blocks : List Column → List Block
  | a :: b :: c :: d :: rest => ⟨a, b, c, d⟩ :: blocks rest
  | _ => []

/-- The round constant of the `i`-th key word group, from one on. -/
def roundConstant (i : Nat) : Column := ⟨(List.range (i - 1)).foldl (fun b _ => double b) 1, 0, 0, 0⟩

/-- The key words followed by `count` more, each from the one before and the one a key back. -/
def expandWords (size count : Nat) (key : Array Column) : Array Column :=
  let zero : Column := ⟨0, 0, 0, 0⟩
  (List.range count).foldl
    (fun w k =>
      let i := k + size
      let last := w.getD (i - 1) zero
      let turned :=
        if i % size = 0 then last.rotate.sub.xor (roundConstant (i / size))
        else if 6 < size ∧ i % size = 4 then last.sub
        else last
      w.push ((w.getD (i - size) zero).xor turned))
    key

/-- One block for the start and one for each round. -/
def expandKey (key : Bytes) : List Block :=
  let size := key.length / 4
  blocks (expandWords size (4 * (size + 7) - size) (columns key).toArray).toList

/-- The rounds after the first key addition; the last one does not mix columns. -/
def rounds (state : Block) : List Block → Block
  | [] => state
  | [last] => state.sub.shiftRows.addKey last
  | k :: rest => rounds (state.sub.shiftRows.mix.addKey k) rest

def encryptBlock (keys : List Block) (x : Block) : Block :=
  match keys with
  | [] => x
  | k :: rest => rounds (x.addKey k) rest

end SocksChain.Crypto.Aes
