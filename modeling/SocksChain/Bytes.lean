/-!
Byte strings, big-endian words and UTF-8. Text is taken from bytes only when they are valid UTF-8,
and then it gives the same bytes back.
-/

namespace SocksChain

abbrev Bytes := List UInt8

namespace Bytes

def zeros (n : Nat) : Bytes := List.replicate n 0

/-- Two bytes, the high one first. -/
def ofWord (w : UInt16) : Bytes := [UInt8.ofNat (w.toNat / 256), UInt8.ofNat w.toNat]

def word (high low : UInt8) : UInt16 := UInt16.ofNat (high.toNat * 256 + low.toNat)

/-- `n` bytes of a natural number, the high one first; what does not fit is cut off. -/
def bigEndian : Nat → Nat → Bytes
  | 0, _ => []
  | n + 1, v => bigEndian n (v / 256) ++ [UInt8.ofNat v]

/-- `n` bytes of a natural number, the low one first. -/
def littleEndian : Nat → Nat → Bytes
  | 0, _ => []
  | n + 1, v => UInt8.ofNat v :: littleEndian n (v / 256)

/-- The next number of as many bytes, the low one first: a byte that overflows carries into the one
behind it, and what the last one carries is lost. -/
def increment : Bytes → Bytes
  | [] => []
  | x :: rest => (x + 1) :: if x + 1 = 0 then increment rest else rest

def ofBigEndian (b : Bytes) : Nat := b.foldl (fun acc x => acc * 256 + x.toNat) 0

def ofLittleEndian : Bytes → Nat
  | [] => 0
  | x :: rest => x.toNat + 256 * ofLittleEndian rest

def xor (a b : Bytes) : Bytes := List.zipWith (· ^^^ ·) a b

def ofText (s : String) : Bytes := s.toByteArray.data.toList

def toText? (b : Bytes) : Option String := String.fromUTF8? ⟨b.toArray⟩

/-- The pieces of at most `n` bytes that a byte string falls into, in order. -/
def pieces (n : Nat) (b : Bytes) : List Bytes :=
  if h : b = [] ∨ n = 0 then []
  else
    have : (b.drop n).length < b.length := by
      have := List.length_pos_iff.mpr (fun e => h (.inl e))
      simp only [List.length_drop]
      omega
    b.take n :: pieces n (b.drop n)
termination_by b.length

@[simp] theorem length_zeros (n : Nat) : (zeros n).length = n := by simp [zeros]

@[simp] theorem length_ofWord (w : UInt16) : (ofWord w).length = 2 := rfl

@[simp] theorem length_bigEndian (n v : Nat) : (bigEndian n v).length = n := by
  induction n generalizing v with
  | zero => rfl
  | succ n ih => simp [bigEndian, ih]

@[simp] theorem length_littleEndian (n v : Nat) : (littleEndian n v).length = n := by
  induction n generalizing v with
  | zero => rfl
  | succ n ih => simp [littleEndian, ih]

theorem increment_littleEndian (n v : Nat) :
    (littleEndian n v).increment = littleEndian n (v + 1) := by
  induction n generalizing v with
  | zero => rfl
  | succ n ih =>
    have hlow : UInt8.ofNat v + 1 = UInt8.ofNat (v + 1) := (UInt8.ofNat_add v 1).symm
    have hzero : UInt8.ofNat (v + 1) = 0 ↔ (v + 1) % 256 = 0 := by
      rw [← UInt8.toNat_inj, UInt8.toNat_ofNat']
      rfl
    simp only [littleEndian, increment, hlow, hzero]
    split
    · have hcarry : v / 256 + 1 = (v + 1) / 256 := by omega
      rw [ih, hcarry]
    · have hstay : v / 256 = (v + 1) / 256 := by omega
      rw [hstay]

@[simp] theorem word_ofWord (w : UInt16) :
    word (UInt8.ofNat (w.toNat / 256)) (UInt8.ofNat w.toNat) = w := by
  have hw := w.toNat_lt
  apply UInt16.toNat_inj.mp
  simp only [word, UInt16.toNat_ofNat', UInt8.toNat_ofNat']
  omega

theorem ofWord_word (high low : UInt8) : ofWord (word high low) = [high, low] := by
  have hh := high.toNat_lt
  have hl := low.toNat_lt
  have h1 : UInt8.ofNat ((word high low).toNat / 256) = high := by
    apply UInt8.toNat_inj.mp
    simp only [word, UInt16.toNat_ofNat', UInt8.toNat_ofNat']
    omega
  have h2 : UInt8.ofNat (word high low).toNat = low := by
    apply UInt8.toNat_inj.mp
    simp only [word, UInt16.toNat_ofNat', UInt8.toNat_ofNat']
    omega
  simp [ofWord, h1, h2]

theorem toText?_ofText (s : String) : toText? (ofText s) = some s := by
  have h : (⟨s.toByteArray.data.toList.toArray⟩ : ByteArray) = s.toByteArray := rfl
  simp only [toText?, ofText, h, String.fromUTF8?, s.isValidUTF8, dite_true]
  rfl

theorem ofText_of_toText? {b : Bytes} {s : String} (h : toText? b = some s) : ofText s = b := by
  simp only [toText?, String.fromUTF8?] at h
  split at h
  · cases h
    rfl
  · cases h

end Bytes

end SocksChain
