import Mathlib.Logic.Function.Iterate
import SocksChain.Cipher.Suite

/-!
The master key of a secret. It is a chain of digests, each of the one before it and the secret, cut
to the length that is asked for. The chain does not depend on that length, so two keys of one secret
agree as far as the shorter one goes.
-/

namespace SocksChain.Cipher

/-- Sixteen bytes of a key, or what there is of them. -/
def keyBlock (key : Bytes) (i : Nat) : Bytes := (key.drop (16 * i)).take 16

namespace Stretch

variable (secret : Bytes)

/-- What has been made after some rounds. -/
def after (rounds : Nat) : Stretch := (round secret)^[rounds] {}

theorem after_succ (n : Nat) : after secret (n + 1) = (after secret n).round secret :=
  Function.iterate_succ_apply' _ _ _

theorem block_after_succ (n : Nat) : (after secret (n + 1)).block =
    Crypto.Md5.hash ((after secret n).block ++ secret) := by
  rw [after_succ]
  rfl

theorem key_after_succ (n : Nat) :
    (after secret (n + 1)).key = (after secret n).key ++ (after secret (n + 1)).block := by
  rw [after_succ]
  rfl

theorem length_block_after_succ (n : Nat) : (after secret (n + 1)).block.length = 16 := by
  rw [block_after_succ, Crypto.Md5.length_hash]

theorem length_key_after (n : Nat) : (after secret n).key.length = 16 * n := by
  induction n with
  | zero => rfl
  | succ n ih =>
    rw [after_succ, length_key_round, ih]
    omega

/-- It takes one round for every sixteen bytes that are missing, and for the rest of them. -/
theorem upTo_eq_iterate (size : Nat) (s : Stretch) :
    s.upTo secret size = (round secret)^[(size - s.key.length + 15) / 16] s := by
  fun_induction s.upTo secret size with
  | case1 s hlt ih =>
    have hrounds : (size - s.key.length + 15) / 16 =
        (size - (s.round secret).key.length + 15) / 16 + 1 := by
      rw [length_key_round]
      omega
    rw [ih, hrounds, Function.iterate_succ_apply]
  | case2 s hge =>
    have hrounds : (size - s.key.length + 15) / 16 = 0 := by omega
    rw [hrounds]
    rfl

theorem upTo_eq_after (size : Nat) : upTo secret size {} = after secret ((size + 15) / 16) :=
  upTo_eq_iterate secret size {}

/-- What has been made stays as it is. -/
theorem key_prefix_after_add (n more : Nat) :
    (after secret n).key <+: (after secret (n + more)).key := by
  induction more with
  | zero => exact List.prefix_rfl
  | succ more ih =>
    rw [← Nat.add_assoc, key_after_succ]
    exact ih.trans (List.prefix_append _ _)

theorem keyBlock_after {n i : Nat} (h : i < n) :
    keyBlock (after secret n).key i = (after secret (i + 1)).block := by
  obtain ⟨more, rfl⟩ := Nat.exists_eq_add_of_le h
  obtain ⟨rest, hrest⟩ := key_prefix_after_add secret (i + 1) more
  rw [keyBlock, ← hrest, key_after_succ, List.append_assoc,
    List.drop_left' (length_key_after secret i), List.take_left' (length_block_after_succ secret i)]

end Stretch

open Stretch (after)

variable (secret : Bytes)

/-- More rounds than it takes make no difference. -/
theorem masterKey_eq_take {size rounds : Nat} (h : size ≤ 16 * rounds) :
    masterKey secret size = (after secret rounds).key.take size := by
  have hle : (size + 15) / 16 ≤ rounds := by omega
  obtain ⟨more, rfl⟩ := Nat.exists_eq_add_of_le hle
  obtain ⟨rest, hrest⟩ := Stretch.key_prefix_after_add secret ((size + 15) / 16) more
  have hlong : size ≤ (after secret ((size + 15) / 16)).key.length := by
    rw [Stretch.length_key_after]
    omega
  rw [masterKey, Stretch.upTo_eq_after, ← hrest, List.take_append_of_le_length hlong]

theorem length_masterKey (size : Nat) : (masterKey secret size).length = size := by
  have hlong : size ≤ 16 * size := by omega
  rw [masterKey_eq_take secret hlong, List.length_take, Stretch.length_key_after]
  omega

theorem take_masterKey {m n : Nat} (h : m ≤ n) :
    (masterKey secret n).take m = masterKey secret m := by
  have hn : n ≤ 16 * n := by omega
  rw [masterKey_eq_take secret hn, masterKey_eq_take secret (Nat.le_trans h hn), List.take_take,
    Nat.min_eq_left h]

theorem keyBlock_masterKey (size i : Nat) :
    keyBlock (masterKey secret size) i = (after secret (i + 1)).block.take (size - 16 * i) := by
  have hlong : size ≤ 16 * (size + (i + 1)) := by omega
  have hblock := Stretch.keyBlock_after secret (n := size + (i + 1)) (i := i) (by omega)
  rw [← hblock, masterKey_eq_take secret hlong, keyBlock, keyBlock, List.drop_take,
    List.take_take, List.take_take, Nat.min_comm]

/-- **A master key is a chain of digests.** The rounds come to an end: there is one for every
sixteen bytes, and one for the bytes that are left, and no fewer would do. The key has the length
that is asked for, and it starts with every shorter key of the same secret. Its first block is the
digest of the secret, and every other one that of the block before it followed by the secret, as far
as the key goes. -/
theorem master_key_is_chained (size : Nat) :
    (Stretch.upTo secret size {} = (Stretch.round secret)^[(size + 15) / 16] {} ∧
      ∀ n, size ≤ ((Stretch.round secret)^[n] {}).key.length ↔ (size + 15) / 16 ≤ n) ∧
    (masterKey secret size).length = size ∧
    (∀ m ≤ size, (masterKey secret size).take m = masterKey secret m) ∧
    keyBlock (masterKey secret size) 0 = (Crypto.Md5.hash secret).take size ∧
    ∀ i, keyBlock (masterKey secret size) (i + 1) =
      (Crypto.Md5.hash (keyBlock (masterKey secret size) i ++ secret)).take
        (size - 16 * (i + 1)) := by
  refine ⟨⟨Stretch.upTo_eq_after secret size, fun n => ?_⟩, length_masterKey secret size,
    fun m hm => take_masterKey secret hm, keyBlock_masterKey secret size 0, fun i => ?_⟩
  · have hlength : ((Stretch.round secret)^[n] {}).key.length = 16 * n :=
      Stretch.length_key_after secret n
    rw [hlength]
    omega
  · rw [keyBlock_masterKey, keyBlock_masterKey, Stretch.block_after_succ]
    by_cases hmore : 16 * (i + 1) < size
    · -- Only a block with others behind it is sure to be whole.
      have hwhole : (after secret (i + 1)).block.length ≤ size - 16 * i := by
        rw [Stretch.length_block_after_succ]
        omega
      rw [List.take_of_length_le hwhole]
    · have hnone : size - 16 * (i + 1) = 0 := by omega
      rw [hnone, List.take_zero, List.take_zero]

end SocksChain.Cipher
