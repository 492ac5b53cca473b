import Mathlib.Algebra.Group.Units.Equiv
import Mathlib.Data.LawfulXor.Equiv
import Mathlib.Data.UInt
import UniqueId.Uuid.Basic

/-!
# The hash, for one high word

The hash is 64 bits of 128, so identifiers share hashes; but never within one high word. There the
hash is two permutations of the low word one after the other (`hash_eq_hashPerm`): a word is added
that depends on the high word alone, and the high word is folded in by exclusive or. Shifts lose
bits, but only the high word is shifted, and that is at hand.

So the low word is found again from the high word and the hash (`lowOfHash_hash`), and each hash is
shared by as many identifiers as there are high words, one for each (`bijOn_high`).
-/

namespace UniqueId.Uuid

/-- What the hash adds to the low word. -/
def hashOffset (high : UInt64) : UInt64 :=
  hashIncrement + (high <<< (6 : UInt64)) + (high >>> (2 : UInt64))

/-- The hash as a **permutation** of the low words, for one high word. -/
def hashPerm (high : UInt64) : Equiv.Perm UInt64 :=
  (Equiv.addRight (hashOffset high)).trans (Equiv.xor high)

/-- The low word of the identifier with the given high word and hash. -/
def lowOfHash (high hash : UInt64) : UInt64 :=
  (high ^^^ hash) - hashOffset high

theorem hash_eq_hashPerm (high low : UInt64) : hash (⟨high, low⟩ : Uuid) = hashPerm high low := by
  have hsum : low + hashIncrement + (high <<< (6 : UInt64)) + (high >>> (2 : UInt64)) =
      low + hashOffset high := by
    rw [hashOffset, UInt64.add_assoc, UInt64.add_assoc, UInt64.add_assoc]
  exact congrArg (high ^^^ ·) hsum

/-- The hash in plain numbers: one sum modulo `2 ^ 64`, and one exclusive or. -/
theorem toNat_hash (u : Uuid) :
    (hash u).toNat =
      u.high.toNat ^^^
        (u.low.toNat + 0x9E3779B97F4A7C15 + u.high.toNat * 2 ^ 6 + u.high.toNat / 2 ^ 2) %
          2 ^ 64 := by
  have hsix : (6 : UInt64).toNat % 64 = 6 := rfl
  have htwo : (2 : UInt64).toNat % 64 = 2 := rfl
  have hincrement : hashIncrement.toNat = 0x9E3779B97F4A7C15 := rfl
  have hhash : hash u = u.hash := rfl
  rw [hhash, Uuid.hash, UInt64.toNat_xor, UInt64.toNat_add, UInt64.toNat_add, UInt64.toNat_add,
    UInt64.toNat_shiftLeft, UInt64.toNat_shiftRight, hsix, htwo, hincrement, Nat.shiftLeft_eq,
    Nat.shiftRight_eq_div_pow]
  congr 1
  omega

/-! ### The low word found again -/

theorem lowOfHash_eq_hashPerm_symm (high h : UInt64) :
    lowOfHash high h = (hashPerm high).symm h := by
  rw [lowOfHash, sub_eq_add_neg]
  rfl

/-- **The low word is found again** from the high word and the hash. -/
@[simp] theorem lowOfHash_hash (u : Uuid) : lowOfHash u.high (hash u) = u.low := by
  have hhash : hash u = hashPerm u.high u.low := hash_eq_hashPerm u.high u.low
  rw [hhash, lowOfHash_eq_hashPerm_symm, Equiv.symm_apply_apply]

/-- Every hash is met under every high word. -/
@[simp] theorem hash_lowOfHash (high h : UInt64) :
    hash (⟨high, lowOfHash high h⟩ : Uuid) = h := by
  rw [hash_eq_hashPerm, lowOfHash_eq_hashPerm_symm, Equiv.apply_symm_apply]

/-- An identifier is known by its high word and its hash. -/
theorem eq_of_high_eq_of_hash_eq {u v : Uuid} (hhigh : u.high = v.high) (hhash : hash u = hash v) :
    u = v := by
  refine Uuid.ext hhigh ?_
  rw [← lowOfHash_hash u, ← lowOfHash_hash v, hhigh, hhash]

/-- **One identifier for each high word**: of those that share a hash. -/
theorem bijOn_high (h : UInt64) : Set.BijOn Uuid.high {u | hash u = h} Set.univ := by
  refine ⟨fun _ _ => Set.mem_univ _, fun u hu v hv hhigh => ?_, fun high _ => ?_⟩
  · exact eq_of_high_eq_of_hash_eq hhigh (Eq.trans hu hv.symm)
  · exact ⟨⟨high, lowOfHash high h⟩, hash_lowOfHash high h, rfl⟩

/-- **The hash is a bijection in the low word**, whatever the high word. So identifiers that share a
hash differ in their high words, and the low word can be told from the high word and the hash: it is
`lowOfHash`. Every hash is shared by exactly one identifier for each high word. -/
theorem hash_bijective_in_low :
    (∀ u : Uuid, (hash u).toNat =
      u.high.toNat ^^^
        (u.low.toNat + 0x9E3779B97F4A7C15 + u.high.toNat * 2 ^ 6 + u.high.toNat / 2 ^ 2) %
          2 ^ 64) ∧
    (∀ high, Function.Bijective fun low => hash (⟨high, low⟩ : Uuid)) ∧
    (∀ u v : Uuid, u ≠ v → hash u = hash v → u.high ≠ v.high) ∧
    (∀ u : Uuid, lowOfHash u.high (hash u) = u.low) ∧
    ∀ h, Set.BijOn Uuid.high {u | hash u = h} Set.univ := by
  refine ⟨toNat_hash, fun high => ?_, fun u v hne hhash hhigh => ?_, lowOfHash_hash, bijOn_high⟩
  · simp only [hash_eq_hashPerm]
    exact (hashPerm high).bijective
  · exact hne (eq_of_high_eq_of_hash_eq hhigh hhash)

/-- The nil identifier shares its hash, the increment, with an identifier under the next high
word. -/
theorem hash_bijective_in_low_of_nil :
    let v : Uuid := ⟨1, 0xFFFFFFFFFFFFFFBF⟩
    nil ≠ v ∧ hash nil = hash v ∧ nil.high ≠ v.high ∧ lowOfHash 1 (hash nil) = v.low := by
  intro v
  have hne : nil ≠ v := by decide
  have hhash : hash nil = hash v := by decide
  obtain ⟨-, -, hdiffer, hlow, -⟩ := hash_bijective_in_low
  refine ⟨hne, hhash, hdiffer nil v hne hhash, ?_⟩
  rw [hhash]
  exact hlow v

end UniqueId.Uuid
