import SuccinctBridge.Bytes
import Mathlib.Algebra.BigOperators.Ring
import Mathlib.Data.List.GetD

/-!
# `U256` and its big-endian reader

`primitive_types::U256` is the `U256([u64; 4])` of `construct_uint!`: four 64-bit limbs, least
significant first. `from_big_endian` asserts that the slice has at most 32 bytes, right-aligns it
in a zero-filled 32-byte buffer and, for `i < 4`, reads limb `4 - i - 1` from bytes `8i..`;
`to_big_endian` writes the limbs back in the same order.

`toNat_fromBigEndian`: on every slice of at most 32 bytes the assembled limbs denote the slice's
big-endian value, so a short slice is aligned to the low end and not misplaced by whole limbs.
-/

namespace SuccinctBridge

/-- The big-endian value of a byte string, written as the positional sum. -/
theorem beValue_eq_sum (bs : List UInt8) :
    beValue bs = ∑ i ∈ Finset.range bs.length, (bs.getD i 0).toNat * 256 ^ (bs.length - 1 - i) := by
  induction bs using List.reverseRecOn with
  | nil => rfl
  | append_singleton bs b ih =>
    rw [beValue_concat, ih, List.length_append, List.length_singleton, Finset.sum_range_succ,
      Finset.sum_mul, List.getD_append_right _ _ _ _ le_rfl]
    congr 1
    · refine Finset.sum_congr rfl fun i hi => ?_
      have hi := Finset.mem_range.1 hi
      rw [List.getD_append _ _ _ _ hi, Nat.mul_assoc, ← Nat.pow_succ]
      congr 2
      omega
    · simp

theorem beValue_replicate_zero (k : Nat) : beValue (List.replicate k 0) = 0 := by
  induction k with
  | zero => rfl
  | succ k ih => rw [List.replicate_succ, beValue_cons, ih]; simp

theorem beValue_take_drop (l : List UInt8) (n : Nat) :
    beValue l = beValue (l.take n) * 256 ^ (l.length - n) + beValue (l.drop n) := by
  conv_lhs => rw [← List.take_append_drop n l]
  rw [beValue_append, List.length_drop]

/-- `primitive_types::U256`: limbs least significant first. -/
structure U256 where
  limbs : List UInt64
  length_limbs : limbs.length = 4
deriving DecidableEq, Repr

namespace U256

/-- The number a `U256` denotes. -/
def toNat (x : U256) : Nat := x.limbs.foldr (fun l acc => l.toNat + 2 ^ 64 * acc) 0

/-- The `U256` denoting `n % 2 ^ 256`. -/
def ofNat (n : Nat) : U256 :=
  ⟨[n, n / 2 ^ 64, n / 2 ^ 128, n / 2 ^ 192].map UInt64.ofNat, rfl⟩

/-- `BigEndian::read_u64`: the first 8 bytes of `buf`, big-endian. -/
def readU64 (buf : List UInt8) : UInt64 := UInt64.ofNat (beValue (buf.take 8))

/-- The loop of `from_big_endian`: limb `4 - i - 1` is read from `padded[8 * i..]`. -/
def assemble (padded : List UInt8) : List UInt64 :=
  (List.range 4).foldl (fun ret i => ret.set (4 - i - 1) (readU64 (padded.drop (8 * i))))
    (List.replicate 4 0)

theorem assemble_eq (padded : List UInt8) :
    assemble padded = [readU64 (padded.drop 24), readU64 (padded.drop 16),
      readU64 (padded.drop 8), readU64 padded] := rfl

theorem length_assemble (padded : List UInt8) : (assemble padded).length = 4 := by
  rw [assemble_eq]; rfl

/-- `U256::from_big_endian`. -/
def fromBigEndian (slice : List UInt8) : Option U256 :=
  if slice.length ≤ 4 * 8 then
    some ⟨assemble (List.replicate (4 * 8 - slice.length) 0 ++ slice), length_assemble _⟩
  else none

/-- `U256::from([u8; 32])`: `from_big_endian` of a whole word, whose length assertion holds. -/
def fromWord (w : FixedBytes 32) : U256 :=
  (fromBigEndian w.bytes).get (by simp [fromBigEndian])

theorem fromBigEndian_word (w : FixedBytes 32) : fromBigEndian w.bytes = some (fromWord w) :=
  (Option.some_get _).symm

/-- `U256::to_big_endian`: bytes `8i..8i+8` hold limb `4 - i - 1`, big-endian. -/
def toBigEndian (x : U256) : List UInt8 :=
  (List.range 4).flatMap fun i => beBytes 8 (x.limbs.getD (4 - i - 1) 0).toNat

theorem toNat_mk (l₀ l₁ l₂ l₃ : UInt64) (h) :
    toNat ⟨[l₀, l₁, l₂, l₃], h⟩ = l₀.toNat + 2 ^ 64 * (l₁.toNat + 2 ^ 64 * (l₂.toNat + 2 ^ 64 * l₃.toNat)) := by
  simp [toNat]

theorem eq_mk (x : U256) : ∃ l₀ l₁ l₂ l₃ h, x = ⟨[l₀, l₁, l₂, l₃], h⟩ := by
  obtain ⟨l, hl⟩ := x
  match l, hl with
  | [l₀, l₁, l₂, l₃], h => exact ⟨l₀, l₁, l₂, l₃, h, rfl⟩

theorem toNat_lt (x : U256) : x.toNat < 2 ^ 256 := by
  obtain ⟨l₀, l₁, l₂, l₃, h, rfl⟩ := eq_mk x
  rw [toNat_mk]
  have := l₀.toNat_lt_size; have := l₁.toNat_lt_size
  have := l₂.toNat_lt_size; have := l₃.toNat_lt_size
  simp only [UInt64.size] at *
  omega

theorem toNat_injective {x y : U256} (h : x.toNat = y.toNat) : x = y := by
  obtain ⟨l₀, l₁, l₂, l₃, hx, rfl⟩ := eq_mk x
  obtain ⟨m₀, m₁, m₂, m₃, hy, rfl⟩ := eq_mk y
  rw [toNat_mk, toNat_mk] at h
  have := l₀.toNat_lt_size; have := l₁.toNat_lt_size
  have := l₂.toNat_lt_size; have := l₃.toNat_lt_size
  have := m₀.toNat_lt_size; have := m₁.toNat_lt_size
  have := m₂.toNat_lt_size; have := m₃.toNat_lt_size
  simp only [UInt64.size] at *
  simp only [mk.injEq, List.cons.injEq, and_true]
  refine ⟨UInt64.toNat.inj ?_, UInt64.toNat.inj ?_, UInt64.toNat.inj ?_, UInt64.toNat.inj ?_⟩ <;>
    omega

theorem toNat_ofNat {n : Nat} (h : n < 2 ^ 256) : (ofNat n).toNat = n := by
  simp only [ofNat, List.map_cons, List.map_nil, toNat_mk]
  simp only [UInt64.toNat, UInt64.ofNat, BitVec.toNat_ofNat]
  omega

theorem toNat_readU64 (buf : List UInt8) : (readU64 buf).toNat = beValue (buf.take 8) := by
  refine UInt64.toNat_ofNat_of_lt (Nat.lt_of_lt_of_le (beValue_lt _) ?_)
  exact (Nat.pow_le_pow_right (by decide) (List.length_take_le 8 buf)).trans (by decide)

theorem fromBigEndian_eq_none_iff {slice : List UInt8} :
    fromBigEndian slice = none ↔ 32 < slice.length := by
  simp [fromBigEndian]

/-- On a slice of at most 32 bytes `from_big_endian` returns the slice's big-endian value. -/
theorem toNat_fromBigEndian {slice : List UInt8} (h : slice.length ≤ 32) :
    ∃ x, fromBigEndian slice = some x ∧ x.toNat = beValue slice := by
  refine ⟨_, if_pos h, ?_⟩
  generalize hp : List.replicate (4 * 8 - slice.length) 0 ++ slice = padded
  have hlen : padded.length = 32 := by rw [← hp]; simp; omega
  have hval : beValue padded = beValue slice := by
    rw [← hp, beValue_append, beValue_replicate_zero, Nat.zero_mul, Nat.zero_add]
  have e₀ := beValue_take_drop padded 8
  have e₁ := beValue_take_drop (padded.drop 8) 8
  have e₂ := beValue_take_drop (padded.drop 16) 8
  have e₃ : (padded.drop 24).take 8 = padded.drop 24 := List.take_of_length_le (by simp [hlen])
  simp only [List.drop_drop, List.length_drop, hlen] at e₀ e₁ e₂
  simp only [toNat, assemble_eq, List.foldr, toNat_readU64, e₃]
  norm_num at e₀ e₁ e₂ ⊢
  omega

theorem toBigEndian_mk (l₀ l₁ l₂ l₃ : UInt64) (h) :
    toBigEndian ⟨[l₀, l₁, l₂, l₃], h⟩ =
      beBytes 8 l₃.toNat ++ (beBytes 8 l₂.toNat ++ (beBytes 8 l₁.toNat ++ beBytes 8 l₀.toNat)) := by
  simp [toBigEndian, List.range_succ]

theorem readU64_append {a : List UInt8} (ha : a.length = 8) (b : List UInt8) :
    readU64 (a ++ b) = readU64 a := by
  rw [readU64, readU64, List.take_left' ha, List.take_of_length_le ha.le]

theorem readU64_beBytes (l : UInt64) : readU64 (beBytes 8 l.toNat) = l := by
  rw [readU64, List.take_of_length_le (by simp), beValue_beBytes_of_lt l.toNat_lt_size]
  exact UInt64.toNat.inj (UInt64.toNat_ofNat_of_lt l.toNat_lt_size)

/-- Four 8-byte words are assembled into limbs last word first. -/
theorem assemble_append {a b c : List UInt8} (ha : a.length = 8) (hb : b.length = 8)
    (hc : c.length = 8) (d : List UInt8) :
    assemble (a ++ (b ++ (c ++ d))) = [readU64 d, readU64 c, readU64 b, readU64 a] := by
  rw [assemble_eq]
  simp [List.drop_append_eq_append_drop, List.drop_of_length_le, ha, hb, hc, readU64_append]

theorem fromBigEndian_toBigEndian (x : U256) : fromBigEndian x.toBigEndian = some x := by
  obtain ⟨l₀, l₁, l₂, l₃, h, rfl⟩ := eq_mk x
  have h8 : ∀ l : UInt64, (beBytes 8 l.toNat).length = 8 := fun _ => length_beBytes 8 _
  rw [fromBigEndian, if_pos (by simp [toBigEndian_mk]), Option.some_inj, mk.injEq, toBigEndian_mk,
    (by simp [h8] : 4 * 8 - (beBytes 8 l₃.toNat ++
      (beBytes 8 l₂.toNat ++ (beBytes 8 l₁.toNat ++ beBytes 8 l₀.toNat))).length = 0),
    List.replicate_zero, List.nil_append, assemble_append (h8 _) (h8 _) (h8 _)]
  simp only [readU64_beBytes]

theorem length_toBigEndian (x : U256) : x.toBigEndian.length = 32 := by
  obtain ⟨l₀, l₁, l₂, l₃, h, rfl⟩ := eq_mk x
  simp [toBigEndian_mk]

theorem fromWord_toBigEndian (x : U256) : fromWord ⟨x.toBigEndian, length_toBigEndian x⟩ = x :=
  Option.some_injective _ (by rw [← fromBigEndian_word]; exact fromBigEndian_toBigEndian x)

end U256

end SuccinctBridge
