import Mathlib.Data.List.Basic
import Mathlib.Tactic.Ring

/-!
# Bytes, fixed arrays and big-endian integers

The source reads relayer-supplied `Vec<u8>` buffers, here `List UInt8`, into fixed arrays `[u8; N]`
(`FixedBytes N`; the `H160` and `H256` of `primitive_types` are the 20- and 32-byte ones) and into
`u16`, `u32`, `u64` with `from_be_bytes`.

Source code that can panic (a slice index past the end, an `unwrap` of `None` or `Err`, a failed
length assertion) is modelled in `Option`, with `none` for the panic. A function returning
`Result<T, E>` that can also panic is modelled in `ExceptT E Option T`: its `run` is `none` on a
panic and `some (.error e)` on an `Err`.

`beValue` reads a byte string as a big-endian number, `beBytes w x` writes the `w`-byte big-endian
encoding of `x`, and `stripZeros` drops leading zero bytes (the minimal big-endian form that RLP
uses for integers and lengths).
-/

namespace SuccinctBridge

/-- Results compare by their contents, so that outcomes on fixed inputs can be checked by
evaluation. -/
instance instDecidableEqExcept {ε α : Type} [DecidableEq ε] [DecidableEq α] :
    DecidableEq (Except ε α)
  | .ok a, .ok b => if h : a = b then isTrue (h ▸ rfl) else isFalse fun e => h (by cases e; rfl)
  | .error a, .error b => if h : a = b then isTrue (h ▸ rfl) else isFalse fun e => h (by cases e; rfl)
  | .ok _, .error _ => isFalse nofun
  | .error _, .ok _ => isFalse nofun

/-! ### Machine bytes -/

@[simp] theorem UInt8.toNat_ofNat' (n : Nat) : (UInt8.ofNat n).toNat = n % 256 := rfl

theorem UInt8.toNat_lt (b : UInt8) : b.toNat < 256 := b.toNat_lt_size

@[simp] theorem UInt8.ofNat_toNat' (b : UInt8) : UInt8.ofNat b.toNat = b :=
  UInt8.toNat.inj (by simp [Nat.mod_eq_of_lt (UInt8.toNat_lt b)])

/-! ### Fixed arrays -/

/-- A fixed array `[u8; n]`. -/
structure FixedBytes (n : Nat) where
  bytes : List UInt8
  length_bytes : bytes.length = n
deriving DecidableEq, Repr

attribute [simp] FixedBytes.length_bytes

/-- `primitive_types::H160`, a 20-byte address. -/
abbrev H160 := FixedBytes 20

/-- `primitive_types::H256`, a 32-byte hash or word. -/
abbrev H256 := FixedBytes 32

namespace FixedBytes
variable {n : Nat}

@[ext] theorem ext {a b : FixedBytes n} (h : a.bytes = b.bytes) : a = b := by
  cases a; cases b; cases h; rfl

/-- The all-zero array (`H256::zero()`, `Default::default()`). -/
def zero (n : Nat) : FixedBytes n := ⟨List.replicate n 0, List.length_replicate n 0⟩

/-- `buf[..n].copy_from_slice(src)` into a fresh `[u8; n]`: panics unless `src` has `n` bytes. -/
def copyFromSlice (n : Nat) (src : List UInt8) : Option (FixedBytes n) :=
  if h : src.length = n then some ⟨src, h⟩ else none

@[simp] theorem copyFromSlice_bytes (a : FixedBytes n) : copyFromSlice n a.bytes = some a := by
  simp [copyFromSlice]

theorem copyFromSlice_eq_some {src : List UInt8} (h : src.length = n) :
    copyFromSlice n src = some ⟨src, h⟩ := by
  simp [copyFromSlice, h]

theorem copyFromSlice_eq_none_iff {src : List UInt8} : copyFromSlice n src = none ↔ src.length ≠ n := by
  simp [copyFromSlice]

end FixedBytes

/-- `H256::from_slice`: `assert_eq!(src.len(), 32)`, then copy. -/
def H256.fromSlice (src : List UInt8) : Option H256 := FixedBytes.copyFromSlice 32 src

/-! ### Results

In a function returning `Result<T, E>`, modelled in `ExceptT E Option T`, the source's `?` on an
`Option` or on another `Result` becomes one of these. -/

/-- `o.ok_or_else(|| e)?`. -/
def okOrElse {ε α : Type} (o : Option α) (e : ε) : ExceptT ε Option α :=
  match o with
  | some a => pure a
  | none => throw e

/-- `r.map_err(|_| e)?`. -/
def mapErr {ε ε' α : Type} (r : Except ε' α) (e : ε) : ExceptT ε Option α :=
  match r with
  | .ok a => pure a
  | .error _ => throw e

@[simp] theorem Except.ok_bind {ε α β : Type} (a : α) (f : α → Except ε β) :
    (Except.ok a >>= f) = f a := rfl

@[simp] theorem Except.error_bind {ε α β : Type} (e : ε) (f : α → Except ε β) :
    (Except.error e >>= f) = Except.error e := rfl

@[simp] theorem Except.map_ok {ε α β : Type} (f : α → β) (a : α) :
    (f <$> Except.ok a : Except ε β) = .ok (f a) := rfl

@[simp] theorem Except.map_error {ε α β : Type} (f : α → β) (e : ε) :
    (f <$> Except.error e : Except ε β) = .error e := rfl

/-- A bind that succeeds succeeded at its first step. -/
theorem Except.bind_eq_ok {ε α β : Type} {x : Except ε α} {f : α → Except ε β} {b : β} :
    x >>= f = .ok b ↔ ∃ a, x = .ok a ∧ f a = .ok b := by
  cases x <;> simp

@[simp] theorem Except.toOption_ok {ε α : Type} (a : α) : (Except.ok a : Except ε α).toOption = some a :=
  rfl

@[simp] theorem Except.toOption_error {ε α : Type} (e : ε) :
    (Except.error e : Except ε α).toOption = none := rfl

@[simp] theorem okOrElse_some {ε α : Type} (a : α) (e : ε) : okOrElse (some a) e = pure a := rfl
@[simp] theorem okOrElse_none {ε α : Type} (e : ε) : okOrElse (none : Option α) e = throw e := rfl
@[simp] theorem mapErr_ok {ε ε' α : Type} (a : α) (e : ε) : mapErr (.ok a : Except ε' α) e = pure a := rfl
@[simp] theorem mapErr_error {ε ε' α : Type} (x : ε') (e : ε) :
    mapErr (.error x : Except ε' α) e = throw e := rfl

/-! ### Slices -/

/-- `&s[lo..hi]`: panics unless `lo ≤ hi ≤ s.len()`. -/
def slice (s : List UInt8) (lo hi : Nat) : Option (List UInt8) :=
  if lo ≤ hi ∧ hi ≤ s.length then some ((s.drop lo).take (hi - lo)) else none

/-- `&s[lo..]`: panics unless `lo ≤ s.len()`. -/
def sliceFrom (s : List UInt8) (lo : Nat) : Option (List UInt8) :=
  if lo ≤ s.length then some (s.drop lo) else none

/-- `buf[..n].copy_from_slice(&s[lo..lo + n])` into a fresh `[u8; n]`: the fixed-offset read
every decoder of the source is made of. -/
def readArray (n : Nat) (s : List UInt8) (lo : Nat) : Option (FixedBytes n) := do
  FixedBytes.copyFromSlice n (← slice s lo (lo + n))

theorem slice_eq_none_iff {s : List UInt8} {lo hi : Nat} (h : lo ≤ hi) :
    slice s lo hi = none ↔ s.length < hi := by
  simp [slice, h]

theorem readArray_eq_none_iff {n : Nat} {s : List UInt8} {lo : Nat} :
    readArray n s lo = none ↔ s.length < lo + n := by
  simp only [readArray, Option.bind_eq_bind, Option.bind_eq_none]
  constructor
  · intro h
    by_contra hlt
    have hs : slice s lo (lo + n) = some ((s.drop lo).take n) := by
      simp [slice]; omega
    exact absurd (h _ hs) (by simp [FixedBytes.copyFromSlice]; omega)
  · intro hlt c hc
    exact absurd hc (by rw [(slice_eq_none_iff (by omega)).2 hlt]; simp)

theorem readArray_append_left {a : List UInt8} {n lo : Nat} (h : lo + n ≤ a.length)
    (c : List UInt8) : readArray n (a ++ c) lo = readArray n a lo := by
  have h' : lo + n ≤ (a ++ c).length := by simp; omega
  simp only [readArray, slice, if_pos (And.intro (Nat.le_add_right lo n) h),
    if_pos (And.intro (Nat.le_add_right lo n) h'), List.drop_append_of_le_length (by omega : lo ≤ a.length)]
  rw [List.take_append_of_le_length (by simp; omega)]

/-- The array read right after a prefix of `lo` bytes is the array that follows it. -/
theorem readArray_append_fixed {a : List UInt8} {n lo : Nat} (ha : a.length = lo) (b : FixedBytes n) :
    readArray n (a ++ b.bytes) lo = some b := by
  subst ha
  simp [readArray, slice, FixedBytes.copyFromSlice, FixedBytes.ext_iff]

theorem readArray_fixed {n : Nat} (b : FixedBytes n) : readArray n b.bytes 0 = some b :=
  @readArray_append_fixed [] n 0 rfl b

theorem sliceFrom_append {a : List UInt8} {lo : Nat} (ha : a.length = lo) (b : List UInt8) :
    sliceFrom (a ++ b) lo = some b := by
  subst ha; simp [sliceFrom]

/-- A buffer of `n + m` bytes is a buffer of `n` bytes followed by one of `m`. -/
theorem exists_append_of_length (bs : List UInt8) (n m : Nat) (h : bs.length = n + m) :
    ∃ a b : List UInt8, a.length = n ∧ b.length = m ∧ bs = a ++ b :=
  ⟨bs.take n, bs.drop n, by simp [h], by simp [h], (List.take_append_drop n bs).symm⟩

/-! ### Big-endian integers -/

/-- The number a byte string denotes read big-endian (`from_be_bytes`). -/
def beValue (bs : List UInt8) : Nat := bs.foldl (fun acc b => acc * 256 + b.toNat) 0

/-- The `w`-byte big-endian encoding of `x % 256 ^ w` (`to_be_bytes`). -/
def beBytes : Nat → Nat → List UInt8
  | 0, _ => []
  | w + 1, x => beBytes w (x / 256) ++ [UInt8.ofNat x]

theorem foldl_beValue (bs : List UInt8) (acc : Nat) :
    bs.foldl (fun acc b => acc * 256 + b.toNat) acc = acc * 256 ^ bs.length + beValue bs := by
  induction bs generalizing acc with
  | nil => simp only [List.foldl_nil, List.length_nil, Nat.pow_zero, Nat.mul_one]; rfl
  | cons b bs ih =>
    have h0 : beValue (b :: bs) = (0 * 256 + b.toNat) * 256 ^ bs.length + beValue bs := ih _
    rw [List.foldl_cons, ih, h0, List.length_cons]
    ring

@[simp] theorem beValue_nil : beValue [] = 0 := rfl

theorem beValue_append (a b : List UInt8) :
    beValue (a ++ b) = beValue a * 256 ^ b.length + beValue b := by
  rw [beValue, List.foldl_append, foldl_beValue]; rfl

theorem beValue_cons (b : UInt8) (bs : List UInt8) :
    beValue (b :: bs) = b.toNat * 256 ^ bs.length + beValue bs := by
  rw [beValue, List.foldl_cons, foldl_beValue]; simp

theorem beValue_concat (bs : List UInt8) (b : UInt8) :
    beValue (bs ++ [b]) = beValue bs * 256 + b.toNat := by
  simp [beValue_append, beValue_cons]

theorem beValue_lt (bs : List UInt8) : beValue bs < 256 ^ bs.length := by
  induction bs using List.reverseRecOn with
  | nil => simp
  | append_singleton bs b ih =>
    rw [beValue_concat, List.length_append, List.length_singleton, Nat.pow_succ]
    have := UInt8.toNat_lt b
    have := Nat.mul_le_mul_right 256 ih
    omega

@[simp] theorem length_beBytes (w x : Nat) : (beBytes w x).length = w := by
  induction w generalizing x with
  | zero => rfl
  | succ w ih => simp [beBytes, ih]

theorem beValue_beBytes (w x : Nat) : beValue (beBytes w x) = x % 256 ^ w := by
  induction w generalizing x with
  | zero => simp [beBytes, Nat.mod_one]
  | succ w ih =>
    rw [beBytes, beValue_concat, ih, UInt8.toNat_ofNat', Nat.pow_succ, Nat.mul_comm (256 ^ w),
      Nat.mod_mul]
    ring

theorem beBytes_beValue (bs : List UInt8) : beBytes bs.length (beValue bs) = bs := by
  induction bs using List.reverseRecOn with
  | nil => rfl
  | append_singleton bs b ih =>
    have hb := UInt8.toNat_lt b
    rw [List.length_append, List.length_singleton, beBytes, beValue_concat,
      show (beValue bs * 256 + b.toNat) / 256 = beValue bs by omega, ih]
    congr
    exact UInt8.toNat.inj (by simp; omega)

/-- A byte string of width `w` is the `w`-byte encoding of its value. -/
theorem beBytes_beValue_of_length {bs : List UInt8} {w : Nat} (h : bs.length = w) :
    beBytes w (beValue bs) = bs := h ▸ beBytes_beValue bs

theorem beValue_beBytes_of_lt {w x : Nat} (h : x < 256 ^ w) : beValue (beBytes w x) = x := by
  rw [beValue_beBytes, Nat.mod_eq_of_lt h]

/-! ### Fixed-width unsigned integers

`u16`, `u32` and `u64` are read from and written to their big-endian byte arrays through `beValue`
and `beBytes`; each reader undoes its writer and conversely. -/

/-- `u16::from_be_bytes`. -/
def UInt16.fromBeBytes (b : FixedBytes 2) : UInt16 := UInt16.ofNat (beValue b.bytes)

/-- `u32::from_be_bytes`. -/
def UInt32.fromBeBytes (b : FixedBytes 4) : UInt32 := UInt32.ofNat (beValue b.bytes)

/-- `u64::from_be_bytes`. -/
def UInt64.fromBeBytes (b : FixedBytes 8) : UInt64 := UInt64.ofNat (beValue b.bytes)

/-- `u16::to_be_bytes`. -/
def UInt16.toBeBytes (x : UInt16) : FixedBytes 2 := ⟨beBytes 2 x.toNat, length_beBytes ..⟩

/-- `u32::to_be_bytes`. -/
def UInt32.toBeBytes (x : UInt32) : FixedBytes 4 := ⟨beBytes 4 x.toNat, length_beBytes ..⟩

/-- `u64::to_be_bytes`. -/
def UInt64.toBeBytes (x : UInt64) : FixedBytes 8 := ⟨beBytes 8 x.toNat, length_beBytes ..⟩

theorem beValue_lt_of_length {bs : List UInt8} {w : Nat} (h : bs.length = w) :
    beValue bs < 256 ^ w := h ▸ beValue_lt bs

@[simp] theorem UInt16.fromBeBytes_toBeBytes (x : UInt16) :
    UInt16.fromBeBytes (UInt16.toBeBytes x) = x :=
  UInt16.toNat.inj (by
    rw [fromBeBytes, toBeBytes, beValue_beBytes_of_lt (x.toNat_lt_size : x.toNat < 256 ^ 2)]
    exact UInt16.toNat_ofNat_of_lt x.toNat_lt_size)

@[simp] theorem UInt32.fromBeBytes_toBeBytes (x : UInt32) :
    UInt32.fromBeBytes (UInt32.toBeBytes x) = x :=
  UInt32.toNat.inj (by
    rw [fromBeBytes, toBeBytes, beValue_beBytes_of_lt (x.toNat_lt_size : x.toNat < 256 ^ 4)]
    exact UInt32.toNat_ofNat_of_lt x.toNat_lt_size)

@[simp] theorem UInt64.fromBeBytes_toBeBytes (x : UInt64) :
    UInt64.fromBeBytes (UInt64.toBeBytes x) = x :=
  UInt64.toNat.inj (by
    rw [fromBeBytes, toBeBytes, beValue_beBytes_of_lt (x.toNat_lt_size : x.toNat < 256 ^ 8)]
    exact UInt64.toNat_ofNat_of_lt x.toNat_lt_size)

@[simp] theorem UInt16.toBeBytes_fromBeBytes (b : FixedBytes 2) :
    UInt16.toBeBytes (UInt16.fromBeBytes b) = b := by
  have h : beValue b.bytes < UInt16.size := beValue_lt_of_length b.length_bytes
  ext1
  show beBytes 2 (UInt16.ofNat (beValue b.bytes)).toNat = b.bytes
  rw [UInt16.toNat_ofNat_of_lt h, beBytes_beValue_of_length b.length_bytes]

@[simp] theorem UInt32.toBeBytes_fromBeBytes (b : FixedBytes 4) :
    UInt32.toBeBytes (UInt32.fromBeBytes b) = b := by
  have h : beValue b.bytes < UInt32.size := beValue_lt_of_length b.length_bytes
  ext1
  show beBytes 4 (UInt32.ofNat (beValue b.bytes)).toNat = b.bytes
  rw [UInt32.toNat_ofNat_of_lt h, beBytes_beValue_of_length b.length_bytes]

@[simp] theorem UInt64.toBeBytes_fromBeBytes (b : FixedBytes 8) :
    UInt64.toBeBytes (UInt64.fromBeBytes b) = b := by
  have h : beValue b.bytes < UInt64.size := beValue_lt_of_length b.length_bytes
  ext1
  show beBytes 8 (UInt64.ofNat (beValue b.bytes)).toNat = b.bytes
  rw [UInt64.toNat_ofNat_of_lt h, beBytes_beValue_of_length b.length_bytes]

/-! ### Leading zero bytes -/

/-- A byte string without its leading zero bytes. -/
def stripZeros (bs : List UInt8) : List UInt8 := bs.dropWhile (· == 0)

@[simp] theorem stripZeros_nil : stripZeros [] = [] := rfl

theorem stripZeros_cons_zero (bs : List UInt8) : stripZeros (0 :: bs) = stripZeros bs := by
  simp [stripZeros, List.dropWhile_cons]

theorem stripZeros_cons_of_ne {b : UInt8} (hb : b ≠ 0) (bs : List UInt8) :
    stripZeros (b :: bs) = b :: bs := by
  simp [stripZeros, List.dropWhile_cons, hb]

theorem beValue_stripZeros (bs : List UInt8) : beValue (stripZeros bs) = beValue bs := by
  induction bs with
  | nil => rfl
  | cons b bs ih =>
    by_cases hb : b = 0
    · subst hb; rw [stripZeros_cons_zero, ih, beValue_cons]; simp
    · rw [stripZeros_cons_of_ne hb]

theorem length_stripZeros_le (bs : List UInt8) : (stripZeros bs).length ≤ bs.length :=
  (List.dropWhile_suffix _).length_le

/-- The first byte left after stripping is not zero. -/
theorem head_stripZeros_ne_zero {bs : List UInt8} {b : UInt8} {rest : List UInt8}
    (h : stripZeros bs = b :: rest) : b ≠ 0 := by
  have := List.head_dropWhile_not (· == 0) bs (by unfold stripZeros at h; simp [h])
  unfold stripZeros at h
  simp only [h, List.head_cons, beq_eq_false_iff_ne] at this
  exact this

end SuccinctBridge
