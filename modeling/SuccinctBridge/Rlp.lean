import SuccinctBridge.Bytes

/-!
# RLP, as the storage-proof code reads it

`get_storage_value` and `get_storage_root` read what the trie lookup returns with the `rlp` crate:
`Rlp::new(bytes)` and then `data()` (the payload of the item the bytes start with), `item_count()`
(how many items `at` reaches, one after another) and `at(i)` (the `i`-th item of a list). They are
modelled here from the crate's decoder (`PayloadInfo::from`, `BasicDecoder::payload_info`,
`Rlp::consume_items`), with `usize` eight bytes wide.

An `Rlp` keeps an offset cache in a `Cell`, and it changes what `at` returns: from a cached item at
or before the index asked for, `at_with_offset` skips on in the whole bytes rather than in the
list's payload, so `item_count`, which calls `at(0)`, `at(1)`, ... in turn, also counts items
that follow the list in the bytes (`[0xc1, 0x01, 0x02]` has two). `skipTo`, `atWithOffset`,
`atIndex` and `itemCount` take the cache and return the one they leave. `countFrom_add_fuel`: the
loop of `item_count` stops within a round per byte.

`RlpItem.encode` is Ethereum's RLP encoding of byte strings and lists. The decoder reads back what
it writes, as long as every length fits the eight bytes of a `usize` (a buffer held in memory
does): `payloadInfo_encode` for the header of one item, and from it `data_encode`; on the
encoding of a list, from any cache that points at one of its items (`CachesItem`), `at(i)` returns
the `i`-th item (`atWithOffset_encode_list`) and `item_count` the number of items
(`itemCount_encode_list`).
-/

namespace SuccinctBridge

/-- `rlp::DecoderError`, for the errors these calls raise. -/
inductive DecoderError
  | rlpIsTooShort
  | rlpExpectedToBeList
  | rlpIsTooBig
  | rlpInvalidIndirection
  | rlpDataLenWithZeroPrefix
deriving DecidableEq, Repr

/-- `rlp::PayloadInfo`: the lengths of an item's header and of its payload. -/
structure PayloadInfo where
  headerLen : Nat
  valueLen : Nat
deriving DecidableEq, Repr

namespace Rlp

/-- `mem::size_of::<usize>()`. -/
def usizeBytes : Nat := 8

/-- `decode_usize`: a big-endian length of at most `usize` bytes, without a leading zero
(`bytes` is never empty here). -/
def decodeUsize (bytes : List UInt8) : Except DecoderError Nat :=
  if bytes.length ≤ usizeBytes then
    if bytes.head? = some 0 then .error .rlpInvalidIndirection else .ok (beValue bytes)
  else .error .rlpIsTooBig

/-- `calculate_payload_info`: the header of a long item, `1 + lenOfLen` bytes. -/
def calculatePayloadInfo (header : List UInt8) (lenOfLen : Nat) :
    Except DecoderError PayloadInfo :=
  let headerLen := 1 + lenOfLen
  match (header[1]? : Option UInt8) with
  | some 0 => .error .rlpDataLenWithZeroPrefix
  | none => .error .rlpIsTooShort
  | some _ =>
    if header.length < headerLen then .error .rlpIsTooShort
    else do
      let valueLen ← decodeUsize ((header.drop 1).take lenOfLen)
      if valueLen ≤ 55 then .error .rlpInvalidIndirection else .ok ⟨headerLen, valueLen⟩

/-- `PayloadInfo::from`: the header of the item the bytes start with. -/
def payloadInfoFrom (header : List UInt8) : Except DecoderError PayloadInfo :=
  match header with
  | [] => .error .rlpIsTooShort
  | l :: _ =>
    if l.toNat ≤ 0x7f then .ok ⟨0, 1⟩
    else if l.toNat ≤ 0xb7 then .ok ⟨1, l.toNat - 0x80⟩
    else if l.toNat ≤ 0xbf then calculatePayloadInfo header (l.toNat - 0xb7)
    else if l.toNat ≤ 0xf7 then .ok ⟨1, l.toNat - 0xc0⟩
    else calculatePayloadInfo header (l.toNat - 0xf7)

/-- `BasicDecoder::payload_info`: the header, when the whole item lies inside the bytes
(`checked_add` cannot overflow on lengths of buffers in memory). -/
def payloadInfo (bytes : List UInt8) : Except DecoderError PayloadInfo := do
  let item ← payloadInfoFrom bytes
  if item.headerLen + item.valueLen ≤ bytes.length then pure item else throw .rlpIsTooShort

/-- `Rlp::is_list`. -/
def isList (bytes : List UInt8) : Bool :=
  match bytes with
  | [] => false
  | b :: _ => 0xc0 ≤ b.toNat

/-- `Rlp::data`: the payload of the item the bytes start with. -/
def data (bytes : List UInt8) : Except DecoderError (List UInt8) := do
  let pi ← payloadInfo bytes
  pure ((bytes.drop pi.headerLen).take pi.valueLen)

/-- `Rlp::consume`. -/
def consume (bytes : List UInt8) (len : Nat) : Except DecoderError (List UInt8) :=
  if len ≤ bytes.length then .ok (bytes.drop len) else .error .rlpIsTooShort

/-- `Rlp::consume_list_payload`: the payload of the list the bytes start with, and the length of
its header. -/
def consumeListPayload (bytes : List UInt8) : Except DecoderError (List UInt8 × Nat) := do
  let item ← payloadInfo bytes
  if bytes.length < item.headerLen + item.valueLen then .error .rlpIsTooShort
  else pure ((bytes.drop item.headerLen).take item.valueLen, item.headerLen)

/-- `Rlp::consume_items`: the bytes after the first `items` items, and the length of those
items. -/
def consumeItems (bytes : List UInt8) : Nat → Except DecoderError (List UInt8 × Nat)
  | 0 => .ok (bytes, 0)
  | items + 1 => do
    let i ← payloadInfo bytes
    let rest ← consume bytes (i.headerLen + i.valueLen)
    let (rest, consumed) ← consumeItems rest items
    pure (rest, i.headerLen + i.valueLen + consumed)

/-- `rlp::OffsetCache`, which an `Rlp` keeps in a `Cell`: the index of the item an `at` reached
last, and that item's offset in the bytes. -/
structure OffsetCache where
  index : Nat
  offset : Nat
deriving DecidableEq, Repr

/-- The first half of `Rlp::at_with_offset`: the bytes from the `index`-th item on, and their
offset. From a cached item at or before `index` it skips on from the cached offset in the whole
bytes (`Rlp::consume(self.bytes, cache.offset)`), and so can run past the end of the list's
payload into bytes after it; otherwise it skips from the start of the payload. -/
def skipTo (bytes : List UInt8) (cache : Option OffsetCache) (index : Nat) :
    Except DecoderError (List UInt8 × Nat) := do
  let (start, toSkip, consumed) ← match cache.filter (·.index ≤ index) with
    | some c => (·, index - c.index, c.offset) <$> consume bytes c.offset
    | none => (fun (payload, consumed) => (payload, index, consumed)) <$> consumeListPayload bytes
  let (rest, skipped) ← consumeItems start toSkip
  pure (rest, consumed + skipped)

/-- `Rlp::at_with_offset` on an `Rlp` whose offset cache holds `cache`: the `index`-th item and
its offset, with what the call leaves in the cache. The cache moves to `index` once the skip
succeeds, whether an item follows or not. -/
def atWithOffset (bytes : List UInt8) (cache : Option OffsetCache) (index : Nat) :
    Except DecoderError (List UInt8 × Nat) × Option OffsetCache :=
  if !isList bytes then (.error .rlpExpectedToBeList, cache)
  else
    match skipTo bytes cache index with
    | .error e => (.error e, cache)
    | .ok (rest, offset) =>
      ((fun found => (rest.take (found.headerLen + found.valueLen), offset)) <$> payloadInfo rest,
        some ⟨index, offset⟩)

/-- `Rlp::at`: the item `at_with_offset` finds, with the cache it leaves. -/
def atIndex (bytes : List UInt8) (cache : Option OffsetCache) (index : Nat) :
    Except DecoderError (List UInt8) × Option OffsetCache :=
  let found := atWithOffset bytes cache index
  ((·.1) <$> found.1, found.2)

/-- The loop of `self.iter().count()`, from `index` on for `fuel` rounds: `at(index)`,
`at(index + 1)`, ... until one fails, each through the cache the one before left; the index it
stops at, and the cache. -/
def countFrom (bytes : List UInt8) : Nat → Option OffsetCache → Nat → Nat × Option OffsetCache
  | 0, cache, index => (index, cache)
  | fuel + 1, cache, index =>
    match atWithOffset bytes cache index with
    | (.ok _, cache) => countFrom bytes fuel cache (index + 1)
    | (.error _, cache) => (index, cache)

/-- `Rlp::item_count` on an `Rlp` whose offset cache holds `cache` and whose count cache is
empty, as it is the first time an `Rlp` is counted: the items `iter()` reaches, with the offset
cache it leaves. Each item found lies past the one before it, so the loop stops within
`bytes.length + 1` rounds (`countFrom_add_fuel`). -/
def itemCount (bytes : List UInt8) (cache : Option OffsetCache) :
    Except DecoderError Nat × Option OffsetCache :=
  if isList bytes then
    let counted := countFrom bytes (bytes.length + 1) cache 0
    (.ok counted.1, counted.2)
  else (.error .rlpExpectedToBeList, cache)

end Rlp

/-! ### Facts about the decoder -/

namespace Rlp

theorem calculatePayloadInfo_headerLen {header : List UInt8} {k : Nat} {i : PayloadInfo}
    (h : calculatePayloadInfo header k = .ok i) : i.headerLen = 1 + k := by
  unfold calculatePayloadInfo at h
  split at h
  · cases h
  · cases h
  · dsimp only at h
    split_ifs at h
    cases hd : decodeUsize ((header.drop 1).take k) <;> rw [hd] at h
    · cases h
    · rw [Except.ok_bind] at h
      split_ifs at h
      cases h; rfl

theorem payloadInfoFrom_pos {header : List UInt8} {j : PayloadInfo}
    (h : payloadInfoFrom header = .ok j) : 0 < j.headerLen + j.valueLen := by
  rcases header with _ | ⟨l, t⟩
  · cases h
  simp only [payloadInfoFrom] at h
  split_ifs at h
  · cases h; exact Nat.one_pos
  · cases h; exact Nat.lt_add_right _ Nat.one_pos
  · have := calculatePayloadInfo_headerLen h; omega
  · cases h; exact Nat.lt_add_right _ Nat.one_pos
  · have := calculatePayloadInfo_headerLen h; omega

/-- Every item takes a byte at least and lies inside the bytes. -/
theorem payloadInfo_bounds {bytes : List UInt8} {i : PayloadInfo} (h : payloadInfo bytes = .ok i) :
    0 < i.headerLen + i.valueLen ∧ i.headerLen + i.valueLen ≤ bytes.length := by
  unfold payloadInfo at h
  cases hf : payloadInfoFrom bytes with
  | error e => rw [hf] at h; cases h
  | ok j =>
    rw [hf, Except.ok_bind] at h
    split_ifs at h with hle
    cases h
    exact ⟨payloadInfoFrom_pos hf, hle⟩

theorem consume_ok {bytes rest : List UInt8} {len : Nat} (h : consume bytes len = .ok rest) :
    rest = bytes.drop len ∧ len ≤ bytes.length := by
  unfold consume at h
  split_ifs at h with hl
  · cases h; exact ⟨rfl, hl⟩

/-- The items `consume_items` skips take a byte each at least, and what is left follows them. -/
theorem consumeItems_ok : ∀ {bytes rest : List UInt8} {n m : Nat},
    consumeItems bytes n = .ok (rest, m) → rest = bytes.drop m ∧ n ≤ m ∧ m ≤ bytes.length
  | _, _, 0, _, h => by cases h; simp
  | bytes, rest, n + 1, m, h => by
    obtain ⟨i, hp, h⟩ := Except.bind_eq_ok.1 h
    obtain ⟨start, hs, h⟩ := Except.bind_eq_ok.1 h
    obtain ⟨⟨rest', m'⟩, hc, h⟩ := Except.bind_eq_ok.1 h
    cases h
    have := (payloadInfo_bounds hp).1
    obtain ⟨rfl, hb⟩ := consume_ok hs
    obtain ⟨rfl, hn, hm⟩ := consumeItems_ok hc
    simp only [List.length_drop] at hm
    exact ⟨List.drop_drop _ _ _, by omega, by omega⟩

theorem consumeListPayload_ok {bytes payload : List UInt8} {headerLen : Nat}
    (h : consumeListPayload bytes = .ok (payload, headerLen)) :
    payload.length + headerLen ≤ bytes.length := by
  obtain ⟨i, -, h⟩ := Except.bind_eq_ok.1 h
  split_ifs at h
  cases h; simp; omega

/-- What `skipTo` leaves lies in the bytes after its offset, and from a cached item at or before
`index` the offset is a byte further on for each item skipped. -/
theorem skipTo_ok {bytes rest : List UInt8} {cache : Option OffsetCache} {index offset : Nat}
    (h : skipTo bytes cache index = .ok (rest, offset)) :
    rest.length + offset ≤ bytes.length ∧
      ∀ c ∈ cache, c.index ≤ index → c.offset + (index - c.index) ≤ offset := by
  unfold skipTo at h
  rcases hf : cache.filter (·.index ≤ index) with _ | c
  · rcases hl : consumeListPayload bytes with e | ⟨payload, headerLen⟩
    · simp [hf, hl] at h
    have hp := consumeListPayload_ok hl
    rcases hi : consumeItems payload index with e | ⟨rest', n⟩
    · simp [hf, hl, hi] at h
    simp [hf, hl, hi] at h
    obtain ⟨rfl, rfl⟩ := h
    obtain ⟨rfl, -, hm⟩ := consumeItems_ok hi
    refine ⟨by simp; omega, fun c hc hle => ?_⟩
    rcases Option.filter_eq_none.1 hf with rfl | hn
    · cases hc
    · exact absurd hle (by simpa using hn c hc)
  · obtain ⟨hc, -⟩ := Option.filter_eq_some.1 hf
    rcases hs : consume bytes c.offset with e | start
    · simp [hf, hs] at h
    obtain ⟨rfl, hoff⟩ := consume_ok hs
    rcases hi : consumeItems (bytes.drop c.offset) (index - c.index) with e | ⟨rest', n⟩
    · simp [hf, hs, hi] at h
    simp [hf, hs, hi] at h
    obtain ⟨rfl, rfl⟩ := h
    obtain ⟨rfl, hn, hm⟩ := consumeItems_ok hi
    simp only [List.length_drop] at hm ⊢
    refine ⟨by omega, fun c' hc' _ => ?_⟩
    cases Option.mem_unique hc hc'
    omega

/-- An item `at` finds lies in the bytes and the cache moves to it; from the cached item just
before it, it lies past that item. -/
theorem atWithOffset_ok {bytes : List UInt8} {cache cache' : Option OffsetCache} {index : Nat}
    {found : List UInt8 × Nat} (h : atWithOffset bytes cache index = (.ok found, cache')) :
    cache' = some ⟨index, found.2⟩ ∧ found.2 < bytes.length ∧
      ∀ c ∈ cache, c.index + 1 = index → c.offset < found.2 := by
  unfold atWithOffset at h
  split_ifs at h
  · cases h
  rcases hs : skipTo bytes cache index with e | ⟨rest, offset⟩
  · rw [hs] at h; cases h
  rw [hs] at h
  dsimp only at h
  rcases hp : payloadInfo rest with e | i
  · rw [hp] at h; cases h
  rw [hp] at h
  cases h
  dsimp only
  have hb := payloadInfo_bounds hp
  obtain ⟨hlen, hc⟩ := skipTo_ok hs
  exact ⟨rfl, by omega, fun c hm hi => by have := hc c hm (by omega); omega⟩

/-- From a cached offset at or past the end, `at` fails and leaves the cache. -/
theorem atWithOffset_of_length_le {bytes : List UInt8} (i : Nat) {offset : Nat}
    (h : bytes.length ≤ offset) :
    ∃ e, atWithOffset bytes (some ⟨i, offset⟩) (i + 1) = (.error e, some ⟨i, offset⟩) := by
  unfold atWithOffset
  split_ifs
  · exact ⟨_, rfl⟩
  cases hs : skipTo bytes (some ⟨i, offset⟩) (i + 1) with
  | error e => exact ⟨e, rfl⟩
  | ok p =>
    obtain ⟨hl, hc⟩ := skipTo_ok hs
    have := hc ⟨i, offset⟩ rfl (by simp)
    dsimp only at this
    omega

theorem countFrom_add_fuel_of_cached {bytes : List UInt8} :
    ∀ (fuel i offset : Nat), bytes.length ≤ offset + fuel → ∀ k,
      countFrom bytes (fuel + k) (some ⟨i, offset⟩) (i + 1) =
        countFrom bytes fuel (some ⟨i, offset⟩) (i + 1)
  | 0, i, offset, h, k => by
    obtain ⟨e, he⟩ := atWithOffset_of_length_le i (by omega : bytes.length ≤ offset)
    cases k with
    | zero => rfl
    | succ k => simp only [Nat.zero_add, countFrom, he]
  | fuel + 1, i, offset, h, k => by
    rw [Nat.add_right_comm, countFrom, countFrom]
    rcases hat : atWithOffset bytes (some ⟨i, offset⟩) (i + 1) with ⟨_ | found, cache⟩
    · rfl
    · obtain ⟨rfl, -, hgt⟩ := atWithOffset_ok hat
      have := hgt _ rfl rfl
      dsimp only at this
      exact countFrom_add_fuel_of_cached fuel (i + 1) found.2 (by omega) k

/-- More rounds leave the count where `bytes.length + 1` rounds stop it: each item `at` finds in
the loop lies past the one before it and inside the bytes. -/
theorem countFrom_add_fuel (bytes : List UInt8) (cache : Option OffsetCache) (k : Nat) :
    countFrom bytes (bytes.length + 1 + k) cache 0 = countFrom bytes (bytes.length + 1) cache 0 := by
  rw [Nat.add_right_comm, countFrom, countFrom]
  rcases hat : atWithOffset bytes cache 0 with ⟨_ | found, cache'⟩
  · rfl
  · obtain ⟨rfl, -, -⟩ := atWithOffset_ok hat
    exact countFrom_add_fuel_of_cached _ 0 found.2 (by omega) k

/-- A list of one item followed by a second item counts two: `at(1)` resumes after the cached
`at(0)` in the whole bytes. -/
example : (itemCount [0xc1, 0x01, 0x02] none).1 = .ok 2 := rfl

theorem calculatePayloadInfo_long (b : UInt8) {c : UInt8} {cs : List UInt8} (rest : List UInt8) (hc : c ≠ 0)
    (hk : cs.length + 1 ≤ 8) (hv : 55 < beValue (c :: cs)) :
    calculatePayloadInfo (b :: c :: (cs ++ rest)) (cs.length + 1) =
      .ok ⟨1 + (cs.length + 1), beValue (c :: cs)⟩ := by
  have ht : (c :: (cs ++ rest)).take (cs.length + 1) = c :: cs := by simp
  simp [calculatePayloadInfo, decodeUsize, usizeBytes, hc, hk, ht]
  rw [if_neg (by omega)]
  exact if_neg (Nat.not_le.2 hv)

end Rlp

/-! ### Encoding -/

/-- An RLP item: a byte string or a list of items. -/
inductive RlpItem
  | str (bytes : List UInt8)
  | list (items : List RlpItem)

/-- The RLP header of a payload of `len` bytes: the byte `offset + len` up to 55 bytes, else the
byte `offset + 55 + k` and the `k`-byte big-endian length without leading zeros. -/
def encodeLength (len offset : Nat) : List UInt8 :=
  if len ≤ 55 then [UInt8.ofNat (offset + len)]
  else UInt8.ofNat (offset + 55 + (stripZeros (beBytes 8 len)).length) :: stripZeros (beBytes 8 len)

/-- A single byte below `0x80`, which is its own encoding. -/
def singleByte (s : List UInt8) : Bool :=
  match s with
  | [b] => b.toNat < 0x80
  | _ => false

/-- The RLP header of a byte string. -/
def stringHeader (s : List UInt8) : List UInt8 :=
  if singleByte s then [] else encodeLength s.length 0x80

mutual

/-- Ethereum's RLP encoding. -/
def RlpItem.encode : RlpItem → List UInt8
  | .str s => stringHeader s ++ s
  | .list items => encodeLength (RlpItem.encodeAll items).length 0xc0 ++ RlpItem.encodeAll items

/-- The encodings of a list's items, one after another. -/
def RlpItem.encodeAll : List RlpItem → List UInt8
  | [] => []
  | t :: ts => t.encode ++ RlpItem.encodeAll ts

end

namespace RlpItem

/-- The payload an item's encoding carries after its header. -/
def payload : RlpItem → List UInt8
  | .str s => s
  | .list items => encodeAll items

/-- The header of an item's encoding. -/
def header : RlpItem → List UInt8
  | .str s => stringHeader s
  | .list items => encodeLength (encodeAll items).length 0xc0

theorem encode_eq (t : RlpItem) : t.encode = t.header ++ t.payload := by
  cases t <;> simp [encode, header, payload]

@[simp] theorem encodeAll_nil : encodeAll [] = [] := by simp [encodeAll]

@[simp] theorem encodeAll_cons (t : RlpItem) (ts : List RlpItem) :
    encodeAll (t :: ts) = t.encode ++ encodeAll ts := by simp [encodeAll]

end RlpItem

/-! ### Decoding what is encoded -/

theorem stripZeros_beBytes_cons {len : Nat} (h0 : 55 < len) (h : len < 2 ^ 64) :
    ∃ c cs, stripZeros (beBytes 8 len) = c :: cs ∧ c ≠ 0 ∧ cs.length + 1 ≤ 8 ∧ beValue (c :: cs) = len := by
  have hv : beValue (stripZeros (beBytes 8 len)) = len :=
    (beValue_stripZeros _).trans (beValue_beBytes_of_lt h)
  have hne : stripZeros (beBytes 8 len) ≠ [] := fun hn => by
    rw [hn] at hv; simp at hv; omega
  obtain ⟨c, cs, hc⟩ := List.exists_cons_of_ne_nil hne
  have hk := length_stripZeros_le (beBytes 8 len)
  rw [hc, length_beBytes] at hk
  exact ⟨c, cs, hc, head_stripZeros_ne_zero hc, hk, hc ▸ hv⟩

theorem payloadInfoFrom_encodeLength {len offset : Nat} (hlen : len < 2 ^ 64)
    (hoff : offset = 0x80 ∨ offset = 0xc0) (rest : List UInt8) :
    Rlp.payloadInfoFrom (encodeLength len offset ++ rest) =
      .ok ⟨(encodeLength len offset).length, len⟩ := by
  unfold encodeLength
  split_ifs with h55
  · rw [List.singleton_append, Rlp.payloadInfoFrom, UInt8.toNat_ofNat', Nat.mod_eq_of_lt (by omega)]
    rcases hoff with rfl | rfl
    · rw [if_neg (by omega), if_pos (by omega), Nat.add_sub_cancel_left]; rfl
    · rw [if_neg (by omega), if_neg (by omega), if_neg (by omega), if_pos (by omega),
        Nat.add_sub_cancel_left]; rfl
  · obtain ⟨c, cs, hc, hc0, hk, hv⟩ := stripZeros_beBytes_cons (Nat.lt_of_not_le h55) hlen
    have hcalc := fun b => Rlp.calculatePayloadInfo_long b rest hc0 hk (hv ▸ Nat.lt_of_not_le h55)
    rw [hc, List.length_cons, List.cons_append, List.cons_append, Rlp.payloadInfoFrom,
      UInt8.toNat_ofNat', Nat.mod_eq_of_lt (by omega)]
    rcases hoff with rfl | rfl
    · rw [if_neg (by omega), if_neg (by omega), if_pos (by omega),
        show 0x80 + 55 + (cs.length + 1) - 0xb7 = cs.length + 1 by omega, hcalc, hv]
      simp only [List.length_cons]; congr 2; omega
    · rw [if_neg (by omega), if_neg (by omega), if_neg (by omega), if_neg (by omega),
        show 0xc0 + 55 + (cs.length + 1) - 0xf7 = cs.length + 1 by omega, hcalc, hv]
      simp only [List.length_cons]; congr 2; omega

namespace RlpItem

theorem length_payload_le (t : RlpItem) : t.payload.length ≤ t.encode.length := by
  rw [encode_eq]; simp

/-- The header of every item is read back, with the payload's length. -/
theorem payloadInfoFrom_encode (t : RlpItem) (h : t.payload.length < 2 ^ 64) (rest : List UInt8) :
    Rlp.payloadInfoFrom (t.encode ++ rest) = .ok ⟨t.header.length, t.payload.length⟩ := by
  cases t <;> simp only [payload] at h
  case str s =>
    simp only [encode, header, payload, stringHeader]
    split_ifs with hs
    · match s, hs with
      | [b], hs => simp only [singleByte, decide_eq_true_eq] at hs; simp [Rlp.payloadInfoFrom, hs]; omega
    · rw [List.append_assoc, payloadInfoFrom_encodeLength h (.inl rfl)]
  case list items =>
    rw [encode, List.append_assoc, payloadInfoFrom_encodeLength h (.inr rfl)]; rfl

theorem payloadInfo_encode (t : RlpItem) (h : t.payload.length < 2 ^ 64) (rest : List UInt8) :
    Rlp.payloadInfo (t.encode ++ rest) = .ok ⟨t.header.length, t.payload.length⟩ := by
  rw [Rlp.payloadInfo, payloadInfoFrom_encode t h, Except.ok_bind, if_pos (by simp [encode_eq])]
  rfl

/-- `Rlp::data` returns an item's payload. -/
theorem data_encode (t : RlpItem) (h : t.payload.length < 2 ^ 64) (rest : List UInt8) :
    Rlp.data (t.encode ++ rest) = .ok t.payload := by
  rw [Rlp.data, payloadInfo_encode t h, Except.ok_bind]
  simp [encode_eq]; rfl

theorem consume_encode (t : RlpItem) (rest : List UInt8) :
    Rlp.consume (t.encode ++ rest) (t.header.length + t.payload.length) = .ok rest := by
  simp [Rlp.consume, encode_eq]

theorem encode_ne_nil (t : RlpItem) : t.encode ≠ [] := by
  cases t with
  | str s =>
    simp only [encode, stringHeader]
    split_ifs with hs
    · match s, hs with
      | [b], _ => simp
    · simp [encodeLength]; split_ifs <;> simp
  | list items => simp [encode, encodeLength]; split_ifs <;> simp

theorem length_encode_str_le {s : List UInt8} (h : s.length ≤ 55) :
    (str s).encode.length ≤ s.length + 1 := by
  simp only [encode, stringHeader, encodeLength, if_pos h]
  split_ifs <;> simp

theorem encodeAll_append (a b : List RlpItem) : encodeAll (a ++ b) = encodeAll a ++ encodeAll b := by
  induction a with
  | nil => simp
  | cons t a ih => simp [ih]

theorem length_le_encodeAll (items : List RlpItem) : items.length ≤ (encodeAll items).length := by
  induction items with
  | nil => simp
  | cons t ts ih => have := List.length_pos.2 (encode_ne_nil t); simp; omega

/-- `consume_items` on the encodings of a list's items skips the first `n` of them. -/
theorem consumeItems_encodeAll :
    ∀ (items : List RlpItem), (encodeAll items).length < 2 ^ 64 → ∀ n, n ≤ items.length →
      Rlp.consumeItems (encodeAll items) n =
        .ok (encodeAll (items.drop n), (encodeAll (items.take n)).length)
  | _, _, 0, _ => rfl
  | t :: ts, h, n + 1, hn => by
    simp only [encodeAll_cons, List.length_append] at h
    have ht : t.payload.length < 2 ^ 64 := by have := length_payload_le t; omega
    rw [encodeAll_cons, Rlp.consumeItems, payloadInfo_encode t ht, Except.ok_bind, consume_encode,
      Except.ok_bind, consumeItems_encodeAll ts (by omega) n (by simp at hn; omega)]
    simp [encode_eq, Nat.add_assoc]

/-- `consume_items` fails past the last item. -/
theorem consumeItems_encodeAll_error :
    ∀ (items : List RlpItem), (encodeAll items).length < 2 ^ 64 → ∀ n, items.length < n →
      ∃ e, Rlp.consumeItems (encodeAll items) n = .error e
  | [], _, _ + 1, _ => ⟨_, rfl⟩
  | t :: ts, h, n + 1, hn => by
    simp only [encodeAll_cons, List.length_append] at h
    have ht : t.payload.length < 2 ^ 64 := by have := length_payload_le t; omega
    obtain ⟨e, he⟩ := consumeItems_encodeAll_error ts (by omega) n (by simp at hn; omega)
    rw [encodeAll_cons, Rlp.consumeItems, payloadInfo_encode t ht, Except.ok_bind, consume_encode,
      Except.ok_bind, he]
    exact ⟨e, rfl⟩

theorem length_encode_le_of_mem {t : RlpItem} {items : List RlpItem} (ht : t ∈ items) :
    t.encode.length ≤ (encodeAll items).length := by
  induction items with
  | nil => cases ht
  | cons u us ih =>
    rcases List.mem_cons.1 ht with rfl | ht
    · simp
    · have := ih ht; simp; omega

theorem isList_encode_list (items : List RlpItem) : Rlp.isList (list items).encode = true := by
  have := length_stripZeros_le (beBytes 8 (encodeAll items).length)
  simp only [encode, encodeLength, length_beBytes] at this ⊢
  split_ifs <;> simp [Rlp.isList] <;> omega

theorem consumeListPayload_encode_list (items : List RlpItem) (h : (encodeAll items).length < 2 ^ 64) :
    Rlp.consumeListPayload (list items).encode = .ok (encodeAll items, (list items).header.length) := by
  have hp := payloadInfo_encode (list items) h []
  rw [List.append_nil] at hp
  rw [Rlp.consumeListPayload, hp, Except.ok_bind, if_neg (by simp [encode_eq])]
  simp [encode_eq, payload]; rfl

/-- The offset of the `i`-th item in the encoding of a list: the list's header and the items
before it. -/
def itemOffset (items : List RlpItem) (i : Nat) : Nat :=
  (list items).header.length + (encodeAll (items.take i)).length

/-- An offset cache that points at an item of the list, as `at` leaves it on the list's
encoding. -/
def CachesItem (items : List RlpItem) (cache : Option Rlp.OffsetCache) : Prop :=
  ∀ c ∈ cache, c.offset = itemOffset items c.index

theorem cachesItem_none (items : List RlpItem) : CachesItem items none := fun _ h => nomatch h

theorem cachesItem_some (items : List RlpItem) (i : Nat) :
    CachesItem items (some ⟨i, itemOffset items i⟩) := by
  rintro c ⟨⟩; rfl

theorem itemOffset_add (items : List RlpItem) (j n : Nat) :
    itemOffset items j + (encodeAll ((items.drop j).take n)).length = itemOffset items (j + n) := by
  simp [itemOffset, List.take_add, encodeAll_append, Nat.add_assoc]

theorem consume_itemOffset (items : List RlpItem) (j : Nat) :
    Rlp.consume (list items).encode (itemOffset items j) = .ok (encodeAll (items.drop j)) := by
  have he : (list items).encode =
      (list items).header ++ encodeAll (items.take j) ++ encodeAll (items.drop j) := by
    rw [encode_eq, List.append_assoc, ← encodeAll_append, List.take_append_drop]; rfl
  rw [Rlp.consume, if_pos (by rw [he]; simp [itemOffset]), he, itemOffset, ← List.length_append,
    List.drop_left]

/-- On a list's encoding, from a cache that points at one of its items, `skipTo` reaches the
`i`-th item at its offset, or fails past the last item. -/
theorem skipTo_encode_list {items : List RlpItem} (h : (encodeAll items).length < 2 ^ 64)
    {cache : Option Rlp.OffsetCache} (hc : CachesItem items cache) (i : Nat) :
    Rlp.skipTo (list items).encode cache i = .ok (encodeAll (items.drop i), itemOffset items i) ∨
      items.length < i ∧ ∃ e, Rlp.skipTo (list items).encode cache i = .error e := by
  unfold Rlp.skipTo
  rcases hf : cache.filter (·.index ≤ i) with _ | c
  · by_cases hi : i ≤ items.length
    · left
      simp [hf, consumeListPayload_encode_list items h, consumeItems_encodeAll items h i hi, itemOffset]
    · obtain ⟨e, he⟩ := consumeItems_encodeAll_error items h i (by omega)
      exact .inr ⟨by omega, e, by simp [hf, consumeListPayload_encode_list items h, he]⟩
  · obtain ⟨hm, hle⟩ := Option.filter_eq_some.1 hf
    simp only [decide_eq_true_eq] at hle
    have hd : (encodeAll (items.drop c.index)).length < 2 ^ 64 := by
      have := congrArg List.length (congrArg encodeAll (List.take_append_drop c.index items))
      rw [encodeAll_append, List.length_append] at this; omega
    by_cases hi : i - c.index ≤ (items.drop c.index).length
    · left
      simp [hf, hc c hm, consume_itemOffset, consumeItems_encodeAll _ hd _ hi, itemOffset_add,
        Nat.add_sub_cancel' hle]
    · obtain ⟨e, he⟩ := consumeItems_encodeAll_error _ hd (i - c.index) (by omega)
      refine .inr ⟨by simp at hi; omega, e, ?_⟩
      simp [hf, hc c hm, consume_itemOffset, he]

/-- `Rlp::at` on a list's encoding, from a cache that points at one of its items, returns the
encoding of the `i`-th item at its offset and caches it. -/
theorem atWithOffset_encode_list {items : List RlpItem} (h : (encodeAll items).length < 2 ^ 64)
    {cache : Option Rlp.OffsetCache} (hc : CachesItem items cache) {i : Nat} (hi : i < items.length) :
    Rlp.atWithOffset (list items).encode cache i =
      (.ok (items[i].encode, itemOffset items i), some ⟨i, itemOffset items i⟩) := by
  rcases skipTo_encode_list h hc i with hs | ⟨hi', -⟩
  · have hp : items[i].payload.length < 2 ^ 64 :=
      ((length_payload_le _).trans (length_encode_le_of_mem (List.getElem_mem hi))).trans_lt h
    rw [Rlp.atWithOffset, isList_encode_list, hs]
    simp only [Bool.not_true, Bool.false_eq_true, ↓reduceIte]
    rw [List.drop_eq_getElem_cons hi, encodeAll_cons, payloadInfo_encode _ hp, Except.map_ok]
    dsimp only
    rw [encode_eq, ← List.length_append, List.take_left]
  · omega

/-- Past the last item `at` fails, and the cache still points at an item. -/
theorem atWithOffset_encode_list_error {items : List RlpItem} (h : (encodeAll items).length < 2 ^ 64)
    {cache : Option Rlp.OffsetCache} (hc : CachesItem items cache) {i : Nat} (hi : items.length ≤ i) :
    ∃ e, (Rlp.atWithOffset (list items).encode cache i).1 = .error e ∧
      CachesItem items (Rlp.atWithOffset (list items).encode cache i).2 := by
  rcases skipTo_encode_list h hc i with hs | ⟨-, e, hs⟩
  · rw [Rlp.atWithOffset, isList_encode_list, hs, List.drop_eq_nil_of_le hi]
    exact ⟨_, rfl, cachesItem_some items i⟩
  · rw [Rlp.atWithOffset, isList_encode_list, hs]
    exact ⟨e, rfl, hc⟩

theorem countFrom_encode_list {items : List RlpItem} (h : (encodeAll items).length < 2 ^ 64) :
    ∀ (fuel : Nat) (cache : Option Rlp.OffsetCache) (index : Nat), CachesItem items cache →
      index ≤ items.length → items.length - index < fuel →
      (Rlp.countFrom (list items).encode fuel cache index).1 = items.length ∧
        CachesItem items (Rlp.countFrom (list items).encode fuel cache index).2
  | 0, _, _, _, _, hf => absurd hf (Nat.not_lt_zero _)
  | fuel + 1, cache, index, hc, hi, hf => by
    rw [Rlp.countFrom]
    rcases Nat.lt_or_ge index items.length with hlt | hge
    · rw [atWithOffset_encode_list h hc hlt]
      exact countFrom_encode_list h fuel _ _ (cachesItem_some items index) hlt (by omega)
    · obtain ⟨e, he, hc'⟩ := atWithOffset_encode_list_error h hc hge
      rcases hat : Rlp.atWithOffset (list items).encode cache index with ⟨r, c'⟩
      rw [hat] at he hc'
      subst he
      dsimp only
      exact ⟨by omega, hc'⟩

/-- `Rlp::item_count` of a list's encoding is its number of items, from any cache that points at
one of them, and the cache it leaves still does. -/
theorem itemCount_encode_list {items : List RlpItem} (h : (encodeAll items).length < 2 ^ 64)
    {cache : Option Rlp.OffsetCache} (hc : CachesItem items cache) :
    (Rlp.itemCount (list items).encode cache).1 = .ok items.length ∧
      CachesItem items (Rlp.itemCount (list items).encode cache).2 := by
  have hl : items.length ≤ (list items).encode.length := by
    have := length_le_encodeAll items
    have := length_payload_le (list items)
    simp only [payload] at this; omega
  have hcount :=
    countFrom_encode_list h ((list items).encode.length + 1) cache 0 hc (Nat.zero_le _) (by omega)
  simp only [Rlp.itemCount, isList_encode_list, if_true]
  exact ⟨congrArg Except.ok hcount.1, hcount.2⟩

/-- `Rlp::at` on a list's encoding returns the encoding of the `i`-th item. -/
theorem atIndex_encode_list {items : List RlpItem} (h : (encodeAll items).length < 2 ^ 64)
    {cache : Option Rlp.OffsetCache} (hc : CachesItem items cache) {i : Nat} (hi : i < items.length) :
    (Rlp.atIndex (list items).encode cache i).1 = .ok items[i].encode := by
  simp [Rlp.atIndex, atWithOffset_encode_list h hc hi]

end RlpItem

end SuccinctBridge
