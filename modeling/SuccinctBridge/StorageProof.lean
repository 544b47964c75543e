import SuccinctBridge.Rlp
import SuccinctBridge.U256

/-!
# Storage proofs (`get_storage_value`, `get_storage_root`)

Both functions hash their key with keccak-256, look it up in the Merkle-Patricia trie rooted at
the given root and built from the relayer's proof nodes, and read the leaf with the `rlp` crate.
The hash and the trie lookup (`trie_db` over `StorageProof::into_memory_db`) are not part of the
source and are parameters here: `keccak256` and a `TrieGet`.

`get_storage_value` maps a failed lookup and an absent key to `StorageError`; `get_storage_root`
unwraps both and so panics on them. Both hand the decoded field to `H256::from_slice`, which
asserts a length of 32: a stored word whose big-endian form starts with a zero byte is encoded by
RLP in fewer bytes and makes `get_storage_value` panic (`getStorageValue_storageLeaf`), as does any
string leaf of another length (`getStorageValue_stringLeaf`). An account leaf is read correctly for
every nonce, balance, storage root and code hash (`getStorageRoot_account`).
-/

namespace SuccinctBridge

/-- `trie_db::TrieError`: how a lookup over the proof nodes fails. -/
inductive TrieError
  | invalidStateRoot
  | incompleteDatabase
  | valueAtIncompleteKey
  | decoderError
  | invalidHash
deriving DecidableEq, Repr

/-- The lookup the source delegates to `trie_db`: the value under `key` in the trie rooted at
`root` over the proof nodes, as
`TrieDBBuilder::<EIP1186Layout<KeccakHasher>>::new(&db, &root).build().get(key)` with
`db = StorageProof::new(proof).into_memory_db::<KeccakHasher>()`. -/
abbrev TrieGet := List (List UInt8) → H256 → List UInt8 → Except TrieError (Option (List UInt8))

/-- `StorageError`. -/
inductive StorageError
  | storageError
  | accountNotFound
  | cannotDecodeItems
deriving DecidableEq, Repr

section
variable (keccak256 : List UInt8 → H256) (trieGet : TrieGet)

/-- `get_storage_value`. -/
def getStorageValue (slotHash storageRoot : H256) (proof : List (List UInt8)) :
    ExceptT StorageError Option H256 := do
  let key := keccak256 slotHash.bytes
  match ← mapErr (trieGet proof storageRoot key.bytes) StorageError.storageError with
  | some storageRoot =>
    let r ← mapErr (Rlp.data storageRoot) StorageError.cannotDecodeItems
    if r.length = 0 then throw StorageError.cannotDecodeItems
    else ExceptT.lift (H256.fromSlice r)
  | none => throw StorageError.storageError

/-- `get_storage_root`; `Result::unwrap` is `Except.toOption` and `Option::unwrap` is the
identity in `Option`. `item_count()` and `at(2)` go to one `Rlp::new(byte_slice)`, and `at` starts
from the offset cache the count leaves. -/
def getStorageRoot (proof : List (List UInt8)) (address : H160) (stateRoot : H256) :
    ExceptT StorageError Option H256 := do
  let key := keccak256 address.bytes
  let found ← ExceptT.lift (trieGet proof stateRoot key.bytes).toOption
  let result ← ExceptT.lift found
  let counted := Rlp.itemCount result none
  let itemCount ← mapErr counted.1 StorageError.storageError
  if itemCount ≠ 4 then throw StorageError.accountNotFound
  else do
    let itemRlp ← mapErr (Rlp.atIndex result counted.2 2).1 StorageError.storageError
    let item ← mapErr (Rlp.data itemRlp) StorageError.storageError
    ExceptT.lift (H256.fromSlice item)

/-- The leaf Ethereum stores for a storage word: the word as an RLP byte string without its
leading zero bytes. -/
def storageLeaf (w : H256) : RlpItem := .str (stripZeros w.bytes)

/-- The leaf of an account in the state trie, `RLP([nonce, balance, storageRoot, codeHash])`, with
the two integers as big-endian byte strings without leading zero bytes. -/
def accountLeaf (nonce balance : U256) (storageRoot codeHash : H256) : RlpItem :=
  .list [.str (stripZeros nonce.toBigEndian), .str (stripZeros balance.toBigEndian),
    .str storageRoot.bytes, .str codeHash.bytes]

end

/-! ### Reading a leaf -/

theorem stripZeros_bytes_eq_nil_iff {n : Nat} {w : FixedBytes n} :
    stripZeros w.bytes = [] ↔ w = FixedBytes.zero n := by
  rw [stripZeros, List.dropWhile_eq_nil_iff, FixedBytes.ext_iff, FixedBytes.zero, List.eq_replicate_iff]
  simp

theorem length_stripZeros_lt_of_head {n : Nat} {w : FixedBytes n} (h0 : w.bytes.head? = some 0) :
    (stripZeros w.bytes).length < n := by
  obtain ⟨rest, hw⟩ := List.head?_eq_some_iff.1 h0
  have hl := w.length_bytes
  rw [hw] at hl ⊢
  rw [stripZeros_cons_zero]
  have := length_stripZeros_le rest
  simp at hl; omega

theorem stripZeros_bytes_of_head {n : Nat} {w : FixedBytes n} (h0 : w.bytes.head? ≠ some 0) :
    stripZeros w.bytes = w.bytes := by
  cases hw : w.bytes with
  | nil => rfl
  | cons b rest => exact stripZeros_cons_of_ne (fun hb => h0 (by simp [hw, hb])) rest

/-- A lookup that finds no value failed or found nothing. -/
theorem lookup_not_found {r : Except TrieError (Option (List UInt8))} (h : ∀ v, r ≠ .ok (some v)) :
    (∃ e, r = .error e) ∨ r = .ok none := by
  rcases r with e | _ | v
  · exact .inl ⟨e, rfl⟩
  · exact .inr rfl
  · exact absurd rfl (h v)

section
variable (keccak256 : List UInt8 → H256) (trieGet : TrieGet)
variable {slotHash storageRoot stateRoot : H256} {proof : List (List UInt8)} {address : H160}

theorem getStorageValue_found {v r : List UInt8}
    (h : trieGet proof storageRoot (keccak256 slotHash.bytes).bytes = .ok (some v))
    (hd : Rlp.data v = .ok r) :
    (getStorageValue keccak256 trieGet slotHash storageRoot proof).run =
      if r.length = 0 then some (.error .cannotDecodeItems) else (H256.fromSlice r).map .ok := by
  by_cases hr : r = [] <;> simp [getStorageValue, h, hd, hr]

/-- On the leaf of a nonzero word, `get_storage_value` returns the word when its first byte is
not zero and panics in `H256::from_slice` when it is: RLP stores such a word in fewer than
32 bytes. -/
theorem getStorageValue_storageLeaf (w : H256) (hw : w ≠ FixedBytes.zero 32)
    (h : trieGet proof storageRoot (keccak256 slotHash.bytes).bytes = .ok (some (storageLeaf w).encode)) :
    (getStorageValue keccak256 trieGet slotHash storageRoot proof).run =
      if w.bytes.head? = some 0 then none else some (.ok w) := by
  have hlen : (stripZeros w.bytes).length < 2 ^ 64 := by
    have := length_stripZeros_le w.bytes; simp at this; omega
  have hd := RlpItem.data_encode (storageLeaf w) hlen []
  rw [List.append_nil] at hd
  rw [getStorageValue_found keccak256 trieGet h hd, if_neg (by simpa [storageLeaf, RlpItem.payload,
    stripZeros_bytes_eq_nil_iff] using hw)]
  split_ifs with h0
  · have := length_stripZeros_lt_of_head h0
    simp [RlpItem.payload, storageLeaf, H256.fromSlice, FixedBytes.copyFromSlice_eq_none_iff.2 this.ne]
  · simp [RlpItem.payload, storageLeaf, stripZeros_bytes_of_head h0, H256.fromSlice,
      FixedBytes.copyFromSlice_eq_some w.length_bytes]

theorem getStorageValue_storageLeaf_one :
    (getStorageValue (fun _ => FixedBytes.zero 32) (fun _ _ _ => .ok (some [1]))
      (FixedBytes.zero 32) (FixedBytes.zero 32) []).run = none :=
  (getStorageValue_storageLeaf _ _ ⟨List.replicate 31 0 ++ [1], by simp⟩ (by decide) (by decide)).trans (if_pos rfl)

/-- On a leaf that is any RLP byte string `s`, `get_storage_value` returns `CannotDecodeItems`
when `s` is empty, the word `s` when it has 32 bytes, and panics on every other length. -/
theorem getStorageValue_stringLeaf (s : List UInt8) (hs : s.length < 2 ^ 64)
    (h : trieGet proof storageRoot (keccak256 slotHash.bytes).bytes = .ok (some (RlpItem.str s).encode)) :
    (getStorageValue keccak256 trieGet slotHash storageRoot proof).run =
      if hl : s.length = 32 then some (.ok ⟨s, hl⟩)
      else if s = [] then some (.error .cannotDecodeItems) else none := by
  have hd := RlpItem.data_encode (.str s) hs []
  rw [List.append_nil] at hd
  rw [getStorageValue_found keccak256 trieGet h hd]
  simp only [RlpItem.payload, List.length_eq_zero, H256.fromSlice, FixedBytes.copyFromSlice]
  by_cases hl : s.length = 32
  · rw [dif_pos hl, dif_pos hl, if_neg (by rintro rfl; cases hl)]; rfl
  · rw [dif_neg hl, dif_neg hl]
    split_ifs <;> rfl

theorem getStorageValue_stringLeaf_short :
    (getStorageValue (fun _ => FixedBytes.zero 32) (fun _ _ _ => .ok (some [0x82, 1, 2]))
      (FixedBytes.zero 32) (FixedBytes.zero 32) []).run = none :=
  (getStorageValue_stringLeaf _ _ [1, 2] (by decide) rfl).trans rfl

/-- A lookup that fails or finds nothing is `StorageError`. -/
theorem getStorageValue_of_not_found
    (h : ∀ v, trieGet proof storageRoot (keccak256 slotHash.bytes).bytes ≠ .ok (some v)) :
    (getStorageValue keccak256 trieGet slotHash storageRoot proof).run = some (.error .storageError) := by
  rcases lookup_not_found h with ⟨e, hq⟩ | hq <;> simp [getStorageValue, hq]

/-- `get_storage_root` panics on every lookup that fails or finds nothing, for instance over an
empty proof, whose root node is missing. -/
theorem getStorageRoot_panics_of_not_found
    (h : ∀ v, trieGet proof stateRoot (keccak256 address.bytes).bytes ≠ .ok (some v)) :
    (getStorageRoot keccak256 trieGet proof address stateRoot).run = none := by
  rcases lookup_not_found h with ⟨e, hq⟩ | hq <;> simp [getStorageRoot, hq]

theorem getStorageRoot_panics_of_not_found_empty :
    (getStorageRoot (fun _ => FixedBytes.zero 32) (fun _ _ _ => .error .invalidStateRoot) []
      (FixedBytes.zero 20) (FixedBytes.zero 32)).run = none :=
  getStorageRoot_panics_of_not_found _ _ (fun _ h => nomatch h)

/-- On a four-item list, `get_storage_root` reads the third item, a byte string `s`, with
`H256::from_slice`: it returns `s` when `s` has 32 bytes and panics otherwise. -/
theorem getStorageRoot_fourItems (a b c : RlpItem) (s : List UInt8)
    (hlen : (RlpItem.encodeAll [a, b, .str s, c]).length < 2 ^ 64)
    (h : trieGet proof stateRoot (keccak256 address.bytes).bytes =
      .ok (some (RlpItem.list [a, b, .str s, c]).encode)) :
    (getStorageRoot keccak256 trieGet proof address stateRoot).run = (H256.fromSlice s).map .ok := by
  obtain ⟨hc, hcache⟩ := RlpItem.itemCount_encode_list hlen (RlpItem.cachesItem_none _)
  have ha := RlpItem.atIndex_encode_list hlen hcache (show 2 < 4 by decide)
  have hs : (RlpItem.str s).payload.length < 2 ^ 64 :=
    ((RlpItem.length_payload_le _).trans
      (RlpItem.length_encode_le_of_mem (by simp))).trans_lt hlen
  have hd := RlpItem.data_encode _ hs []
  rw [List.append_nil] at hd
  simp [getStorageRoot, h, hc, ha, hd, RlpItem.payload]

/-- A four-item leaf whose third item is not a 32-byte string makes `get_storage_root` panic in
`H256::from_slice`. -/
theorem getStorageRoot_panics_of_root_length (a b c : RlpItem) (s : List UInt8) (hs : s.length ≠ 32)
    (hlen : (RlpItem.encodeAll [a, b, .str s, c]).length < 2 ^ 64)
    (h : trieGet proof stateRoot (keccak256 address.bytes).bytes =
      .ok (some (RlpItem.list [a, b, .str s, c]).encode)) :
    (getStorageRoot keccak256 trieGet proof address stateRoot).run = none := by
  rw [getStorageRoot_fourItems keccak256 trieGet a b c s hlen h, H256.fromSlice,
    FixedBytes.copyFromSlice_eq_none_iff.2 hs]
  rfl

theorem getStorageRoot_panics_of_root_length_one :
    (getStorageRoot (fun _ => FixedBytes.zero 32)
      (fun _ _ _ => .ok (some (RlpItem.list [.str [], .str [], .str [1], .str []]).encode)) []
      (FixedBytes.zero 20) (FixedBytes.zero 32)).run = none :=
  getStorageRoot_panics_of_root_length _ _ (.str []) (.str []) (.str []) [1] (by decide) (by decide) rfl

theorem length_encode_short_str {s : List UInt8} (h : s.length ≤ 32) :
    (RlpItem.str s).encode.length ≤ 33 :=
  (RlpItem.length_encode_str_le (by omega)).trans (by omega)

/-- The items of an account leaf take at most 33 bytes each. -/
theorem length_encodeAll_accountLeaf (nonce balance : U256) (storageRoot codeHash : H256) :
    (RlpItem.encodeAll [.str (stripZeros nonce.toBigEndian), .str (stripZeros balance.toBigEndian),
      .str storageRoot.bytes, .str codeHash.bytes]).length < 2 ^ 64 := by
  have h₁ := length_encode_short_str ((length_stripZeros_le _).trans (U256.length_toBigEndian nonce).le)
  have h₂ := length_encode_short_str ((length_stripZeros_le _).trans (U256.length_toBigEndian balance).le)
  have h₃ := length_encode_short_str storageRoot.length_bytes.le
  have h₄ := length_encode_short_str codeHash.length_bytes.le
  simp only [RlpItem.encodeAll_cons, RlpItem.encodeAll_nil, List.length_append, List.length_nil]
  omega

/-- `get_storage_root` returns the storage root of every account leaf, and `AccountNotFound` for
every list of another arity. -/
theorem getStorageRoot_account :
    (∀ (proof : List (List UInt8)) (address : H160) (stateRoot : H256) (nonce balance : U256)
      (storageRoot codeHash : H256),
      trieGet proof stateRoot (keccak256 address.bytes).bytes =
        .ok (some (accountLeaf nonce balance storageRoot codeHash).encode) →
      (getStorageRoot keccak256 trieGet proof address stateRoot).run = some (.ok storageRoot)) ∧
    (∀ (proof : List (List UInt8)) (address : H160) (stateRoot : H256) (items : List RlpItem),
      items.length ≠ 4 → (RlpItem.encodeAll items).length < 2 ^ 64 →
      trieGet proof stateRoot (keccak256 address.bytes).bytes = .ok (some (RlpItem.list items).encode) →
      (getStorageRoot keccak256 trieGet proof address stateRoot).run = some (.error .accountNotFound)) := by
  refine ⟨fun proof address stateRoot nonce balance storageRoot codeHash h => ?_,
    fun proof address stateRoot items hn hlen h => ?_⟩
  · rw [getStorageRoot_fourItems keccak256 trieGet _ _ _ _ (length_encodeAll_accountLeaf ..) h]
    simp [H256.fromSlice, FixedBytes.copyFromSlice_eq_some storageRoot.length_bytes]
  · obtain ⟨hc, -⟩ := RlpItem.itemCount_encode_list hlen (RlpItem.cachesItem_none _)
    simp [getStorageRoot, h, hc, hn]

theorem getStorageRoot_account_leaf :
    (getStorageRoot (fun _ => FixedBytes.zero 32)
      (fun _ _ _ => .ok (some (accountLeaf (U256.ofNat 1) (U256.ofNat 0) (FixedBytes.zero 32)
        (FixedBytes.zero 32)).encode)) [] (FixedBytes.zero 20) (FixedBytes.zero 32)).run =
      some (.ok (FixedBytes.zero 32)) ∧
    (getStorageRoot (fun _ => FixedBytes.zero 32) (fun _ _ _ => .ok (some (RlpItem.list []).encode)) []
      (FixedBytes.zero 20) (FixedBytes.zero 32)).run = some (.error .accountNotFound) :=
  ⟨(getStorageRoot_account _ _).1 _ _ _ _ _ _ _ rfl,
    (getStorageRoot_account _ _).2 _ _ _ [] (by decide) (by decide) rfl⟩

end

end SuccinctBridge
