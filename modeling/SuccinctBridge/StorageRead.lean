import SuccinctBridge.TrieLookup

/-!
# Reading a storage word through the two proofs

The bridge reads a word of a contract's storage on the source chain with two lookups:
`get_storage_root` opens the account's leaf in the state trie with the account proof and returns
its storage root, and `get_storage_value` opens the word's leaf in the storage trie under that
root with the storage proof. Both take their `TrieGet` from `trie_db` (`IsTrieDbGet`).

`storageRead_sound`: whatever the relayer's proofs, a word the two calls return is held by the
tries that the state root commits to, once the proofs bind them (`getStorageRoot_sound`,
`getStorageValue_sound` for each call). `storageRead_complete_of_path`: over proofs that hold the
nodes on the paths of the two keys, as the EIP-1186 proofs the relayer sends do, the two calls
return the word; `storageRead_complete` is the same over proofs of the whole tries. The two calls
treat a key the trie does not hold apart: `get_storage_value` returns `StorageError`
(`getStorageValue_of_absent`), and `get_storage_root` panics (`getStorageRoot_panics_of_absent`),
whatever the proof. No proof reads a word whose first byte is zero
(`getStorageValue_ne_ok_of_leading_zero`).
-/

namespace SuccinctBridge

section
variable (keccak256 : List UInt8 → H256) (trieGet : TrieGet)

/-- `trieGet` answers as `trie_db` does wherever its lookup ends within `fuel` rounds. -/
def IsTrieDbGet (fuel : Nat) : Prop :=
  ∀ proof root key r, (trieDbGet keccak256 fuel proof root key).run = some r → trieGet proof root key = r

/-- The lookup as a `TrieGet`, run for `fuel` rounds; what it answers after them is arbitrary. -/
def trieGetWithin (fuel : Nat) : TrieGet := fun proof root key =>
  ((trieDbGet keccak256 fuel proof root key).run).getD (.ok none)

theorem isTrieDbGet_within (fuel : Nat) : IsTrieDbGet keccak256 (trieGetWithin keccak256 fuel) fuel :=
  fun _ _ _ _ h => by simp [trieGetWithin, h]

variable {keccak256 trieGet} {fuel : Nat} {t : MptNode} {proof : List (List UInt8)}

/-- Under the root of a trie that the proof binds, `trieGet` returns what the lookup ends with. -/
theorem trieGet_rootHash (htrie : IsTrieDbGet keccak256 trieGet fuel) (hb : Binds keccak256 t proof)
    (hfuel : t.height < fuel) (key : List UInt8) :
    Outcome keccak256 t proof fuel (toNibbles key) (some (trieGet proof (t.rootHash keccak256) key)) := by
  have ho := lookUp_outcome keccak256 fuel t true (toNibbles key) hb
  cases hr : (lookUp keccak256 proof fuel true (t.rootHash keccak256) (toNibbles key)).run with
  | none => rw [hr] at ho; exact absurd ho (Nat.not_le.2 hfuel)
  | some r => rw [htrie _ _ _ _ hr]; rwa [hr] at ho

theorem trieGet_of_path (htrie : IsTrieDbGet keccak256 trieGet fuel) (hb : Binds keccak256 t proof)
    {key : List UInt8} (hp : t.pathNodes keccak256 (toNibbles key) ⊆ proof) (hfuel : t.height < fuel) :
    trieGet proof (t.rootHash keccak256) key = .ok (t.get (toNibbles key)) :=
  Option.some.inj (Outcome.eq_ok keccak256 hfuel hp (trieGet_rootHash htrie hb hfuel key))

theorem trieGet_of_opens (htrie : IsTrieDbGet keccak256 trieGet fuel) (ho : Opens keccak256 t proof)
    (hfuel : t.height < fuel) (key : List UInt8) :
    trieGet proof (t.rootHash keccak256) key = .ok (t.get (toNibbles key)) :=
  trieGet_of_path htrie ho.toBinds ((t.pathNodes_subset_nodes keccak256 _).trans ho.complete) hfuel

theorem H256.fromSlice_eq_some {d : List UInt8} {w : H256} : H256.fromSlice d = some w ↔ d = w.bytes := by
  constructor
  · intro h
    simp only [H256.fromSlice, FixedBytes.copyFromSlice] at h
    split_ifs at h
    cases h; rfl
  · rintro rfl
    exact FixedBytes.copyFromSlice_bytes w

/-- `get_storage_value` returns a word exactly when the lookup finds a leaf whose RLP payload is
the word's 32 bytes. -/
theorem getStorageValue_eq_ok {slotHash storageRoot w : H256} :
    (getStorageValue keccak256 trieGet slotHash storageRoot proof).run = some (.ok w) ↔
      ∃ v, trieGet proof storageRoot (keccak256 slotHash.bytes).bytes = .ok (some v) ∧
        Rlp.data v = .ok w.bytes := by
  constructor
  · intro h
    rcases hq : trieGet proof storageRoot (keccak256 slotHash.bytes).bytes with e | _ | v <;>
      simp [getStorageValue, hq] at h
    rcases hd : Rlp.data v with e | r <;> simp [hd] at h
    split_ifs at h
    · simp at h
    · exact ⟨v, rfl, H256.fromSlice_eq_some.1 (by simpa using h) ▸ hd⟩
  · rintro ⟨v, hq, hd⟩
    rw [getStorageValue_found keccak256 trieGet hq hd, if_neg (by simp), H256.fromSlice_eq_some.2 rfl]
    rfl

/-- Whatever the proof, a word `get_storage_value` returns under the root of a storage trie that
the proof binds is the payload of the leaf the trie holds under the slot's hash. -/
theorem getStorageValue_sound (htrie : IsTrieDbGet keccak256 trieGet fuel)
    (hb : Binds keccak256 t proof) (hfuel : t.height < fuel) {slotHash w : H256}
    (h : (getStorageValue keccak256 trieGet slotHash (t.rootHash keccak256) proof).run = some (.ok w)) :
    ∃ v, t.get (toNibbles (keccak256 slotHash.bytes).bytes) = some v ∧ Rlp.data v = .ok w.bytes := by
  obtain ⟨v, hq, hd⟩ := getStorageValue_eq_ok.1 h
  have ho := trieGet_rootHash htrie hb hfuel (keccak256 slotHash.bytes).bytes
  rw [hq] at ho
  exact ⟨v, ho.symm, hd⟩

/-- A word of 32 bytes of one. -/
def ones : H256 := ⟨List.replicate 32 1, List.length_replicate 32 1⟩

/-- A storage trie holding `ones` in slot zero. -/
def oneLeafStorage : MptNode :=
  .leaf (toNibbles (lengthHash (FixedBytes.zero 32).bytes).bytes) (storageLeaf ones).encode

/-- A state trie holding at address zero an account whose storage root is `oneLeafStorage`'s. -/
def oneLeafState : MptNode :=
  .leaf (toNibbles (lengthHash (FixedBytes.zero 20).bytes).bytes)
    (accountLeaf (U256.ofNat 0) (U256.ofNat 0) (oneLeafStorage.rootHash lengthHash) (FixedBytes.zero 32)).encode

theorem data_storageLeaf (w : H256) : Rlp.data (storageLeaf w).encode = .ok (stripZeros w.bytes) := by
  have hlen : (stripZeros w.bytes).length < 2 ^ 64 := by
    have := length_stripZeros_le w.bytes; simp at this; omega
  simpa [RlpItem.payload, storageLeaf] using RlpItem.data_encode (storageLeaf w) hlen []

/-- Once the account's leaf and the word's leaf are found, `get_storage_root` returns the storage
root the account's leaf holds, and `get_storage_value` under it the word, when the word's first
byte is not zero. -/
theorem storageRead_of_found {accountProof storageProof : List (List UInt8)} {stateRoot : H256}
    {address : H160} {nonce balance : U256} {storageRoot codeHash slotHash w : H256}
    (ha : trieGet accountProof stateRoot (keccak256 address.bytes).bytes =
      .ok (some (accountLeaf nonce balance storageRoot codeHash).encode))
    (hw : w.bytes.head? ≠ some 0)
    (hs : trieGet storageProof storageRoot (keccak256 slotHash.bytes).bytes = .ok (some (storageLeaf w).encode)) :
    (do
      let storageRoot ← getStorageRoot keccak256 trieGet accountProof address stateRoot
      getStorageValue keccak256 trieGet slotHash storageRoot storageProof).run = some (.ok w) := by
  have hr := getStorageRoot_fourItems keccak256 trieGet _ _ _ _ (length_encodeAll_accountLeaf ..) ha
  rw [H256.fromSlice, FixedBytes.copyFromSlice_bytes] at hr
  rw [ExceptT.run_bind, hr]
  exact getStorageValue_eq_ok.2 ⟨_, hs, stripZeros_bytes_of_head hw ▸ data_storageLeaf w⟩

/-- Over proofs that open the state trie and the storage trie, `get_storage_root` returns the
storage root the account's leaf holds, and `get_storage_value` under it the word of the slot,
when the word's first byte is not zero. -/
theorem storageRead_complete (htrie : IsTrieDbGet keccak256 trieGet fuel)
    {accountTrie storageTrie : MptNode} {accountProof storageProof : List (List UInt8)}
    (hoa : Opens keccak256 accountTrie accountProof) (hos : Opens keccak256 storageTrie storageProof)
    (hfa : accountTrie.height < fuel) (hfs : storageTrie.height < fuel)
    {address : H160} {nonce balance : U256} {codeHash : H256}
    (hacct : accountTrie.get (toNibbles (keccak256 address.bytes).bytes) =
      some (accountLeaf nonce balance (storageTrie.rootHash keccak256) codeHash).encode)
    {slotHash w : H256} (hw : w.bytes.head? ≠ some 0)
    (hslot : storageTrie.get (toNibbles (keccak256 slotHash.bytes).bytes) = some (storageLeaf w).encode) :
    (do
      let storageRoot ← getStorageRoot keccak256 trieGet accountProof address (accountTrie.rootHash keccak256)
      getStorageValue keccak256 trieGet slotHash storageRoot storageProof).run = some (.ok w) := by
  have ha := trieGet_of_opens htrie hoa hfa (keccak256 address.bytes).bytes
  have hs := trieGet_of_opens htrie hos hfs (keccak256 slotHash.bytes).bytes
  rw [hacct] at ha
  rw [hslot] at hs
  exact storageRead_of_found ha hw hs

/-- Over proofs that hold the nodes on the paths of the account's key and the slot's key, with no
collision with the tries' nodes, `get_storage_root` returns the storage root the account's leaf
holds, and `get_storage_value` under it the word of the slot, when the word's first byte is not
zero. -/
theorem storageRead_complete_of_path (htrie : IsTrieDbGet keccak256 trieGet fuel)
    {accountTrie storageTrie : MptNode} {accountProof storageProof : List (List UInt8)}
    (hba : Binds keccak256 accountTrie accountProof) (hbs : Binds keccak256 storageTrie storageProof)
    {address : H160} {slotHash : H256}
    (hpa : accountTrie.pathNodes keccak256 (toNibbles (keccak256 address.bytes).bytes) ⊆ accountProof)
    (hps : storageTrie.pathNodes keccak256 (toNibbles (keccak256 slotHash.bytes).bytes) ⊆ storageProof)
    (hfa : accountTrie.height < fuel) (hfs : storageTrie.height < fuel)
    {nonce balance : U256} {codeHash : H256}
    (hacct : accountTrie.get (toNibbles (keccak256 address.bytes).bytes) =
      some (accountLeaf nonce balance (storageTrie.rootHash keccak256) codeHash).encode)
    {w : H256} (hw : w.bytes.head? ≠ some 0)
    (hslot : storageTrie.get (toNibbles (keccak256 slotHash.bytes).bytes) = some (storageLeaf w).encode) :
    (do
      let storageRoot ← getStorageRoot keccak256 trieGet accountProof address (accountTrie.rootHash keccak256)
      getStorageValue keccak256 trieGet slotHash storageRoot storageProof).run = some (.ok w) := by
  have ha := trieGet_of_path htrie hba hpa hfa
  have hs := trieGet_of_path htrie hbs hps hfs
  rw [hacct] at ha
  rw [hslot] at hs
  exact storageRead_of_found ha hw hs

/-- A storage trie holding `ones` in slot zero beside a second leaf, which a proof of slot zero
leaves out. -/
def twoLeafStorage : MptNode :=
  .branch (fun k =>
    if k = 0 then .leaf ((toNibbles (lengthHash (FixedBytes.zero 32).bytes).bytes).drop 1)
      (storageLeaf ones).encode
    else if k = 1 then .leaf [] [1] else .empty) []

/-- A state trie holding at address zero an account whose storage root is `twoLeafStorage`'s. -/
def twoLeafState : MptNode :=
  .leaf (toNibbles (lengthHash (FixedBytes.zero 20).bytes).bytes)
    (accountLeaf (U256.ofNat 0) (U256.ofNat 0) (twoLeafStorage.rootHash lengthHash) (FixedBytes.zero 32)).encode

set_option maxRecDepth 4000 in
theorem storageRead_complete_of_path_twoLeaves :
    ¬ Opens lengthHash twoLeafStorage
        (twoLeafStorage.pathNodes lengthHash (toNibbles (lengthHash (FixedBytes.zero 32).bytes).bytes)) ∧
    (do
      let storageRoot ← getStorageRoot lengthHash (trieGetWithin lengthHash 2)
        (twoLeafState.pathNodes lengthHash (toNibbles (lengthHash (FixedBytes.zero 20).bytes).bytes))
        (FixedBytes.zero 20) (twoLeafState.rootHash lengthHash)
      getStorageValue lengthHash (trieGetWithin lengthHash 2) (FixedBytes.zero 32) storageRoot
        (twoLeafStorage.pathNodes lengthHash (toNibbles (lengthHash (FixedBytes.zero 32).bytes).bytes))).run =
      some (.ok ones) :=
  ⟨fun h => absurd h.complete (by decide),
    storageRead_complete_of_path (isTrieDbGet_within lengthHash 2) (by decide) (by decide)
      (List.Subset.refl _) (List.Subset.refl _) (by decide) (by decide) (by rfl) (by decide) (by rfl)⟩

/-- `get_storage_root` returns a root exactly when the lookup finds a list that `item_count` counts
four items in and whose third item, read from the offset cache the count leaves, has the root's 32
bytes as payload. -/
theorem getStorageRoot_eq_ok {address : H160} {stateRoot root : H256} :
    (getStorageRoot keccak256 trieGet proof address stateRoot).run = some (.ok root) ↔
      ∃ v cache, trieGet proof stateRoot (keccak256 address.bytes).bytes = .ok (some v) ∧
        Rlp.itemCount v none = (.ok 4, cache) ∧ ((Rlp.atIndex v cache 2).1 >>= Rlp.data) = .ok root.bytes := by
  constructor
  · intro h
    rcases hq : trieGet proof stateRoot (keccak256 address.bytes).bytes with e | _ | v <;>
      simp [getStorageRoot, hq] at h
    rcases hc : Rlp.itemCount v none with ⟨e | n, cache⟩ <;> simp [hc] at h
    split_ifs at h with hn
    · subst hn
      rcases ha : (Rlp.atIndex v cache 2).1 with e | item <;> simp [ha] at h
      rcases hd : Rlp.data item with e | d <;> simp [hd] at h
      exact ⟨v, cache, rfl, hc, by simp [ha, hd, H256.fromSlice_eq_some.1 h]⟩
    · simp at h
  · rintro ⟨v, cache, hq, hc, hd⟩
    rcases ha : (Rlp.atIndex v cache 2).1 with e | item
    · simp [ha] at hd
    simp only [ha, Except.ok_bind] at hd
    simp [getStorageRoot, hq, hc, ha, hd, H256.fromSlice_eq_some.2 rfl]

/-- Whatever the proof, a root `get_storage_root` returns under the root of a state trie that the
proof binds is the payload of the third item, as `at(2)` reads it after `item_count` counts four, of
the leaf the trie holds under the address's hash. -/
theorem getStorageRoot_sound (htrie : IsTrieDbGet keccak256 trieGet fuel)
    (hb : Binds keccak256 t proof) (hfuel : t.height < fuel) {address : H160} {root : H256}
    (h : (getStorageRoot keccak256 trieGet proof address (t.rootHash keccak256)).run = some (.ok root)) :
    ∃ v cache, t.get (toNibbles (keccak256 address.bytes).bytes) = some v ∧
      Rlp.itemCount v none = (.ok 4, cache) ∧ ((Rlp.atIndex v cache 2).1 >>= Rlp.data) = .ok root.bytes := by
  obtain ⟨v, cache, hq, hc, hd⟩ := getStorageRoot_eq_ok.1 h
  have ho := trieGet_rootHash htrie hb hfuel (keccak256 address.bytes).bytes
  rw [hq] at ho
  exact ⟨v, cache, ho.symm, hc, hd⟩

/-- Under the root of a trie that the proof binds, `trieGet` finds no value under a key the trie
holds none under. -/
theorem trieGet_ne_of_absent (htrie : IsTrieDbGet keccak256 trieGet fuel)
    (hb : Binds keccak256 t proof) (hfuel : t.height < fuel) {key : List UInt8}
    (habsent : t.get (toNibbles key) = none) (v : List UInt8) :
    trieGet proof (t.rootHash keccak256) key ≠ .ok (some v) := fun h => by
  have ho := trieGet_rootHash htrie hb hfuel key
  rw [h] at ho
  exact Option.some_ne_none v (Eq.trans ho habsent)

/-- Whatever the proof that binds a state trie, `get_storage_root` panics on an address under
which the trie holds no account, not only on a proof that lacks a node: the lookup ends with
nothing or with an error, and the source unwraps both. -/
theorem getStorageRoot_panics_of_absent (htrie : IsTrieDbGet keccak256 trieGet fuel)
    (hb : Binds keccak256 t proof) (hfuel : t.height < fuel) {address : H160}
    (habsent : t.get (toNibbles (keccak256 address.bytes).bytes) = none) :
    (getStorageRoot keccak256 trieGet proof address (t.rootHash keccak256)).run = none := by
  rcases lookup_not_found (trieGet_ne_of_absent htrie hb hfuel habsent) with ⟨e, hq⟩ | hq <;>
    simp [getStorageRoot, hq]

theorem getStorageRoot_panics_of_absent_oneLeaf :
    (getStorageRoot lengthHash (trieGetWithin lengthHash 1) (oneLeafStorage.nodes lengthHash)
      (FixedBytes.zero 20) (oneLeafStorage.rootHash lengthHash)).run = none :=
  getStorageRoot_panics_of_absent (isTrieDbGet_within lengthHash 1) (by decide) (by decide) (by decide)

/-- Whatever the proof that binds a storage trie, `get_storage_value` returns `StorageError` on a
slot under whose hash the trie holds nothing. -/
theorem getStorageValue_of_absent (htrie : IsTrieDbGet keccak256 trieGet fuel)
    (hb : Binds keccak256 t proof) (hfuel : t.height < fuel) {slotHash : H256}
    (habsent : t.get (toNibbles (keccak256 slotHash.bytes).bytes) = none) :
    (getStorageValue keccak256 trieGet slotHash (t.rootHash keccak256) proof).run =
      some (.error .storageError) :=
  getStorageValue_of_not_found keccak256 trieGet (trieGet_ne_of_absent htrie hb hfuel habsent)

theorem getStorageValue_of_absent_branch :
    (getStorageValue lengthHash (trieGetWithin lengthHash 2) (FixedBytes.zero 32)
      (branchWithLeaf.rootHash lengthHash) (branchWithLeaf.nodes lengthHash)).run =
      some (.error .storageError) :=
  getStorageValue_of_absent (isTrieDbGet_within lengthHash 2) (by decide) (by decide) (by decide)

/-- A word whose first byte is zero cannot be read: whatever the proof that binds the storage
trie, `get_storage_value` returns no word for a slot whose leaf holds it, as RLP stores the word
in fewer than 32 bytes. -/
theorem getStorageValue_ne_ok_of_leading_zero (htrie : IsTrieDbGet keccak256 trieGet fuel)
    (hb : Binds keccak256 t proof) (hfuel : t.height < fuel) {slotHash w : H256}
    (h0 : w.bytes.head? = some 0)
    (hslot : t.get (toNibbles (keccak256 slotHash.bytes).bytes) = some (storageLeaf w).encode)
    (w' : H256) :
    (getStorageValue keccak256 trieGet slotHash (t.rootHash keccak256) proof).run ≠ some (.ok w') := by
  intro h
  obtain ⟨v, hv, hd⟩ := getStorageValue_sound htrie hb hfuel h
  rw [hslot, Option.some_inj] at hv
  rw [← hv, data_storageLeaf, Except.ok.injEq] at hd
  have hl := length_stripZeros_lt_of_head h0
  rw [hd, w'.length_bytes] at hl
  exact lt_irrefl _ hl

/-- A word whose first byte is zero: `0x00`, then 31 bytes of one. -/
def zeroHeaded : H256 := ⟨0 :: List.replicate 31 1, rfl⟩

/-- A storage trie holding `zeroHeaded` in slot zero. -/
def zeroHeadedStorage : MptNode :=
  .leaf (toNibbles (lengthHash (FixedBytes.zero 32).bytes).bytes) (storageLeaf zeroHeaded).encode

theorem getStorageValue_ne_ok_of_leading_zero_zeroHeaded :
    (getStorageValue lengthHash (trieGetWithin lengthHash 1) (FixedBytes.zero 32)
      (zeroHeadedStorage.rootHash lengthHash) (zeroHeadedStorage.nodes lengthHash)).run ≠
      some (.ok zeroHeaded) :=
  getStorageValue_ne_ok_of_leading_zero (isTrieDbGet_within lengthHash 1) (by decide) (by decide)
    (show zeroHeaded.bytes.head? = some 0 from rfl) (by rfl) zeroHeaded

/-- Whatever the two proofs, a word read through `get_storage_root` and `get_storage_value` from
the root of a state trie that the account proof binds comes from the trie: `item_count` counts four
items in the account's leaf, the third, as `at(2)` reads it from the count's offset cache, is a
root, and every storage trie with that root that the storage proof binds holds under the slot's
hash a leaf whose payload is the word. -/
theorem storageRead_sound (htrie : IsTrieDbGet keccak256 trieGet fuel) {stateTrie : MptNode}
    {accountProof storageProof : List (List UInt8)} (hba : Binds keccak256 stateTrie accountProof)
    (hfa : stateTrie.height < fuel) {address : H160} {slotHash w : H256}
    (h : (do
      let storageRoot ← getStorageRoot keccak256 trieGet accountProof address (stateTrie.rootHash keccak256)
      getStorageValue keccak256 trieGet slotHash storageRoot storageProof).run = some (.ok w)) :
    ∃ v cache root, stateTrie.get (toNibbles (keccak256 address.bytes).bytes) = some v ∧
      Rlp.itemCount v none = (.ok 4, cache) ∧ ((Rlp.atIndex v cache 2).1 >>= Rlp.data) = .ok root.bytes ∧
      ∀ storageTrie : MptNode, storageTrie.rootHash keccak256 = root →
        Binds keccak256 storageTrie storageProof → storageTrie.height < fuel →
        ∃ u, storageTrie.get (toNibbles (keccak256 slotHash.bytes).bytes) = some u ∧
          Rlp.data u = .ok w.bytes := by
  rw [ExceptT.run_bind] at h
  rcases hr : (getStorageRoot keccak256 trieGet accountProof address (stateTrie.rootHash keccak256)).run
    with _ | e | root <;> rw [hr] at h
  · cases h
  · cases h
  obtain ⟨v, cache, hv, hc, hd⟩ := getStorageRoot_sound htrie hba hfa hr
  exact ⟨v, cache, root, hv, hc, hd, fun storageTrie hroot hbs hfs =>
    getStorageValue_sound htrie hbs hfs (hroot ▸ h)⟩

set_option maxRecDepth 4000 in
theorem storageRead_sound_oneLeaf :
    ∃ v cache root, oneLeafState.get (toNibbles (lengthHash (FixedBytes.zero 20).bytes).bytes) = some v ∧
      Rlp.itemCount v none = (.ok 4, cache) ∧ ((Rlp.atIndex v cache 2).1 >>= Rlp.data) = .ok root.bytes ∧
      ∀ storageTrie : MptNode, storageTrie.rootHash lengthHash = root →
        Binds lengthHash storageTrie (oneLeafStorage.nodes lengthHash) → storageTrie.height < 1 →
        ∃ u, storageTrie.get (toNibbles (lengthHash (FixedBytes.zero 32).bytes).bytes) = some u ∧
          Rlp.data u = .ok ones.bytes :=
  storageRead_sound (isTrieDbGet_within lengthHash 1)
    (show Binds lengthHash oneLeafState (oneLeafState.nodes lengthHash) by decide) (by decide) (by rfl)

set_option maxRecDepth 4000 in
theorem storageRead_complete_oneLeaf :
    (do
      let storageRoot ← getStorageRoot lengthHash (trieGetWithin lengthHash 1)
        (oneLeafState.nodes lengthHash) (FixedBytes.zero 20) (oneLeafState.rootHash lengthHash)
      getStorageValue lengthHash (trieGetWithin lengthHash 1) (FixedBytes.zero 32) storageRoot
        (oneLeafStorage.nodes lengthHash)).run = some (.ok ones) :=
  storageRead_complete (isTrieDbGet_within lengthHash 1) (by decide)
    (show Opens lengthHash oneLeafStorage (oneLeafStorage.nodes lengthHash) by decide)
    (by decide) (by decide) (by rfl) (by decide) (by rfl)

end

end SuccinctBridge
