import SuccinctBridge.NodeCodec
import SuccinctBridge.StorageProof

/-!
# The lookup of `trie_db` over a storage proof

The `TrieGet` that `get_storage_value` and `get_storage_root` call is
`TrieDBBuilder::<EIP1186Layout<KeccakHasher>>::new(&db, &root).build().get(key)` with
`db = StorageProof::new(proof).into_memory_db()`. `trie_db`'s `Lookup::look_up` walks the trie
from the root: each round fetches the node under the current hash from the memory database,
decodes it with the layout's codec and either ends (a leaf, a branch at the end of the key, an
empty node, a path that does not match) or goes on to a child's hash with the rest of the key.
`lookUp` is that loop, with a bound on its rounds; `trieDbGet` is `get`.

Over a proof whose nodes have no hash collision with a trie's nodes (`Binds`), the lookup under
the trie's root reads the trie (`lookUp_outcome`, by induction on the rounds): every result it
ends with is the trie's value or the error of a node missing on the key's path, and it ends once
it has a round for every level of the trie. So it never ends with a value the trie does not hold
(`lookUp_sound`), and over a proof holding the nodes on the key's path (`MptNode.pathNodes`), as an
EIP-1186 proof of the key does, it ends with the trie's value (`lookUp_complete_of_path`); a proof
of the whole trie is one such proof for every key (`lookUp_complete`).

The tries are those of `MptNode.encode`, which references every child by hash. On a trie that
inlines a child, the codec hands the child's payload to `decode_hash` and the lookup ends with
`InvalidHash` when it reaches that child.
-/

namespace SuccinctBridge

section
variable (keccak256 : List UInt8 → H256)

/-- `MemoryDB::get` on `StorageProof::new(proof).into_memory_db()`: the null node `[0]` of
`MemoryDB::default` under its hash, else a node of the proof with the hash. `insert` skips the null
node; which of two proof nodes of one hash the database keeps matters only on a collision. -/
def memoryDbGet (proof : List (List UInt8)) (hash : H256) : Option (List UInt8) :=
  if hash = keccak256 [0] then some [0] else proof.find? fun node => keccak256 node == hash

/-- Where one round of `Lookup::look_up` goes from the node it decoded: it ends with a value or
none, or goes on to the child under a handle with the rest of the key. -/
inductive Step
  | done (value : Option (List UInt8))
  | next (child : List UInt8) (key : List (Fin 16))

/-- The `match decoded` of `Lookup::look_up`. -/
def Node.step : Node → List (Fin 16) → Step
  | .leaf slice value, key => .done (if slice = key then some value else none)
  | .extension slice child, key =>
    if slice.isPrefixOf key then .next child (key.drop slice.length) else .done none
  | .branch _ value, [] => .done value
  | .branch children _, k :: rest =>
    match children.getD k.val none with
    | some child => .next child rest
    | none => .done none
  | .empty, _ => .done none

/-- `Lookup::look_up` from the node under `hash` with the rest of the key, for at most `fuel`
rounds of its unbounded loop (`for depth in 0..`): a lookup that has not ended by then has no
result, as a panic has none. A missing node is `InvalidStateRoot` at the root (`atRoot`, depth
zero) and `IncompleteDatabase` below it. The codec gives every child as a hash handle, so the
inner loop over inline handles runs once a round, and a child handle of other than 32 bytes (the
payload of an inlined child) ends the lookup with `InvalidHash`. -/
def lookUp (proof : List (List UInt8)) :
    Nat → Bool → H256 → List (Fin 16) → ExceptT TrieError Option (Option (List UInt8))
  | 0, _, _, _ => ExceptT.lift none
  | fuel + 1, atRoot, hash, key =>
    match memoryDbGet keccak256 proof hash with
    | none => throw (if atRoot then .invalidStateRoot else .incompleteDatabase)
    | some nodeData => do
      let node ← (decodeNode nodeData).adapt fun _ => TrieError.decoderError
      match node.step key with
      | .done value => pure value
      | .next child rest =>
        match decodeHash child with
        | none => throw .invalidHash
        | some h => lookUp proof fuel false h rest

/-- `TrieDB::get` over the memory database of the proof, within `fuel` rounds. -/
def trieDbGet (fuel : Nat) (proof : List (List UInt8)) (root : H256) (key : List UInt8) :
    ExceptT TrieError Option (Option (List UInt8)) :=
  lookUp keccak256 proof fuel true root (toNibbles key)

/-- A proof binds a trie when the lookup can meet no other trie in it: every node of the trie fits
the decoder (fewer than `2^64` bytes), and no byte string of the proof, nor the null node `[0]`,
has the hash of a node of the trie without being that node. -/
structure Binds (t : MptNode) (proof : List (List UInt8)) : Prop where
  fits : ∀ m ∈ t.nodes keccak256, m.length < 2 ^ 64
  unique : ∀ m ∈ t.nodes keccak256, ∀ n ∈ [0] :: proof, keccak256 n = keccak256 m → n = m

/-- A proof opens a trie when it binds it and holds all its nodes. -/
structure Opens (t : MptNode) (proof : List (List UInt8)) extends Binds keccak256 t proof : Prop where
  complete : t.nodes keccak256 ⊆ proof

instance decidableBinds (t : MptNode) (proof : List (List UInt8)) :
    Decidable (Binds keccak256 t proof) :=
  decidable_of_iff ((∀ m ∈ t.nodes keccak256, m.length < 2 ^ 64) ∧
      ∀ m ∈ t.nodes keccak256, ∀ n ∈ [0] :: proof, keccak256 n = keccak256 m → n = m)
    ⟨fun h => ⟨h.1, h.2⟩, fun h => ⟨h.1, h.2⟩⟩

instance decidableOpens (t : MptNode) (proof : List (List UInt8)) :
    Decidable (Opens keccak256 t proof) :=
  decidable_of_iff (Binds keccak256 t proof ∧ t.nodes keccak256 ⊆ proof)
    ⟨fun h => ⟨h.1, h.2⟩, fun h => ⟨h.1, h.2⟩⟩

/-- What a lookup of `key` under the root of `t` may end with within `fuel` rounds: the value of
`t`, or the error of a node on the key's path that the proof lacks; and no result only when the
rounds run out above the bottom of `t`. -/
def Outcome (t : MptNode) (proof : List (List UInt8)) (fuel : Nat) (key : List (Fin 16)) :
    Option (Except TrieError (Option (List UInt8))) → Prop
  | none => fuel ≤ t.height
  | some (.ok v) => v = t.get key
  | some (.error e) =>
    (e = .invalidStateRoot ∨ e = .incompleteDatabase) ∧ ¬ t.pathNodes keccak256 key ⊆ proof

/-- The step the lookup takes on the decoded node for the step `get` takes on a trie node. -/
def MptNode.Descent.toStep : MptNode.Descent → Step
  | .found v => .done v
  | .child c rest => .next (c.rootHash keccak256).bytes rest

end

/-! ### Fetching and decoding a node of the trie -/

theorem RlpItem.encode_list_ne_null (items : List RlpItem) : (RlpItem.list items).encode ≠ [0] :=
  fun h => by simpa [h, Rlp.isList] using RlpItem.isList_encode_list items

namespace MptNode
variable (keccak256 : List UInt8 → H256)

theorem rlp_mem_nodes (t : MptNode) : t.rlp keccak256 ∈ t.nodes keccak256 := by
  cases t <;> simp [nodes]

theorem rlp_ne_null (t : MptNode) : t.rlp keccak256 ≠ [0] := by
  cases t
  case empty => exact (by decide : ([0x80] : List UInt8) ≠ [0])
  all_goals exact RlpItem.encode_list_ne_null _

theorem binds_of_subset {t c : MptNode} {proof : List (List UInt8)}
    (hb : Binds keccak256 t proof) (hc : c.nodes keccak256 ⊆ t.nodes keccak256) :
    Binds keccak256 c proof :=
  ⟨fun m hm => hb.fits m (hc hm), fun m hm => hb.unique m (hc hm)⟩

/-- Under the root hash of a node the database holds the node's encoding if the proof has it,
and nothing else. -/
theorem memoryDbGet_rootHash {t : MptNode} {proof : List (List UInt8)}
    (hb : ∀ n ∈ [0] :: proof, keccak256 n = keccak256 (t.rlp keccak256) → n = t.rlp keccak256) :
    memoryDbGet keccak256 proof (t.rootHash keccak256) =
      if t.rlp keccak256 ∈ proof then some (t.rlp keccak256) else none := by
  have h0 : t.rootHash keccak256 ≠ keccak256 [0] := fun h =>
    t.rlp_ne_null keccak256 (hb [0] (List.mem_cons_self _ _) h.symm).symm
  rw [memoryDbGet, if_neg h0]
  cases hf : proof.find? fun node => keccak256 node == t.rootHash keccak256 with
  | none =>
    rw [List.find?_eq_none] at hf
    exact (if_neg fun hm => hf _ hm (by simp [rootHash])).symm
  | some n =>
    have hn := List.mem_of_find?_eq_some hf
    obtain rfl := hb n (List.mem_cons_of_mem _ hn) (by simpa [rootHash] using List.find?_some hf)
    rw [if_pos hn]

theorem getD_map_finRange {α : Type} (f : Fin 16 → α) (k : Fin 16) (d : α) :
    ((List.finRange 16).map f).getD k.val d = f k := by
  rw [List.getD_eq_getElem _ _ (by simp), List.getElem_map, List.getElem_finRange]; rfl

/-- The lookup steps on the decoded node as `get` steps on the trie node. -/
theorem step_toNode (t : MptNode) (key : List (Fin 16)) :
    (t.toNode keccak256).step key = (t.descend key).toStep keccak256 := by
  match t, key with
  | .empty, _ => rfl
  | .leaf path value, key => simp [toNode, Node.step, descend, Descent.toStep, eq_comm]
  | .extension path child, key =>
    have hp := @List.isPrefixOf_iff_prefix _ _ _ path key
    by_cases h : path <+: key <;> simp [toNode, Node.step, descend, Descent.toStep, h, hp]
  | .branch _ value, [] => simp [toNode, Node.step, descend, Descent.toStep]
  | .branch children _, k :: rest =>
    simp only [toNode, Node.step, descend, getD_map_finRange]
    cases children k <;> rfl

end MptNode

/-! ### The lookup reads the trie -/

@[simp] theorem ExceptT.adapt_pure {ε ε' α : Type} (f : ε → ε') (a : α) :
    (pure a : ExceptT ε Option α).adapt f = pure a := rfl

section
variable (keccak256 : List UInt8 → H256) {proof : List (List UInt8)}

theorem decodeHash_bytes (h : H256) : decodeHash h.bytes = some h :=
  FixedBytes.copyFromSlice_bytes h

/-- What the lookup ends with in a child, read the rest of the key, it ends with in the parent. -/
theorem outcome_of_descend {t c : MptNode} {key rest : List (Fin 16)} {fuel : Nat}
    {r : Option (Except TrieError (Option (List UInt8)))} (hd : t.descend key = .child c rest)
    (h : Outcome keccak256 c proof fuel rest r) : Outcome keccak256 t proof (fuel + 1) key r := by
  obtain ⟨hget, hh, -, hp⟩ := MptNode.descend_eq_child keccak256 hd
  match r, h with
  | none, h => exact Nat.succ_le_of_lt (Nat.lt_of_le_of_lt h hh)
  | some (.ok v), h => exact h.trans hget.symm
  | some (.error e), ⟨he, hs⟩ => exact ⟨he, fun ht => hs ((List.subset_cons_self _ _).trans (hp ▸ ht))⟩

/-- Each round of the lookup fetches a node of the trie, and so reads the trie: induction on the
rounds, following `get` down one `descend` at a time. -/
theorem lookUp_outcome (fuel : Nat) : ∀ (t : MptNode) (atRoot : Bool) (key : List (Fin 16)),
    Binds keccak256 t proof →
    Outcome keccak256 t proof fuel key
      (lookUp keccak256 proof fuel atRoot (t.rootHash keccak256) key).run := by
  induction fuel with
  | zero => intro t _ _ _; exact Nat.zero_le _
  | succ fuel ih =>
    intro t atRoot key hb
    have hm := t.rlp_mem_nodes keccak256
    rw [lookUp, t.memoryDbGet_rootHash keccak256 (hb.unique _ hm)]
    by_cases hp : t.rlp keccak256 ∈ proof
    · rw [if_pos hp]
      dsimp only
      rw [decodeNode_rlp keccak256 t (hb.fits _ hm)]
      simp only [ExceptT.adapt_pure, pure_bind, MptNode.step_toNode]
      cases hd : t.descend key with
      | found v => exact MptNode.get_of_descend_found hd |>.symm
      | child c rest =>
        obtain ⟨-, -, hn, -⟩ := MptNode.descend_eq_child keccak256 hd
        simp only [MptNode.Descent.toStep, decodeHash_bytes]
        exact outcome_of_descend keccak256 hd
          (ih c false rest (MptNode.binds_of_subset keccak256 hb hn))
    · rw [if_neg hp]
      have hk := t.rlp_mem_pathNodes keccak256 key
      cases atRoot
      · show Outcome keccak256 t proof _ key (some (.error .incompleteDatabase))
        exact ⟨.inr rfl, fun hs => hp (hs hk)⟩
      · show Outcome keccak256 t proof _ key (some (.error .invalidStateRoot))
        exact ⟨.inl rfl, fun hs => hp (hs hk)⟩

/-- A lookup that has a round for every level of the trie, over a proof holding the key's path,
can only end with the trie's value. -/
theorem Outcome.eq_ok {t : MptNode} {fuel : Nat} {key : List (Fin 16)}
    {r : Option (Except TrieError (Option (List UInt8)))} (hfuel : t.height < fuel)
    (hp : t.pathNodes keccak256 key ⊆ proof) (h : Outcome keccak256 t proof fuel key r) :
    r = some (.ok (t.get key)) :=
  match r, h with
  | none, h => absurd h (Nat.not_le.2 hfuel)
  | some (.ok _), h => h ▸ rfl
  | some (.error _), h => absurd hp h.2

section
variable {t : MptNode}

/-- Over a proof with no hash collision with the nodes of a trie, the lookup under the trie's root
never ends with a value the trie does not hold: it ends with the trie's value under the key, or
with the error of a node the proof lacks. -/
theorem lookUp_sound (hb : Binds keccak256 t proof) {fuel : Nat} {atRoot : Bool} {key : List (Fin 16)}
    {r : Except TrieError (Option (List UInt8))}
    (h : (lookUp keccak256 proof fuel atRoot (t.rootHash keccak256) key).run = some r) :
    r = .ok (t.get key) ∨
      (r = .error .invalidStateRoot ∨ r = .error .incompleteDatabase) ∧ ¬ t.nodes keccak256 ⊆ proof := by
  have ho := lookUp_outcome keccak256 fuel t atRoot key hb
  rw [h] at ho
  rcases r with e | v
  · obtain ⟨he | he, hs⟩ := ho <;> subst he <;>
      simpa using fun hn => hs ((t.pathNodes_subset_nodes keccak256 key).trans hn)
  · exact .inl (congrArg _ ho)

/-- With a round for every level of the trie, the lookup ends. -/
theorem lookUp_ends (hb : Binds keccak256 t proof) {fuel : Nat} (hfuel : t.height < fuel)
    (atRoot : Bool) (key : List (Fin 16)) :
    (lookUp keccak256 proof fuel atRoot (t.rootHash keccak256) key).run ≠ none := fun h => by
  have ho := lookUp_outcome keccak256 fuel t atRoot key hb
  rw [h] at ho
  exact absurd ho (Nat.not_le.2 hfuel)

/-- Over a proof that holds the nodes on the key's path, with no collision with the trie's nodes,
the lookup under the trie's root ends with the trie's value under the key once it has a round for
every level. -/
theorem lookUp_complete_of_path (hb : Binds keccak256 t proof) {key : List (Fin 16)}
    (hp : t.pathNodes keccak256 key ⊆ proof) {fuel : Nat} (hfuel : t.height < fuel) (atRoot : Bool) :
    (lookUp keccak256 proof fuel atRoot (t.rootHash keccak256) key).run = some (.ok (t.get key)) :=
  Outcome.eq_ok keccak256 hfuel hp (lookUp_outcome keccak256 fuel t atRoot key hb)

/-- Over a proof that holds every node of the trie, with no collision, the lookup under the trie's
root ends with the trie's value under the key once it has a round for every level. -/
theorem lookUp_complete (ho : Opens keccak256 t proof) {fuel : Nat} (hfuel : t.height < fuel)
    (atRoot : Bool) (key : List (Fin 16)) :
    (lookUp keccak256 proof fuel atRoot (t.rootHash keccak256) key).run = some (.ok (t.get key)) :=
  Outcome.eq_ok keccak256 hfuel ((t.pathNodes_subset_nodes keccak256 key).trans ho.complete)
    (lookUp_outcome keccak256 fuel t atRoot key ho.toBinds)

end

end

/-! ### Lookups on small tries

`lengthHash` stands in for keccak on fixed inputs, so that `decide` runs the lookup; the tries are
small enough that it has no collision on them. -/

/-- A stand-in for keccak on fixed inputs: the 32-byte big-endian length of the bytes, without
collision between byte strings of different lengths. -/
def lengthHash (bs : List UInt8) : H256 := ⟨beBytes 32 bs.length, length_beBytes 32 bs.length⟩

/-- A branch with a leaf under the nibble 3. -/
def branchWithLeaf : MptNode := .branch (fun k => if k = 3 then .leaf [1, 2] [7] else .empty) []

/-- A branch with leaves under the nibbles 3 and 5. -/
def twoLeaves : MptNode :=
  .branch (fun k => if k = 3 then .leaf [1, 2] [7] else if k = 5 then .leaf [0] [8] else .empty) []

/-- The lookup in a whole proof of the branch ends with its value, and in the empty proof with
the missing root: both outcomes `lookUp_sound` allows. -/
theorem lookUp_sound_branchWithLeaf :
    let found : Except TrieError (Option (List UInt8)) := .ok (some [7])
    let missing : Except TrieError (Option (List UInt8)) := .error .invalidStateRoot
    (found = .ok (branchWithLeaf.get [3, 1, 2]) ∨
        (found = .error .invalidStateRoot ∨ found = .error .incompleteDatabase) ∧
          ¬ branchWithLeaf.nodes lengthHash ⊆ branchWithLeaf.nodes lengthHash) ∧
      (missing = .ok (branchWithLeaf.get [3, 1, 2]) ∨
        (missing = .error .invalidStateRoot ∨ missing = .error .incompleteDatabase) ∧
          ¬ branchWithLeaf.nodes lengthHash ⊆ []) :=
  ⟨lookUp_sound lengthHash (by decide) (show (lookUp lengthHash (branchWithLeaf.nodes lengthHash) 2
      true (branchWithLeaf.rootHash lengthHash) [3, 1, 2]).run = some (.ok (some [7])) by decide),
    lookUp_sound lengthHash (by decide) (show (lookUp lengthHash [] 1 true
      (branchWithLeaf.rootHash lengthHash) [3, 1, 2]).run = some (.error .invalidStateRoot) by decide)⟩

/-- The proof of the key `[3, 1, 2]` lacks the leaf under 5, so it does not open the trie, and
the lookup of the key still ends with its value. -/
theorem lookUp_complete_of_path_twoLeaves :
    ¬ Opens lengthHash twoLeaves (twoLeaves.pathNodes lengthHash [3, 1, 2]) ∧
    (lookUp lengthHash (twoLeaves.pathNodes lengthHash [3, 1, 2]) 2 true (twoLeaves.rootHash lengthHash)
      [3, 1, 2]).run = some (.ok (some [7])) :=
  ⟨fun h => absurd h.complete (by decide),
    lookUp_complete_of_path lengthHash (by decide) (List.Subset.refl _) (by decide) true⟩

theorem lookUp_complete_branch :
    (lookUp lengthHash (branchWithLeaf.nodes lengthHash) 2 true (branchWithLeaf.rootHash lengthHash)
      [3, 1, 2]).run = some (.ok (some [7])) :=
  lookUp_complete lengthHash (by decide) (by decide) true [3, 1, 2]

end SuccinctBridge
