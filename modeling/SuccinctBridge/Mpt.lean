import Mathlib.Data.List.FinRange
import SuccinctBridge.Rlp

/-!
# The Merkle-Patricia trie a storage proof opens

`get_storage_value` and `get_storage_root` look a key up in Ethereum's Merkle-Patricia trie
through the nodes of a proof. This module says what such a trie is, by itself and apart from the
lookup the source delegates to `trie_db`: a tree of `MptNode`s, the value it holds under a key
(`get`), the RLP encoding of its nodes with hex-prefix paths (`encode`, `hexPrefix`), the hash it
is known by (`rootHash`), the node encodings a proof of the whole trie carries (`nodes`) and those
a proof of one key carries (`pathNodes`).

Every child is referenced by the keccak hash of its encoding. Ethereum inlines a child whose
encoding is shorter than 32 bytes; the node codec of the lookup reads every child as a hash, so on
an inlined child it hands `decode_hash` fewer than 32 bytes and the lookup ends with
`InvalidHash`. The tries here are those whose children are all referenced by hash.

`descend` is one step of `get`: the value found at a node, or the child to read the rest of the
key in. The lookup is related to the trie one such step at a time.
-/

namespace SuccinctBridge

/-- The nibbles of a byte string, high nibble first, as `NibbleSlice` reads them. -/
def toNibbles : List UInt8 → List (Fin 16)
  | [] => []
  | b :: bs => Fin.ofNat (b.toNat / 16) :: Fin.ofNat (b.toNat % 16) :: toNibbles bs

/-- Nibbles two to a byte, high nibble first. -/
def packNibbles : List (Fin 16) → List UInt8
  | a :: b :: rest => UInt8.ofNat (16 * a.val + b.val) :: packNibbles rest
  | _ => []

/-- Ethereum's hex-prefix encoding of a path: a first byte holding the leaf flag `0x20`, the odd
length flag `0x10` and, for an odd path, its first nibble; then the nibbles two to a byte. -/
def hexPrefix (path : List (Fin 16)) (leaf : Bool) : List UInt8 :=
  let flag := if leaf then 2 else 0
  if path.length % 2 = 0 then UInt8.ofNat (16 * flag) :: packNibbles path
  else UInt8.ofNat (16 * (flag + 1) + (path.headD 0).val) :: packNibbles path.tail

@[simp] theorem toNibbles_append (a b : List UInt8) :
    toNibbles (a ++ b) = toNibbles a ++ toNibbles b := by
  induction a with
  | nil => rfl
  | cons x a ih => simp [toNibbles, ih]

theorem toNibbles_byte (a b : Fin 16) :
    toNibbles [UInt8.ofNat (16 * a.val + b.val)] = [a, b] := by
  simp only [toNibbles, UInt8.toNat_ofNat', List.cons.injEq, and_true]
  constructor <;> apply Fin.ext <;> simp [Fin.ofNat] <;> omega

theorem toNibbles_packNibbles : ∀ path : List (Fin 16), path.length % 2 = 0 →
    toNibbles (packNibbles path) = path
  | [], _ => rfl
  | [_], h => by simp at h
  | a :: b :: rest, h => by
    rw [packNibbles, ← List.singleton_append, toNibbles_append, toNibbles_byte,
      toNibbles_packNibbles rest (by simp at h; omega)]
    rfl

/-- A node of the trie: `empty` (the empty trie, or a branch's absent child), a `leaf` with the
rest of its key and its value, an `extension` with a shared path and the node below it, and a
`branch` with a child for every nibble and the value of the key ending there (empty if none). -/
inductive MptNode
  | empty
  | leaf (path : List (Fin 16)) (value : List UInt8)
  | extension (path : List (Fin 16)) (child : MptNode)
  | branch (children : Fin 16 → MptNode) (value : List UInt8)

namespace MptNode

/-- The value the trie holds under a key. -/
def get : MptNode → List (Fin 16) → Option (List UInt8)
  | .empty, _ => none
  | .leaf path value, key => if key = path then some value else none
  | .extension path child, key => if path <+: key then child.get (key.drop path.length) else none
  | .branch _ value, [] => if value = [] then none else some value
  | .branch children _, k :: rest => (children k).get rest

/-- What `get` does at one node: return a value, or read the rest of the key in a child. -/
inductive Descent
  | found (value : Option (List UInt8))
  | child (node : MptNode) (rest : List (Fin 16))

/-- A branch's child under a nibble: absent when empty. -/
def childAt (node : MptNode) (rest : List (Fin 16)) : Descent :=
  match node with
  | .empty => .found none
  | _ => .child node rest

/-- One step of `get`. -/
def descend : MptNode → List (Fin 16) → Descent
  | .empty, _ => .found none
  | .leaf path value, key => .found (if key = path then some value else none)
  | .extension path child, key =>
    if path <+: key then .child child (key.drop path.length) else .found none
  | .branch _ value, [] => .found (if value = [] then none else some value)
  | .branch children _, k :: rest => childAt (children k) rest

/-- Nodes below nodes: the height of the tree. -/
def height : MptNode → Nat
  | .extension _ child => child.height + 1
  | .branch children _ => ((List.finRange 16).map fun k => (children k).height).foldr max 0 + 1
  | _ => 0

section
variable (keccak256 : List UInt8 → H256)

/-- How a branch refers to a child with encoding `item`: by its hash, or by the empty string when
the child is absent. -/
def childItem (node : MptNode) (item : RlpItem) : RlpItem :=
  match node with
  | .empty => .str []
  | _ => .str (keccak256 item.encode).bytes

/-- The RLP item of a node: a two-item list for a leaf and an extension, with the hex-prefix
path first, and a seventeen-item list for a branch. Every child goes in as the hash of its
encoding, never inline. -/
def encode : MptNode → RlpItem
  | .empty => .str []
  | .leaf path value => .list [.str (hexPrefix path true), .str value]
  | .extension path child =>
    .list [.str (hexPrefix path false), .str (keccak256 (encode child).encode).bytes]
  | .branch children value =>
    .list ((List.finRange 16).map (fun k => childItem keccak256 (children k) (encode (children k)))
      ++ [.str value])

/-- The bytes of a node. -/
def rlp (t : MptNode) : List UInt8 := (t.encode keccak256).encode

/-- The hash the trie is known by. -/
def rootHash (t : MptNode) : H256 := keccak256 (t.rlp keccak256)

/-- The nodes of a branch's child that a lookup can reach: none when the child is absent. -/
def childNodes (node : MptNode) (below : List (List UInt8)) : List (List UInt8) :=
  match node with
  | .empty => []
  | _ => below

/-- The encodings of the nodes a lookup fetches by hash: the root and every node below it but a
branch's absent children. A complete proof of the trie holds them all. -/
def nodes : MptNode → List (List UInt8)
  | .empty => [rlp keccak256 .empty]
  | .leaf path value => [rlp keccak256 (.leaf path value)]
  | .extension path child => rlp keccak256 (.extension path child) :: nodes child
  | .branch children value => rlp keccak256 (.branch children value) ::
    ((List.finRange 16).map fun k => childNodes (children k) (nodes (children k))).flatten

/-- The encodings of the nodes a lookup of `key` fetches: the root and, below it, the nodes
`descend` goes through. An EIP-1186 proof of the key carries these. -/
def pathNodes : MptNode → List (Fin 16) → List (List UInt8)
  | .extension path child, key => rlp keccak256 (.extension path child) ::
    if path <+: key then pathNodes child (key.drop path.length) else []
  | .branch children value, k :: rest => rlp keccak256 (.branch children value) ::
    childNodes (children k) (pathNodes (children k) rest)
  | t, _ => [rlp keccak256 t]

end

/-! ### One step of `get` -/

theorem get_of_descend_found {t : MptNode} {key : List (Fin 16)} {v : Option (List UInt8)}
    (h : t.descend key = .found v) : t.get key = v := by
  match t, key with
  | .empty, _ | .leaf .., _ | .branch .., [] => simpa [descend, get] using h
  | .extension path child, key =>
    by_cases hp : path <+: key <;> simp_all [descend, get]
  | .branch children _, k :: rest =>
    cases hc : children k <;> simp_all [descend, childAt, get]

private theorem le_foldr_max {l : List Nat} {x : Nat} (h : x ∈ l) : x ≤ l.foldr max 0 := by
  induction l with
  | nil => cases h
  | cons y l ih =>
    rcases List.mem_cons.1 h with rfl | h
    · exact Nat.le_max_left _ _
    · exact (ih h).trans (Nat.le_max_right _ _)

theorem height_lt_branch (children : Fin 16 → MptNode) (value : List UInt8) (k : Fin 16) :
    (children k).height < (branch children value).height :=
  Nat.lt_succ_of_le (le_foldr_max (List.mem_map_of_mem _ (List.mem_finRange k)))

theorem nodes_subset_branch (keccak256 : List UInt8 → H256) (children : Fin 16 → MptNode)
    (value : List UInt8) (k : Fin 16) :
    childNodes (children k) ((children k).nodes keccak256) ⊆ (branch children value).nodes keccak256 :=
  List.subset_cons_of_subset _ (List.sublist_flatten_of_mem (List.mem_map_of_mem
    (fun k => childNodes (children k) ((children k).nodes keccak256)) (List.mem_finRange k))).subset

/-- A step into a child reads the rest of the key there, in a lower tree whose nodes are nodes of
the whole, and the lookup fetches the child's path after the node. -/
theorem descend_eq_child (keccak256 : List UInt8 → H256) {t c : MptNode} {key rest : List (Fin 16)}
    (h : t.descend key = .child c rest) :
    t.get key = c.get rest ∧ c.height < t.height ∧ c.nodes keccak256 ⊆ t.nodes keccak256 ∧
      t.pathNodes keccak256 key = t.rlp keccak256 :: c.pathNodes keccak256 rest := by
  match t, key with
  | .empty, _ | .leaf .., _ | .branch .., [] => simp [descend] at h
  | .extension path child, key =>
    by_cases hp : path <+: key <;> simp only [descend, hp, if_true, if_false] at h
    · cases h
      exact ⟨by simp [get, hp], Nat.lt_succ_self _, List.subset_cons_self _ _, by simp [pathNodes, hp]⟩
    · cases h
  | .branch children value, k :: rest =>
    have hb := nodes_subset_branch keccak256 children value k
    have hl := height_lt_branch children value k
    cases hc : children k <;> simp only [descend, childAt, hc] at h <;> cases h <;>
      rw [hc] at hb hl <;> exact ⟨by simp [get, hc], hl, hb, by simp [pathNodes, hc, childNodes]⟩

theorem rlp_mem_pathNodes (keccak256 : List UInt8 → H256) (t : MptNode) (key : List (Fin 16)) :
    t.rlp keccak256 ∈ t.pathNodes keccak256 key := by
  cases t <;> cases key <;> simp [pathNodes]

theorem childNodes_mono (node : MptNode) {a b : List (List UInt8)} (h : a ⊆ b) :
    childNodes node a ⊆ childNodes node b := by
  cases node <;> simp [childNodes, h]

/-- The path of a key is part of the whole trie. -/
theorem pathNodes_subset_nodes (keccak256 : List UInt8 → H256) (t : MptNode) :
    ∀ key, t.pathNodes keccak256 key ⊆ t.nodes keccak256 := by
  induction t with
  | empty | leaf _ _ => intro key; simp [pathNodes, nodes]
  | extension path child ih =>
    intro key
    simp only [pathNodes, nodes]
    split_ifs
    · exact List.cons_subset_cons _ (ih _)
    · exact List.cons_subset_cons _ (List.nil_subset _)
  | branch children value ih =>
    rintro (_ | ⟨k, rest⟩)
    · simp [pathNodes, nodes]
    · exact List.cons_subset.2 ⟨List.mem_cons_self _ _,
        (childNodes_mono _ (ih k rest)).trans (nodes_subset_branch keccak256 children value k)⟩

end MptNode

end SuccinctBridge
