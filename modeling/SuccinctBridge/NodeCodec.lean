import SuccinctBridge.Mpt

/-!
# The node codec of the lookup

`trie_db` decodes every node it fetches with the codec of the layout the source builds the trie
with, `EIP1186Layout<KeccakHasher>` of `patricia_merkle_trie`. Its `RlpNodeCodec::decode_plan`
reads a node with the `rlp` crate:
- bytes equal to `HASHED_NULL_NODE` (the hash of the empty trie) are the empty node;
- a two-item list is a leaf or an extension, by the flags of its hex-prefix path: the first byte
  of the path's payload (`data[0]`, a panic on an empty path) has `0x20` set for a leaf and `0x10`
  for an odd path, whose nibbles then start at the second one, else at the third; the second item
  is the leaf's value, or the extension's child taken as a hash;
- a seventeen-item list is a branch: sixteen children, each absent when its item is empty and else
  the item's payload taken as a hash, and a value, absent when empty;
- a byte string of length zero is the empty node, and anything else is an error.
The payload of the `i`-th item, the range `(offset + header_len)..(offset + header_len + value_len)`
the codec cuts out of the node, is `Rlp::at(i)` followed by `data()`. All these calls go to one
`Rlp`, whose offset cache the count of `prototype` and each `at_with_offset` move: `decodePlan`
runs them in a state monad over the cache.

`decodeNode_rlp`: the codec reads back every node of a trie, flags and path included
(`hexPrefix_read`). On a node's encoding every call returns its item from any cache an earlier
call leaves (`Returns`).
-/

namespace SuccinctBridge

/-- `rlp::Prototype`. -/
inductive Prototype
  | null
  | data (len : Nat)
  | list (count : Nat)
deriving DecidableEq, Repr

namespace Rlp

/-- `Rlp::is_empty`: the empty string or the empty list. -/
def isEmpty (bytes : List UInt8) : Bool :=
  match bytes with
  | [] => false
  | b :: _ => b == 0xc0 || b == 0x80

/-- `Rlp::is_data`. -/
def isData (bytes : List UInt8) : Bool :=
  match bytes with
  | [] => false
  | b :: _ => b.toNat < 0xc0

/-- `Rlp::size`: the payload length of a byte string, and zero when its header cannot be read. -/
def size (bytes : List UInt8) : Nat :=
  if isData bytes then
    match payloadInfo bytes with
    | .ok pi => pi.valueLen
    | .error _ => 0
  else 0

/-- `Rlp::prototype` on an `Rlp` whose offset cache holds `cache`: a list's prototype counts its
items, which moves the cache. -/
def prototype (bytes : List UInt8) (cache : Option OffsetCache) :
    Except DecoderError Prototype × Option OffsetCache :=
  if isData bytes then (.ok (.data (size bytes)), cache)
  else if isList bytes then
    let counted := itemCount bytes cache
    (Prototype.list <$> counted.1, counted.2)
  else (.ok .null, cache)

end Rlp

/-- `rlp::DecoderError` as `RlpNodeCodec::decode_plan` returns it: an error of the decoder, or the
codec's own `Custom("Rlp is not valid.")`. -/
inductive CodecError
  | rlp (e : DecoderError)
  | custom (msg : String)
deriving DecidableEq, Repr

/-- `trie_db::node::Node` as the codec builds it: paths in nibbles, values inline, and children
as the bytes of their hash (`NodeHandle::Hash`). -/
inductive Node
  | empty
  | leaf (slice : List (Fin 16)) (value : List UInt8)
  | extension (slice : List (Fin 16)) (child : List UInt8)
  | branch (children : List (Option (List UInt8))) (value : Option (List UInt8))
deriving DecidableEq, Repr

/-- `HASHED_NULL_NODE`, the keccak hash of the empty trie's encoding `0x80`. -/
def hashedNullNode : List UInt8 :=
  [0x56, 0xe8, 0x1f, 0x17, 0x1b, 0xcc, 0x55, 0xa6, 0xff, 0x83, 0x45, 0xe6, 0x92, 0xc0, 0xf8, 0x6e,
    0x5b, 0x48, 0xe0, 0x1b, 0x99, 0x6c, 0xad, 0xc0, 0x01, 0x62, 0x2f, 0xb5, 0xe3, 0x63, 0xb4, 0x21]

/-- A decoder error, passed on by `?`. -/
def liftRlp {α : Type} (r : Except DecoderError α) : ExceptT CodecError Option α :=
  ExceptT.mk (some (r.mapError .rlp))

/-- A call on the `Rlp` of the node, which reads and moves its offset cache, with `?` on its
result: the codec's calls share one `Rlp`. -/
def rlpCall {α : Type}
    (call : Option Rlp.OffsetCache → Except DecoderError α × Option Rlp.OffsetCache) :
    StateT (Option Rlp.OffsetCache) (ExceptT CodecError Option) α := fun cache =>
  liftRlp ((·, (call cache).2) <$> (call cache).1)

/-- The payload of the `i`-th item of the node: `at_with_offset(i)`, then the item's
`payload_info`, the range the codec cuts out of the node. -/
def itemPayload (node : List UInt8) (i : Nat) :
    StateT (Option Rlp.OffsetCache) (ExceptT CodecError Option) (List UInt8) := do
  let (item, _) ← rlpCall (Rlp.atWithOffset node · i)
  liftRlp (Rlp.data item)

/-- The `i`-th entry of a branch: none when its item is empty, else its payload. -/
def branchEntry (node : List UInt8) (i : Nat) :
    StateT (Option Rlp.OffsetCache) (ExceptT CodecError Option) (Option (List UInt8)) := do
  let (item, _) ← rlpCall (Rlp.atWithOffset node · i)
  let payload ← liftRlp (Rlp.data item)
  pure (if Rlp.isEmpty item then none else some payload)

/-- `RlpNodeCodec::decode_plan` on `Rlp::new(node)`, whose offset cache its calls share, with the
plan's ranges cut out of the node (`NodePlan::build`). -/
def decodePlan (node : List UInt8) :
    StateT (Option Rlp.OffsetCache) (ExceptT CodecError Option) Node := do
  match ← rlpCall (Rlp.prototype node) with
  | .list 2 =>
    let path ← itemPayload node 0
    let first ← (ExceptT.lift path.head? : ExceptT CodecError Option UInt8)
    let slice := (toNibbles path).drop (if first &&& 16 = 16 then 1 else 2)
    let item ← itemPayload node 1
    pure (if first &&& 32 = 32 then .leaf slice item else .extension slice item)
  | .list 17 =>
    let children ← (List.finRange 16).mapM fun i => branchEntry node i.val
    let value ← branchEntry node 16
    pure (.branch children value)
  | .data 0 => pure .empty
  | _ => throw (.custom "Rlp is not valid.")

/-- `RlpNodeCodec::decode_plan`: the hash of the empty trie is the empty node, and any other node
is read from a fresh `Rlp`. -/
def decodeNode (node : List UInt8) : ExceptT CodecError Option Node :=
  if node = hashedNullNode then pure .empty else (decodePlan node).run' none

/-- `decode_hash`: a child handle of 32 bytes is a hash. -/
def decodeHash (data : List UInt8) : Option H256 := FixedBytes.copyFromSlice 32 data

namespace MptNode
variable (keccak256 : List UInt8 → H256)

/-- The entry a branch holds for a child: none when it is absent, else its hash. -/
def childHandle (node : MptNode) : Option (List UInt8) :=
  match node with
  | .empty => none
  | _ => some (node.rootHash keccak256).bytes

/-- The node the codec reads from the encoding of a trie node. -/
def toNode : MptNode → Node
  | .empty => .empty
  | .leaf path value => .leaf path value
  | .extension path child => .extension path (child.rootHash keccak256).bytes
  | .branch children value =>
    .branch ((List.finRange 16).map fun k => (children k).childHandle keccak256)
      (if value = [] then none else some value)

end MptNode

/-! ### The decoder on encoded items -/

theorem UInt8.eq_iff_toNat {a b : UInt8} : a = b ↔ a.toNat = b.toNat :=
  ⟨fun h => h ▸ rfl, UInt8.toNat.inj⟩

namespace Rlp

theorem isData_eq_false_of_isList {bytes : List UInt8} (h : isList bytes = true) :
    isData bytes = false := by
  match bytes with
  | b :: _ => simp [isList, isData] at h ⊢; omega

theorem isEmpty_encode_str (s : List UInt8) : isEmpty (RlpItem.str s).encode = s.isEmpty := by
  have h192 : (0xc0 : UInt8).toNat = 192 := rfl
  have h128 : (0x80 : UInt8).toNat = 128 := rfl
  match s with
  | [] => rfl
  | b :: bs =>
    have hk := length_stripZeros_le (beBytes 8 (bs.length + 1))
    rw [length_beBytes] at hk
    simp only [RlpItem.encode, stringHeader, encodeLength, List.isEmpty_cons, List.length_cons]
    split_ifs with h1 h2 <;>
      simp only [isEmpty, List.nil_append, List.cons_append, List.singleton_append, Bool.or_eq_false_iff,
        beq_eq_false_iff_ne, ne_eq, UInt8.eq_iff_toNat, UInt8.toNat_ofNat', h192, h128]
    · match bs, h1 with
      | [], h1 => simp only [singleByte, decide_eq_true_eq] at h1; omega
    all_goals omega

theorem ne_hashedNullNode_of_isList {bytes : List UInt8} (h : isList bytes = true) :
    bytes ≠ hashedNullNode := by
  rintro rfl; exact absurd h (by decide)

end Rlp

theorem RlpItem.encode_list_ne_hashedNullNode (items : List RlpItem) :
    (RlpItem.list items).encode ≠ hashedNullNode :=
  Rlp.ne_hashedNullNode_of_isList (RlpItem.isList_encode_list items)

/-! ### Reading the items of a node -/

@[simp] theorem liftRlp_ok {α : Type} (a : α) : liftRlp (.ok a : Except DecoderError α) = pure a := rfl

@[simp] theorem liftRlp_error {α : Type} (e : DecoderError) :
    liftRlp (.error e : Except DecoderError α) = throw (.rlp e) := rfl

@[simp] theorem lift_some {α : Type} (a : α) :
    (ExceptT.lift (some a) : ExceptT CodecError Option α) = pure a := rfl

theorem RlpItem.length_encodeAll_lt {items : List RlpItem}
    (h : (RlpItem.list items).encode.length < 2 ^ 64) : (RlpItem.encodeAll items).length < 2 ^ 64 :=
  ((RlpItem.length_payload_le (.list items))).trans_lt h

theorem RlpItem.length_payload_getElem_lt {items : List RlpItem}
    (h : (RlpItem.encodeAll items).length < 2 ^ 64) {i : Nat} (hi : i < items.length) :
    items[i].payload.length < 2 ^ 64 :=
  ((RlpItem.length_payload_le _).trans (RlpItem.length_encode_le_of_mem (List.getElem_mem hi))).trans_lt h

/-- The codec's calls, run on the encoding of `items` from a cache that points at one of its
items, return `a` and leave such a cache. -/
def Returns (items : List RlpItem) {α : Type}
    (m : StateT (Option Rlp.OffsetCache) (ExceptT CodecError Option) α) (a : α) : Prop :=
  ∀ cache, RlpItem.CachesItem items cache →
    ∃ cache', m.run cache = pure (a, cache') ∧ RlpItem.CachesItem items cache'

section
variable {items : List RlpItem} {α β : Type}

theorem returns_pure {a b : α} (h : a = b) : Returns items (pure a) b :=
  fun c hc => ⟨c, by rw [h]; rfl, hc⟩

theorem Returns.bind {m : StateT (Option Rlp.OffsetCache) (ExceptT CodecError Option) α} {a : α}
    {f : α → StateT (Option Rlp.OffsetCache) (ExceptT CodecError Option) β} {b : β}
    (hm : Returns items m a) (hf : Returns items (f a) b) : Returns items (m >>= f) b := fun c hc => by
  obtain ⟨c₁, h₁, hc₁⟩ := hm c hc
  obtain ⟨c₂, h₂, hc₂⟩ := hf c₁ hc₁
  exact ⟨c₂, by rw [StateT.run_bind, h₁, pure_bind, h₂], hc₂⟩

theorem returns_lift {x : ExceptT CodecError Option α} (a : α) (hx : x = pure a) :
    Returns items (StateT.lift x) a :=
  fun c hc => ⟨c, by rw [StateT.run_lift, hx, pure_bind], hc⟩

theorem returns_mapM {γ : Type} {f : γ → StateT (Option Rlp.OffsetCache) (ExceptT CodecError Option) α}
    (g : γ → α) : ∀ l : List γ, (∀ x ∈ l, Returns items (f x) (g x)) →
      Returns items (l.mapM f) (l.map g)
  | [], _ => returns_pure rfl
  | x :: l, h => by
    rw [List.mapM_cons, List.map_cons]
    exact (h x (List.mem_cons_self x l)).bind
      ((returns_mapM g l fun y hy => h y (List.mem_cons_of_mem x hy)).bind (returns_pure rfl))

theorem returns_rlpCall
    {call : Option Rlp.OffsetCache → Except DecoderError α × Option Rlp.OffsetCache} (a : α)
    (h : ∀ cache, RlpItem.CachesItem items cache →
      (call cache).1 = .ok a ∧ RlpItem.CachesItem items (call cache).2) :
    Returns items (rlpCall call) a := fun c hc =>
  ⟨(call c).2, by rw [StateT.run, rlpCall, (h c hc).1]; rfl, (h c hc).2⟩

variable (h : (RlpItem.encodeAll items).length < 2 ^ 64)
include h

/-- A list's prototype counts its items. -/
theorem returns_prototype :
    Returns items (rlpCall (Rlp.prototype (RlpItem.list items).encode)) (.list items.length) :=
  returns_rlpCall _ fun c hc => by
    have hl := RlpItem.isList_encode_list items
    obtain ⟨h₁, h₂⟩ := RlpItem.itemCount_encode_list h hc
    simp only [Rlp.prototype, Rlp.isData_eq_false_of_isList hl, hl, if_true]
    exact ⟨by rw [h₁]; rfl, h₂⟩

variable {i : Nat} (hi : i < items.length)
include hi

/-- `at(i)` finds the `i`-th item at its offset and caches it. -/
theorem returns_at :
    Returns items (rlpCall (Rlp.atWithOffset (RlpItem.list items).encode · i))
      (items[i].encode, RlpItem.itemOffset items i) :=
  returns_rlpCall _ fun c hc => by
    rw [RlpItem.atWithOffset_encode_list h hc hi]
    exact ⟨rfl, RlpItem.cachesItem_some items i⟩

theorem data_encode_getElem : Rlp.data items[i].encode = .ok items[i].payload := by
  simpa using RlpItem.data_encode items[i] (RlpItem.length_payload_getElem_lt h hi) []

theorem returns_itemPayload :
    Returns items (itemPayload (RlpItem.list items).encode i) items[i].payload :=
  (returns_at h hi).bind (returns_lift _ (by simp [data_encode_getElem h hi]))

theorem returns_branchEntry : Returns items (branchEntry (RlpItem.list items).encode i)
    (if Rlp.isEmpty items[i].encode then none else some items[i].payload) :=
  (returns_at h hi).bind
    ((returns_lift items[i].payload (by simp [data_encode_getElem h hi])).bind (returns_pure rfl))

end

/-! ### Reading a trie node back -/

variable (keccak256 : List UInt8 → H256)

/-- The codec's reading of a path recovers the path and the leaf flag of its hex-prefix encoding. -/
theorem hexPrefix_read (path : List (Fin 16)) (leaf : Bool) :
    ∃ first rest, hexPrefix path leaf = first :: rest ∧ (first &&& 32 = 32 ↔ leaf = true) ∧
      (toNibbles (first :: rest)).drop (if first &&& 16 = 16 then 1 else 2) = path := by
  obtain hp | hp := Nat.mod_two_eq_zero_or_one path.length
  · refine ⟨_, _, by rw [hexPrefix, if_pos hp], by cases leaf <;> decide, ?_⟩
    rw [← List.singleton_append, toNibbles_append, toNibbles_packNibbles path hp]
    cases leaf <;> rfl
  · obtain _ | ⟨x, rest⟩ := path
    · simp at hp
    have hx : ∀ x : Fin 16, let first := UInt8.ofNat (16 * ((if leaf then 2 else 0) + 1) + x.val)
        (first &&& 32 = 32 ↔ leaf = true) ∧
          (toNibbles [first]).drop (if first &&& 16 = 16 then 1 else 2) = [x] := by
      cases leaf <;> decide
    refine ⟨_, _, by rw [hexPrefix, if_neg (by omega)]; rfl, (hx x).1, ?_⟩
    rw [← List.singleton_append, toNibbles_append, List.tail_cons,
      toNibbles_packNibbles rest (by simp at hp; omega),
      List.drop_append_of_le_length (by split_ifs <;> simp [toNibbles]), (hx x).2, List.singleton_append]

/-- A two-item list is read as a leaf or an extension by the flags of its hex-prefix path. -/
theorem returns_decodePlan_pair (path : List (Fin 16)) (leaf : Bool) (item : List UInt8)
    (h : (RlpItem.encodeAll [.str (hexPrefix path leaf), .str item]).length < 2 ^ 64) :
    Returns [.str (hexPrefix path leaf), .str item]
      (decodePlan (RlpItem.list [.str (hexPrefix path leaf), .str item]).encode)
      (if leaf then .leaf path item else .extension path item) := by
  obtain ⟨first, rest, hhp, hleaf, hslice⟩ := hexPrefix_read path leaf
  refine (returns_prototype h).bind ?_
  refine (returns_itemPayload h (show 0 < 2 by decide)).bind ?_
  refine (returns_lift first (by simp [RlpItem.payload, hhp])).bind ?_
  refine (returns_itemPayload h (show 1 < 2 by decide)).bind (returns_pure ?_)
  simp [RlpItem.payload, hhp, hslice, hleaf]

/-- A branch's entry for a child is the child's handle. -/
theorem entry_childItem (c : MptNode) :
    (if Rlp.isEmpty (c.childItem keccak256 (c.encode keccak256)).encode then none
      else some (c.childItem keccak256 (c.encode keccak256)).payload) = c.childHandle keccak256 := by
  cases c <;> simp [MptNode.childItem, MptNode.childHandle, Rlp.isEmpty_encode_str, RlpItem.payload,
    MptNode.rootHash, MptNode.rlp, ← List.length_eq_zero]

/-- A seventeen-item list is read as a branch: sixteen entries and a value, each absent when
empty. -/
theorem returns_decodePlan_branch (entries : Fin 16 → RlpItem) (value : List UInt8)
    (h : (RlpItem.encodeAll ((List.finRange 16).map entries ++ [.str value])).length < 2 ^ 64) :
    Returns ((List.finRange 16).map entries ++ [.str value])
      (decodePlan (RlpItem.list ((List.finRange 16).map entries ++ [.str value])).encode)
      (.branch ((List.finRange 16).map fun k =>
          if Rlp.isEmpty (entries k).encode then none else some (entries k).payload)
        (if value = [] then none else some value)) := by
  refine (returns_prototype h).bind ?_
  refine (returns_mapM (fun k : Fin 16 =>
      if Rlp.isEmpty (entries k).encode then none else some (entries k).payload) _ fun k _ => ?_).bind
    ((returns_branchEntry h (show 16 < _ by simp)).bind (returns_pure ?_))
  · have hk := returns_branchEntry h (show k.val < _ by simp; omega)
    simpa [List.getElem_append_left] using hk
  · simp [Rlp.isEmpty_encode_str, RlpItem.payload]

/-- What the codec reads from a fresh `Rlp`. -/
theorem decodeNode_of_returns {items : List RlpItem} {a : Node}
    (hr : Returns items (decodePlan (RlpItem.list items).encode) a) :
    decodeNode (RlpItem.list items).encode = pure a := by
  obtain ⟨c, hc, -⟩ := hr none (RlpItem.cachesItem_none items)
  rw [decodeNode, if_neg (RlpItem.encode_list_ne_hashedNullNode items), StateT.run'_eq, hc]
  rfl

/-- The codec reads back every node of a trie that fits in memory. -/
theorem decodeNode_rlp (t : MptNode) (h : (t.rlp keccak256).length < 2 ^ 64) :
    decodeNode (t.rlp keccak256) = pure (t.toNode keccak256) := by
  cases t with
  | empty => rfl
  | leaf path value =>
    exact decodeNode_of_returns
      (returns_decodePlan_pair path true value (RlpItem.length_encodeAll_lt h))
  | extension path child =>
    exact decodeNode_of_returns
      (returns_decodePlan_pair path false _ (RlpItem.length_encodeAll_lt h))
  | branch children value =>
    rw [MptNode.rlp, MptNode.encode,
      decodeNode_of_returns (returns_decodePlan_branch _ _ (RlpItem.length_encodeAll_lt h))]
    simp [entry_childItem, MptNode.toNode]

/-- The leaf of the storage proof of the source's `test_storage_value`: an even path of 31 bytes
after its flag byte `0x20`, and the RLP of the stored word as its value. -/
example :
    (decodeNode [0xf8, 0x43, 0xa0, 0x20, 0x4e, 0xff, 0xc9, 0x36, 0x25, 0x9a, 0x57, 0xc5, 0x6f, 0xfc,
      0x97, 0xbf, 0x60, 0x1a, 0x6f, 0x6e, 0xe1, 0x29, 0xac, 0x5c, 0xd3, 0x98, 0x09, 0xa8, 0x89, 0xdf,
      0x1a, 0x8a, 0xd3, 0xfd, 0xc1, 0xa1, 0xa0, 0x36, 0x17, 0x64, 0x3c, 0xdf, 0xf8, 0x8a, 0xaf, 0x66,
      0xc6, 0xd0, 0x9f, 0xd1, 0x1c, 0x1a, 0x73, 0xce, 0x69, 0xdd, 0x90, 0x50, 0x86, 0xaf, 0xd6, 0x92,
      0xa6, 0x2c, 0x4b, 0xa8, 0x00, 0xfd, 0xd4]).run =
      some (.ok (.leaf (toNibbles [0x4e, 0xff, 0xc9, 0x36, 0x25, 0x9a, 0x57, 0xc5, 0x6f, 0xfc, 0x97,
        0xbf, 0x60, 0x1a, 0x6f, 0x6e, 0xe1, 0x29, 0xac, 0x5c, 0xd3, 0x98, 0x09, 0xa8, 0x89, 0xdf, 0x1a,
        0x8a, 0xd3, 0xfd, 0xc1])
        [0xa0, 0x36, 0x17, 0x64, 0x3c, 0xdf, 0xf8, 0x8a, 0xaf, 0x66, 0xc6, 0xd0, 0x9f, 0xd1, 0x1c, 0x1a,
          0x73, 0xce, 0x69, 0xdd, 0x90, 0x50, 0x86, 0xaf, 0xd6, 0x92, 0xa6, 0x2c, 0x4b, 0xa8, 0x00, 0xfd,
          0xd4])) := by
  decide

end SuccinctBridge
