import SuccinctBridge.Bytes

/-!
# Cross-chain message wire format (`target_amb.rs`)

A message is a fixed 69-byte header followed by an opaque payload: the version byte, the nonce
(`u64`), the source chain id (`u32`), the 20-byte source address, the destination chain id (`u32`)
and the 32-byte destination address, all big-endian and without padding. `decode_message` reads
each field with an unconditional slice, so it panics on a buffer shorter than 69 bytes.

`encodeMessage` is that layout. `decodeMessage_encode` and `decodeMessage_of_le` make decoding and
encoding inverse on every message and on every buffer of at least 69 bytes.
-/

namespace SuccinctBridge

/-- `Message`. -/
structure Message where
  version : UInt8
  nonce : UInt64
  sourceChainId : UInt32
  sourceAddress : H160
  destinationChainId : UInt32
  destinationAddress : H256
  data : List UInt8
deriving DecidableEq, Repr

/-- `decode_message`. -/
def decodeMessage (message : List UInt8) : Option Message := do
  let version ← message[0]?
  let buf ← readArray 8 message 1
  let nonce := UInt64.fromBeBytes buf
  let bufSourceChain ← readArray 4 message 9
  let sourceChainId := UInt32.fromBeBytes bufSourceChain
  let sourceAddress ← readArray 20 message 13
  let bufDestChain ← readArray 4 message 33
  let destinationChainId := UInt32.fromBeBytes bufDestChain
  let destinationAddress ← readArray 32 message 37
  let data ← sliceFrom message 69
  pure { version, nonce, sourceChainId, sourceAddress, destinationChainId, destinationAddress, data }

/-- The wire layout of a message. -/
def encodeMessage (m : Message) : List UInt8 :=
  [m.version] ++ (UInt64.toBeBytes m.nonce).bytes ++ (UInt32.toBeBytes m.sourceChainId).bytes ++
    m.sourceAddress.bytes ++ (UInt32.toBeBytes m.destinationChainId).bytes ++
    m.destinationAddress.bytes ++ m.data

@[simp] theorem length_encodeMessage (m : Message) : (encodeMessage m).length = 69 + m.data.length := by
  simp [encodeMessage]; omega

theorem decodeMessage_encode (m : Message) : decodeMessage (encodeMessage m) = some m := by
  simp (disch := simp) only [decodeMessage, encodeMessage, readArray_append_left,
    readArray_append_fixed, sliceFrom_append]
  simp

/-- Every buffer of at least 69 bytes is the encoding of a message. -/
theorem exists_encodeMessage {bs : List UInt8} (h : 69 ≤ bs.length) : ∃ m, encodeMessage m = bs := by
  obtain ⟨v, bs, hv, h₁, rfl⟩ := exists_append_of_length bs 1 (bs.length - 1) (by omega)
  obtain ⟨n, bs, hn, h₂, rfl⟩ := exists_append_of_length bs 8 (bs.length - 8) (by omega)
  obtain ⟨sc, bs, hsc, h₃, rfl⟩ := exists_append_of_length bs 4 (bs.length - 4) (by omega)
  obtain ⟨sa, bs, hsa, h₄, rfl⟩ := exists_append_of_length bs 20 (bs.length - 20) (by omega)
  obtain ⟨dc, bs, hdc, h₅, rfl⟩ := exists_append_of_length bs 4 (bs.length - 4) (by omega)
  obtain ⟨da, data, hda, -, rfl⟩ := exists_append_of_length bs 32 (bs.length - 32) (by omega)
  obtain ⟨b, rfl⟩ : ∃ b, v = [b] := List.length_eq_one.1 hv
  refine ⟨⟨b, UInt64.fromBeBytes ⟨n, hn⟩, UInt32.fromBeBytes ⟨sc, hsc⟩, ⟨sa, hsa⟩,
    UInt32.fromBeBytes ⟨dc, hdc⟩, ⟨da, hda⟩, data⟩, ?_⟩
  simp [encodeMessage]

/-- On a buffer of at least 69 bytes `decode_message` returns the message the buffer encodes. -/
theorem decodeMessage_of_le {message : List UInt8} (h : 69 ≤ message.length) :
    ∃ m, decodeMessage message = some m ∧ encodeMessage m = message := by
  obtain ⟨m, rfl⟩ := exists_encodeMessage h
  exact ⟨m, decodeMessage_encode m, rfl⟩

theorem decodeMessage_eq_none_iff {message : List UInt8} :
    decodeMessage message = none ↔ message.length < 69 := by
  constructor
  · intro hn
    by_contra hlt
    obtain ⟨m, hm, -⟩ := decodeMessage_of_le (Nat.le_of_not_lt hlt)
    simp [hn] at hm
  · intro hlt
    have : readArray 32 message 37 = none := readArray_eq_none_iff.2 hlt
    simp [decodeMessage, this]

/-- `decode_message` inverts the wire layout: it decodes the encoding of every message to that
message, and the message it decodes from a buffer of at least 69 bytes encodes to the buffer. -/
theorem decodeMessage_roundTrip :
    (∀ m : Message, decodeMessage (encodeMessage m) = some m) ∧
    ∀ b : List UInt8, 69 ≤ b.length → (decodeMessage b).map encodeMessage = some b := by
  refine ⟨decodeMessage_encode, fun b hb => ?_⟩
  obtain ⟨m, hm, he⟩ := decodeMessage_of_le hb
  rw [hm, Option.map_some', he]

theorem decodeMessage_roundTrip_zeros :
    (decodeMessage (List.replicate 70 0)).map encodeMessage = some (List.replicate 70 0) :=
  decodeMessage_roundTrip.2 _ (by decide)

/-- The buffer of the source's `test_message_decoding`. -/
example : (decodeMessage [0x01, 0x00, 0x00, 0x00, 0x00, 0x00, 0x00, 0x00, 0x7b, 0x00, 0x00, 0x00,
    0x05, 0xe2, 0xb1, 0x98, 0x45, 0xfe, 0x2b, 0x7b, 0xb3, 0x53, 0xf3, 0x77, 0xd1, 0x2d, 0xd5, 0x1a,
    0xf0, 0x12, 0xfb, 0xba, 0x20, 0x00, 0x00, 0x00, 0x64, 0x00, 0x00, 0x00, 0x00, 0x00, 0x00, 0x00,
    0x00, 0x00, 0x00, 0x00, 0x00, 0x00, 0x00, 0x00, 0x00, 0x00, 0x00, 0x00, 0x00, 0x00, 0x00, 0x00,
    0x00, 0x00, 0x00, 0x00, 0x00, 0x00, 0xbc, 0x61, 0x4e, 0x67, 0x89]).map
      (fun m => (m.version, m.nonce, m.sourceChainId, m.destinationChainId, m.data)) =
    some (1, 123, 5, 100, [0x67, 0x89]) := by
  decide

end SuccinctBridge
