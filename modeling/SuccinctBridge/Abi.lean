import SuccinctBridge.U256

/-!
# The ABI payload of a message (`decode_message_data`)

A message's payload is the Ethereum ABI encoding of a static `(bytes32, uint256, address)` tuple:
three 32-byte words. `decode_message_data` hands it to `ethabi::decode` and keeps the first two
tokens, the recipient and the amount; the address is decoded and dropped.

`ethabi::decode` is modelled for the static parameter types it is called with here, without
validation (`decode`, not `decode_validate`): an empty buffer is refused when no type admits the
empty encoding, and each parameter reads one word at an offset that advances by 32. A fixed
`bytesN` keeps the word's first `N` bytes, a `uint` reads the word big-endian and an `address`
keeps its last 20 bytes without checking the 12 bytes before them.
-/

namespace SuccinctBridge

/-- `ethabi::ParamType`, for the static types the source decodes. -/
inductive ParamType
  | address
  | uint (bits : Nat)
  | fixedBytes (len : Nat)
deriving DecidableEq, Repr

/-- `ethabi::Token`, for those types. -/
inductive Token
  | address (a : H160)
  | uint (x : U256)
  | fixedBytes (bytes : List UInt8)
deriving DecidableEq, Repr

/-- `ethabi::Error`, as the non-validating decoder raises it. -/
inductive AbiError
  | invalidName
  | invalidData
deriving DecidableEq, Repr

namespace ParamType

/-- `ParamType::is_empty_bytes_valid_encoding`. -/
def isEmptyBytesValidEncoding : ParamType → Bool
  | .fixedBytes len => len == 0
  | _ => false

end ParamType

namespace Token

/-- `Token::into_fixed_bytes`. -/
def intoFixedBytes : Token → Option (List UInt8)
  | .fixedBytes bytes => some bytes
  | _ => none

/-- `Token::into_uint`. -/
def intoUint : Token → Option U256
  | .uint x => some x
  | _ => none

end Token

/-- `peek`: the `len` bytes at `offset`, `InvalidData` past the end. -/
def peek (data : List UInt8) (offset len : Nat) : Except AbiError (List UInt8) :=
  if offset + len > data.length then .error .invalidData else .ok ((data.drop offset).take len)

/-- The 32-byte word at `offset` of a buffer that holds it. -/
def wordAt (data : List UInt8) (offset : Nat) (h : offset + 32 ≤ data.length) : FixedBytes 32 :=
  ⟨(data.drop offset).take 32, by rw [List.length_take, List.length_drop]; omega⟩

@[simp] theorem wordAt_bytes (data : List UInt8) (offset : Nat) (h : offset + 32 ≤ data.length) :
    (wordAt data offset h).bytes = (data.drop offset).take 32 := rfl

/-- `Address::from_slice(&slice[12..])`: the last 20 bytes of a word. -/
def H160.ofWord (w : FixedBytes 32) : H160 :=
  ⟨w.bytes.drop 12, by rw [List.length_drop, w.length_bytes]⟩

/-- `peek_32_bytes`: the word at `offset`. -/
def peek32Bytes (data : List UInt8) (offset : Nat) : Except AbiError (FixedBytes 32) :=
  if h : offset + 32 > data.length then .error .invalidData
  else .ok (wordAt data offset (Nat.le_of_not_lt h))

/-- `decode_param` without validation: the token of `param` at `offset`, and the next offset. -/
def decodeParam (param : ParamType) (data : List UInt8) (offset : Nat) :
    Except AbiError (Token × Nat) :=
  match param with
  | .address => do
    let slice ← peek32Bytes data offset
    pure (.address (H160.ofWord slice), offset + 32)
  | .uint _ => do
    let slice ← peek32Bytes data offset
    pure (.uint (U256.fromWord slice), offset + 32)
  | .fixedBytes len => do
    let bytes ← peek data offset len
    pure (.fixedBytes bytes, offset + 32)

/-- `ethabi::decode`. -/
def decode (types : List ParamType) (data : List UInt8) : Except AbiError (List Token) := do
  if !types.all ParamType.isEmptyBytesValidEncoding && data.isEmpty then throw .invalidName
  let (tokens, _) ← types.foldlM (fun (tokens, offset) param => do
      let (token, newOffset) ← decodeParam param data offset
      pure (tokens ++ [token], newOffset)) ([], 0)
  pure tokens

/-- `AMBError`. -/
inductive AMBError
  | cannotDecodeMessageData
deriving DecidableEq, Repr

/-- `MessageData`. -/
structure MessageData where
  recipientAddress : H256
  amount : U256
deriving DecidableEq, Repr

/-- `decode_message_data`; `U256::from(amount)` is the identity. -/
def decodeMessageData (message : List UInt8) : ExceptT AMBError Option MessageData := do
  let decoded ← mapErr (decode [.fixedBytes 32, .uint 256, .address] message)
    AMBError.cannotDecodeMessageData
  let receipientToken ← okOrElse decoded[0]? AMBError.cannotDecodeMessageData
  let receipientAddress ← okOrElse receipientToken.intoFixedBytes AMBError.cannotDecodeMessageData
  let amountToken ← okOrElse decoded[1]? AMBError.cannotDecodeMessageData
  let amount ← okOrElse amountToken.intoUint AMBError.cannotDecodeMessageData
  let recipientAddress ← ExceptT.lift (H256.fromSlice receipientAddress)
  pure { recipientAddress, amount }

/-- `ethabi::decode` of the payload types: three words from a buffer of at least 96 bytes,
`InvalidName` on the empty buffer and `InvalidData` on any other shorter one. -/
theorem decode_messageDataTypes (data : List UInt8) :
    decode [.fixedBytes 32, .uint 256, .address] data =
      if h : 96 ≤ data.length then
        .ok [.fixedBytes (data.take 32), .uint (U256.fromWord (wordAt data 32 (by omega))),
          .address (H160.ofWord (wordAt data 64 (by omega)))]
      else .error (if data = [] then .invalidName else .invalidData) := by
  by_cases h0 : data = []
  · subst h0; rfl
  · simp [decode, List.foldlM, decodeParam, peek, peek32Bytes, h0]
    split_ifs <;> first | omega | rfl

/-- `decode_message_data` never panics: it returns the first word as the recipient and the
second, read big-endian, as the amount when the payload has three words, and
`CannotDecodeMessageData` otherwise. -/
theorem decodeMessageData_run (data : List UInt8) :
    (decodeMessageData data).run =
      if h : 96 ≤ data.length then
        some (.ok ⟨wordAt data 0 (by omega), U256.fromWord (wordAt data 32 (by omega))⟩)
      else some (.error .cannotDecodeMessageData) := by
  rw [decodeMessageData, decode_messageDataTypes]
  by_cases h : 96 ≤ data.length
  · simp [dif_pos h, ExceptT.run_bind, ExceptT.run_lift, Token.intoFixedBytes, Token.intoUint,
      H256.fromSlice, FixedBytes.copyFromSlice, Except.map, FixedBytes.ext_iff]
    omega
  · simp only [dif_neg h]
    split <;> rfl

/-- The payload `r ++ BE32(a) ++ 0^12 ++ x ++ t` decodes to the recipient `r` and the amount `a`. -/
theorem decodeMessageData_encode (r : H256) (a : U256) (x : H160) (t : List UInt8) :
    (decodeMessageData (r.bytes ++ a.toBigEndian ++ List.replicate 12 0 ++ x.bytes ++ t)).run =
      some (.ok ⟨r, a⟩) := by
  have ha := U256.length_toBigEndian a
  rw [decodeMessageData_run, dif_pos (by simp [ha]; omega)]
  congr
  · ext1; simp [List.take_append_eq_append_take]
  · have hw : wordAt (r.bytes ++ a.toBigEndian ++ List.replicate 12 0 ++ x.bytes ++ t) 32
        (by simp [ha]; omega) = ⟨a.toBigEndian, ha⟩ := by
      ext1
      simp [List.drop_append_eq_append_drop, List.take_append_eq_append_take, ha,
        List.take_of_length_le]
    rw [hw]
    exact U256.fromWord_toBigEndian a

/-- `decode_message_data` undoes the ABI encoding of `(bytes32, uint256, address)` followed by
any bytes, and refuses every payload shorter than three words with `CannotDecodeMessageData`. -/
theorem decodeMessageData_abi :
    (∀ (r : H256) (a : U256) (x : H160) (t : List UInt8),
      (decodeMessageData (r.bytes ++ a.toBigEndian ++ List.replicate 12 0 ++ x.bytes ++ t)).run =
        some (.ok ⟨r, a⟩)) ∧
    ∀ payload : List UInt8, payload.length < 96 →
      (decodeMessageData payload).run = some (.error .cannotDecodeMessageData) :=
  ⟨decodeMessageData_encode, fun payload h => by rw [decodeMessageData_run, dif_neg (by omega)]⟩

theorem decodeMessageData_abi_short :
    (decodeMessageData (List.replicate 95 0)).run = some (.error .cannotDecodeMessageData) :=
  decodeMessageData_abi.2 _ (by decide)

end SuccinctBridge
