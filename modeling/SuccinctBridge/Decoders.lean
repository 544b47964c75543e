import SuccinctBridge.Message
import SuccinctBridge.OutputDecoder
import SuccinctBridge.Abi

/-!
# Which relayer buffers the decoders accept

Every buffer the pallet decodes comes from a relayer. `decode_message`, `parse_step_output` and
`parse_rotate_output` have no error type: each returns a value on the buffers of its layout's
length (at most 32 bytes for `parse_rotate_output`) and panics on every other buffer, at the first
slice past the end or at the length assertion of `U256::from_big_endian`. `decode_message_data`,
which goes through `ethabi`, never panics.
-/

namespace SuccinctBridge

/-- Each fixed-layout decoder returns a value exactly on the buffers its layout fits and panics on
every other buffer. -/
theorem decoders_isSome_iff (b : List UInt8) :
    ((decodeMessage b).isSome ↔ 69 ≤ b.length) ∧ ((parseStepOutput b).isSome ↔ 74 ≤ b.length) ∧
      ((parseRotateOutput b).isSome ↔ b.length ≤ 32) := by
  simp only [Option.isSome_iff_ne_none, ne_eq, decodeMessage_eq_none_iff,
    parseStepOutput_eq_none_iff, parseRotateOutput_eq_none_iff, not_lt, and_self]

/-- A 68-byte message, a 73-byte step output and a 33-byte rotate output make the decoders panic:
none of them has an error to return. -/
theorem decoders_panic_short :
    decodeMessage (List.replicate 68 0) = none ∧ parseStepOutput (List.replicate 73 0) = none ∧
      parseRotateOutput (List.replicate 33 0) = none :=
  ⟨decodeMessage_eq_none_iff.2 (by decide), parseStepOutput_eq_none_iff.2 (by decide),
    parseRotateOutput_eq_none_iff.2 (by decide)⟩

/-- `decode_message_data` never panics, and succeeds exactly on the payloads of three words. -/
theorem decodeMessageData_total (b : List UInt8) :
    ∃ r, (decodeMessageData b).run = some r ∧ (r.toBool = true ↔ 96 ≤ b.length) := by
  rw [decodeMessageData_run]
  split_ifs with h
  · exact ⟨_, rfl, by simp [Except.toBool, h]⟩
  · exact ⟨_, rfl, by simp [Except.toBool, h]⟩

end SuccinctBridge
