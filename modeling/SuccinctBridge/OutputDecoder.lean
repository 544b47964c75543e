import SuccinctBridge.U256

/-!
# Verified-output decoder (`state.rs`)

`parse_step_output` cuts the first 74 bytes of a verifier output into a finalized header root,
an execution state root, a big-endian `u64` slot and a big-endian `u16` participation count;
`parse_rotate_output` reads the whole output as a big-endian `U256`. Neither checks the length:
the step parser panics on an output shorter than 74 bytes and `from_big_endian` on one longer
than 32.

`encodeStepOutput` is the step-output layout of the spec. The parser reads back every encoding
followed by any bytes (`parseStepOutput_encode`), and since every 74 bytes are an encoding it
returns, on every output of at least 74 bytes, the step output whose encoding is their first 74
bytes (`parseStepOutput_of_le`); the round trip in both directions follows.
-/

namespace SuccinctBridge

/-- `VerifiedStepOutput`. -/
structure VerifiedStepOutput where
  finalizedHeaderRoot : H256
  executionStateRoot : H256
  finalizedSlot : UInt64
  participation : UInt16
deriving DecidableEq, Repr

/-- `parse_step_output`. -/
def parseStepOutput (output : List UInt8) : Option VerifiedStepOutput := do
  let finalizedHeaderRoot ← readArray 32 output 0
  let executionStateRoot ← readArray 32 output 32
  let finalizedSlot ← readArray 8 output 64
  let participation ← readArray 2 output 72
  pure { finalizedHeaderRoot, executionStateRoot,
         finalizedSlot := UInt64.fromBeBytes finalizedSlot,
         participation := UInt16.fromBeBytes participation }

/-- `parse_rotate_output`. -/
def parseRotateOutput (output : List UInt8) : Option U256 := U256.fromBigEndian output

/-- The step-output layout: both roots, then the slot and the participation big-endian. -/
def encodeStepOutput (o : VerifiedStepOutput) : List UInt8 :=
  o.finalizedHeaderRoot.bytes ++ o.executionStateRoot.bytes ++
    (UInt64.toBeBytes o.finalizedSlot).bytes ++ (UInt16.toBeBytes o.participation).bytes

@[simp] theorem length_encodeStepOutput (o : VerifiedStepOutput) : (encodeStepOutput o).length = 74 := by
  simp [encodeStepOutput]

theorem parseStepOutput_encode (o : VerifiedStepOutput) (t : List UInt8) :
    parseStepOutput (encodeStepOutput o ++ t) = some o := by
  simp (disch := simp) only [parseStepOutput, encodeStepOutput, readArray_append_left,
    readArray_append_fixed, readArray_fixed]
  simp

/-- Every 74-byte buffer is the encoding of a step output. -/
theorem exists_encodeStepOutput {bs : List UInt8} (h : bs.length = 74) :
    ∃ o, encodeStepOutput o = bs := by
  obtain ⟨r₁, bs, h₁, h', rfl⟩ := exists_append_of_length _ 32 42 h
  obtain ⟨r₂, bs, h₂, h'', rfl⟩ := exists_append_of_length _ 32 10 h'
  obtain ⟨s, p, h₃, h₄, rfl⟩ := exists_append_of_length _ 8 2 h''
  exact ⟨⟨⟨r₁, h₁⟩, ⟨r₂, h₂⟩, UInt64.fromBeBytes ⟨s, h₃⟩, UInt16.fromBeBytes ⟨p, h₄⟩⟩,
    by simp [encodeStepOutput]⟩

/-- On an output of at least 74 bytes the parser returns the step output laid out in its first
74 bytes. -/
theorem parseStepOutput_of_le {output : List UInt8} (h : 74 ≤ output.length) :
    ∃ o, parseStepOutput output = some o ∧ encodeStepOutput o = output.take 74 := by
  obtain ⟨o, ho⟩ := exists_encodeStepOutput (by simp [h] : (output.take 74).length = 74)
  refine ⟨o, ?_, ho⟩
  rw [← List.take_append_drop 74 output, ← ho, parseStepOutput_encode]

theorem parseStepOutput_eq_none_iff {output : List UInt8} :
    parseStepOutput output = none ↔ output.length < 74 := by
  constructor
  · intro hn
    by_contra hlt
    obtain ⟨o, ho, -⟩ := parseStepOutput_of_le (Nat.le_of_not_lt hlt)
    simp [hn] at ho
  · intro hlt
    have : readArray 2 output 72 = none := readArray_eq_none_iff.2 hlt
    simp [parseStepOutput, this]

/-- `parse_step_output` inverts the step-output layout: it reads back every step output followed
by any bytes, and re-encoding what it reads from a buffer of at least 74 bytes gives the buffer's
first 74 bytes. -/
theorem parseStepOutput_roundTrip :
    (∀ (o : VerifiedStepOutput) (t : List UInt8), parseStepOutput (encodeStepOutput o ++ t) = some o) ∧
    ∀ b : List UInt8, 74 ≤ b.length →
      (parseStepOutput b).map encodeStepOutput = some (b.take 74) := by
  refine ⟨parseStepOutput_encode, fun b hb => ?_⟩
  obtain ⟨o, ho, he⟩ := parseStepOutput_of_le hb
  rw [ho, Option.map_some', he]

theorem parseStepOutput_roundTrip_zeros :
    (parseStepOutput (List.replicate 80 0)).map encodeStepOutput =
      some ((List.replicate 80 0).take 74) :=
  parseStepOutput_roundTrip.2 _ (by decide)

/-- The buffer of the source's `test`. -/
example : (parseStepOutput [
    0xe4, 0x56, 0x6e, 0x0c, 0xf4, 0xed, 0xb1, 0x71, 0xa3, 0xee, 0xdd, 0x59,
    0xf9, 0x94, 0x3b, 0xbc, 0xd0, 0xb1, 0xf6, 0xb6, 0x48, 0xf1, 0xa6, 0xe2,
    0x6d, 0x52, 0x64, 0xb6, 0x68, 0xab, 0x41, 0xec, 0x51, 0xe7, 0x66, 0x29,
    0xb3, 0x2b, 0x94, 0x34, 0x97, 0x20, 0x7e, 0x7b, 0x7c, 0xcf, 0xf8, 0xfb,
    0xc1, 0x2e, 0x9e, 0x6d, 0x75, 0x8c, 0xc7, 0xee, 0xd9, 0x72, 0x42, 0x2c,
    0x4c, 0xad, 0x02, 0xb9, 0x00, 0x00, 0x00, 0x00, 0x00, 0x74, 0x7f, 0xa0,
    0x01, 0xfd]).map (fun o => (o.finalizedSlot, o.participation)) = some (7634848, 509) := by
  decide

theorem parseRotateOutput_eq_none_iff {output : List UInt8} :
    parseRotateOutput output = none ↔ 32 < output.length :=
  U256.fromBigEndian_eq_none_iff

/-- `parse_rotate_output` reads a buffer of at most 32 bytes as the positional sum of its bytes,
and reads the big-endian form of every `U256` back to it. -/
theorem parseRotateOutput_eq_beValue :
    (∀ b : List UInt8, b.length ≤ 32 → parseRotateOutput b =
      some (U256.ofNat (∑ i ∈ Finset.range b.length, (b.getD i 0).toNat * 256 ^ (b.length - 1 - i)))) ∧
    ∀ x : U256, parseRotateOutput x.toBigEndian = some x := by
  refine ⟨fun b hb => ?_, U256.fromBigEndian_toBigEndian⟩
  obtain ⟨x, hx, hv⟩ := U256.toNat_fromBigEndian hb
  have hlt : beValue b < 2 ^ 256 :=
    (beValue_lt b).trans_le ((Nat.pow_le_pow_right (by decide) hb).trans (by decide))
  rw [parseRotateOutput, hx, ← beValue_eq_sum]
  exact congrArg some (U256.toNat_injective (by rw [hv, U256.toNat_ofNat hlt]))

theorem parseRotateOutput_eq_beValue_two_bytes :
    parseRotateOutput [1, 2] =
      some (U256.ofNat (∑ i ∈ Finset.range 2, (([1, 2] : List UInt8).getD i 0).toNat * 256 ^ (2 - 1 - i))) :=
  parseRotateOutput_eq_beValue.1 [1, 2] (by decide)

end SuccinctBridge
