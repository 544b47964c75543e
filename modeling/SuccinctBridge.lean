import SuccinctBridge.Bytes
import SuccinctBridge.U256
import SuccinctBridge.OutputDecoder
import SuccinctBridge.Message
import SuccinctBridge.Abi
import SuccinctBridge.Decoders
import SuccinctBridge.Rlp
import SuccinctBridge.StorageProof
import SuccinctBridge.FieldCodec
import SuccinctBridge.Mpt
import SuccinctBridge.NodeCodec
import SuccinctBridge.TrieLookup
import SuccinctBridge.StorageRead
