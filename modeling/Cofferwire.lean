import Cofferwire.Library.BigEndian
import Cofferwire.Library.Except
import Cofferwire.Library.Machine
import Cofferwire.Library.Log
import Cofferwire.Library.Semaphore
import Cofferwire.Library.Program
import Cofferwire.Library.Reader
import Cofferwire.Library.Checked
import Cofferwire.Library.Table
import Cofferwire.Types.Basic
import Cofferwire.Types.Queue
import Cofferwire.Types.Blob
import Cofferwire.Codec.Cbor
import Cofferwire.Codec.Frame
import Cofferwire.Codec.Queue
import Cofferwire.Codec.Blob
import Cofferwire.Codec.Theorems.Cbor
import Cofferwire.Codec.Theorems.Frame
import Cofferwire.Codec.Theorems.Queue
import Cofferwire.Codec.Theorems.Blob
import Cofferwire.Codec.Theorems.Errors
import Cofferwire.Crypto.Request
import Cofferwire.Crypto.Message
import Cofferwire.Crypto.Receipt
import Cofferwire.Crypto.Blob
import Cofferwire.Service.RateLimit
import Cofferwire.Toy
import Cofferwire.Relay.Basic
import Cofferwire.Relay.History
import Cofferwire.Relay.Durable
import Cofferwire.Relay.DurableBlob
import Cofferwire.Relay.Replay
import Cofferwire.Relay.Exchange
import Cofferwire.Relay.Theorems.History
import Cofferwire.Relay.Theorems.Authorization
import Cofferwire.Relay.Theorems.Durable
import Cofferwire.Relay.Theorems.QueueAccess
import Cofferwire.Relay.Theorems.Invariant
import Cofferwire.Relay.Theorems.Refinement
import Cofferwire.Relay.Theorems.Interference
import Cofferwire.Relay.Theorems.DurableBlob
import Cofferwire.Relay.Theorems.BlobAccess
import Cofferwire.Relay.Theorems.BlobLeases
import Cofferwire.Relay.Theorems.BlobDeletion
import Cofferwire.Relay.Theorems.Replay
import Cofferwire.Relay.Theorems.Exchange
import Cofferwire.Relay.Theorems.Constraints
import Cofferwire.Relay.Theorems.BlobUpload
import Cofferwire.Relay.Theorems.BlobProgress
import Cofferwire.Crypto.Theorems.Blob
import Cofferwire.Crypto.Theorems.Padding
import Cofferwire.Crypto.Theorems.Purpose
import Cofferwire.Service.Exchange
import Cofferwire.Service.History
import Cofferwire.Service.Theorems.RateLimit
import Cofferwire.Service.Theorems.Exchange
import Cofferwire.Service.Theorems.Execution
import Cofferwire.Service.Theorems.History
import Cofferwire.Service.Theorems.Interference
import Cofferwire.Service.Theorems.Release
import Cofferwire.Service.Theorems.Reuse
import Cofferwire.Service.Theorems.Authorization
import Cofferwire.Service.Theorems.Status
import Cofferwire.Service.Theorems.Correlation
import Cofferwire.Service.Theorems.BlobExecution
import Cofferwire.Service.Daemon
import Cofferwire.Service.Theorems.Permits
import Cofferwire.Service.Theorems.Linearization
import Cofferwire.Client.Basic
import Cofferwire.Client.Delivery
import Cofferwire.Client.Theorems.Poll
import Cofferwire.Client.Theorems.Delivery
import Cofferwire.Client.Theorems.Order
import Cofferwire.Client.Blob
import Cofferwire.Client.Upload
import Cofferwire.Client.Theorems.Snapshot
import Cofferwire.Client.Theorems.Download
import Cofferwire.Client.Theorems.Upload
import Cofferwire.Client.Theorems.Restore
import Cofferwire.Client.Session
import Cofferwire.Client.Theorems.Session
import Cofferwire.Client.Theorems.Availability
import Cofferwire.Client.Theorems.Progress
import Cofferwire.Client.Receipt
import Cofferwire.Client.Theorems.Receipt
import Cofferwire.Client.Theorems.Prepared
import Cofferwire.Client.Theorems.Frames
import Cofferwire.Client.Offline
import Cofferwire.Client.Theorems.Offline
import Cofferwire.Codec.Theorems.PrefixFree
import Cofferwire.Strict.Codec
import Cofferwire.Strict.Decoder
import Cofferwire.Strict.Exchange
import Cofferwire.Strict.Theorems.Codec
import Cofferwire.Crypto.Theorems.Manifest
import Cofferwire.Strict.Theorems.Decoder
import Cofferwire.Strict.Theorems.Exchange
import Cofferwire.Python.Cbor
import Cofferwire.Python.Codec
import Cofferwire.Python.Relay
import Cofferwire.Python.Theorems.Cbor
import Cofferwire.Python.Theorems.Codec
import Cofferwire.Python.Theorems.Stack
import Cofferwire.Python.Theorems.Response
import Cofferwire.Python.Theorems.Relay
import Cofferwire.Python.Theorems.Reference
import Cofferwire.Python.Theorems.Agreement
