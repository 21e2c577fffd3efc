import DxApi.Lib.ByteMemory
import DxApi.Lib.Exec
import DxApi.Reader.Buffer
import DxApi.Reader.ChunkHeader
import DxApi.Reader.Chunked
import DxApi.Reader.DataReader
import DxApi.Reader.Dechunk
import DxApi.Reader.Message
import DxApi.Lib.ByteOrder
import DxApi.Writer.DataWriter
import DxApi.Writer.Container
import DxApi.Loader.TickLoader
import DxApi.Loader.Invariants
import DxApi.Loader.Twins
import DxApi.Loader.Upload
import DxApi.Loader.MessageBody
import DxApi.Loader.Refinement
import DxApi.Loader.Moves
import DxApi.Loader.Calls
import DxApi.Loader.Numbering
import DxApi.Loader.Finish
import DxApi.Loader.Discard
import DxApi.Writer.Fields
import DxApi.Writer.ExactDivision
import DxApi.Writer.FailedWrites
import DxApi.Loader.FailedFields
import DxApi.Lib.Brackets
import DxApi.Writer.Nesting
import DxApi.Writer.Patches
import DxApi.Loader.Draft
import DxApi.Loader.Expansion
import DxApi.Loader.Fitting
import DxApi.Net.Handshake
import DxApi.Session.SessionHandler
import DxApi.Loader.Output
import DxApi.Net.Request
import DxApi.Net.Delivery
import DxApi.Loader.Ending
import DxApi.Cursor.DynamicLut
import DxApi.Cursor.SymbolTranslator
import DxApi.Lib.CopyOnWrite
import DxApi.Cursor.TickCursor
import DxApi.Cursor.Commands
import DxApi.Cursor.Filter
import DxApi.Cursor.FailedChange
import DxApi.Reader.Loads
import DxApi.Cursor.Reading
import DxApi.Cursor.Records
import DxApi.Reader.Frame
import DxApi.Cursor.Availability
import DxApi.Cursor.TypeChains
import DxApi.Cursor.StreamTable
import DxApi.Cursor.ServerStream
import DxApi.Cursor.MixedCalls
import DxApi.Session.StreamLock
import DxApi.Net.InputStreamPreloader
import DxApi.Reader.Times
import DxApi.Session.StreamCache
import DxApi.Session.Requests
import DxApi.Lib.Runs
import DxApi.Session.Synchronous
import DxApi.Session.LoaderManager
import DxApi.Session.BlockedThreads
import DxApi.Reader.Fields
import DxApi.Reader.Trips
import DxApi.Reader.Packed
import DxApi.Reader.Nanos
import DxApi.Reader.Decimals
import DxApi.Reader.Alphanumeric
import DxApi.Lib.Unicode
import DxApi.Reader.WideStrings
import DxApi.Reader.AlphanumericStrings
import DxApi.Reader.Containers
import DxApi.Reader.Counts
import DxApi.Reader.Skips
import DxApi.Reader.Nested
import DxApi.Reader.Omitted
import DxApi.Reader.Waiting
import DxApi.Net.ResponseHeader
import DxApi.Lib.Search
import DxApi.Net.TransferForm
import DxApi.Net.Receiving
import DxApi.Net.ResponseBody
import DxApi.Reader.Overloads
import DxApi.Reader.SpareLengths
import DxApi.Cursor.EntityIds
import DxApi.Lib.CString
import DxApi.Xml.Escaping
import DxApi.Platform.Split
import DxApi.Net.Base64
import DxApi.Platform.ReplaceAll
import DxApi.Cursor.LutStorage
import DxApi.Lib.PartialBijection
import DxApi.Cursor.BidirectionalLut
import DxApi.Session.StreamDisposal
import DxApi.Net.Uri
import DxApi.Net.Address
import DxApi.Lib.Selection
import DxApi.Xml.ClassDescriptor
import DxApi.Lib.Assertions
import DxApi.Reader.Checked
import DxApi.Reader.CheckedChunks
import DxApi.Reader.Assertions
import DxApi.Reader.RoundTrip
import DxApi.Lib.Serialized
import DxApi.Platform.CriticalSection
import DxApi.Session.Interleaved
import DxApi.Xml.StrPair
import DxApi.Xml.TinyXml
import DxApi.Xml.NodeText
import DxApi.Xml.Output
import DxApi.Xml.Numbers
import DxApi.Xml.Documents
import DxApi.Xml.StreamOptions
import DxApi.Xml.Requests
import DxApi.Lib.Decoding
import DxApi.Xml.LoadStreams
import DxApi.Session.Input
import DxApi.Session.ServerMessages
import DxApi.Session.InputRuns
import DxApi.Reader.Streaming
import DxApi.Net.ErrorPages
import DxApi.Net.ResponseStream
import DxApi.Net.Execution
import DxApi.Net.Answers
