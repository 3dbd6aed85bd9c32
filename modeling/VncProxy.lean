import VncProxy.Lib.Bytes
import VncProxy.Lib.CString
import VncProxy.Lib.Crc
import VncProxy.Lib.DeferredClose
import VncProxy.Lib.Framing
import VncProxy.Lib.Keyed
import VncProxy.Lib.Lanes
import VncProxy.Lib.Locks
import VncProxy.Lib.Memory
import VncProxy.Lib.Mutex
import VncProxy.Lib.OrdMap
import VncProxy.Lib.Progress
import VncProxy.Lib.Run
import VncProxy.Lib.Threads
import VncProxy.Lib.While
import VncProxy.Lib.Workers
import VncProxy.Wire.Calls
import VncProxy.Wire.Command
import VncProxy.Wire.FailStop
import VncProxy.Wire.ParseData
import VncProxy.Wire.Pool
import VncProxy.Wire.Reassembly
import VncProxy.Wire.RecvCommand
import VncProxy.Wire.RecvPrefix
import VncProxy.Wire.Rounds
import VncProxy.Wire.SendCommand
import VncProxy.Wire.Sender
import VncProxy.Wire.Told
import VncProxy.Tcp.Bounds
import VncProxy.Tcp.Calls
import VncProxy.Tcp.Close
import VncProxy.Tcp.Closed
import VncProxy.Tcp.Drain
import VncProxy.Tcp.Frame
import VncProxy.Tcp.Handled
import VncProxy.Tcp.Pending
import VncProxy.Tcp.Places
import VncProxy.Tcp.Process
import VncProxy.Tcp.Receive
import VncProxy.Tcp.Received
import VncProxy.Tcp.Refine
import VncProxy.Tcp.Rest
import VncProxy.Tcp.Sent
import VncProxy.Tcp.Serial
import VncProxy.Tcp.Server
import VncProxy.Tcp.Stream
import VncProxy.Tcp.Table
import VncProxy.Http.Accept
import VncProxy.Http.Arrays
import VncProxy.Http.Chunks
import VncProxy.Http.DataHttpParser
import VncProxy.Http.Facts
import VncProxy.Http.Headers
import VncProxy.Http.HttpRequest
import VncProxy.Http.Issue
import VncProxy.Http.Receive
import VncProxy.Http.Request
import VncProxy.Http.Respond
import VncProxy.Http.Responded
import VncProxy.Http.RoundTrip
import VncProxy.Http.Stored
import VncProxy.Http.Upload
import VncProxy.Http.Url
import VncProxy.Common.Base64
import VncProxy.Common.ConfFile
import VncProxy.Common.ConfSaved
import VncProxy.Common.ConfSpaces
import VncProxy.Common.Crc32
import VncProxy.Common.LogCalls
import VncProxy.Common.LogFile
import VncProxy.Common.LogLength
import VncProxy.Common.LogManager
import VncProxy.Common.LogRecords
import VncProxy.Common.StringHandle
import VncProxy.Common.Tea
import VncProxy.Common.UrlCodec
import VncProxy.Proxy.Answer
import VncProxy.Proxy.Decode
import VncProxy.Proxy.Delivered
import VncProxy.Proxy.Deref
import VncProxy.Proxy.Disconnect
import VncProxy.Proxy.Forward
import VncProxy.Proxy.Forwarded
import VncProxy.Proxy.Front
import VncProxy.Proxy.Gap
import VncProxy.Proxy.Link
import VncProxy.Proxy.Locks
import VncProxy.Proxy.Lookup
import VncProxy.Proxy.Net
import VncProxy.Proxy.Once
import VncProxy.Proxy.Order
import VncProxy.Proxy.Ownership
import VncProxy.Proxy.Parser
import VncProxy.Proxy.Peer
import VncProxy.Proxy.Relay
import VncProxy.Proxy.Reply
import VncProxy.Proxy.Return
import VncProxy.Proxy.Returned
import VncProxy.Proxy.Second
import VncProxy.Proxy.Served
import VncProxy.Proxy.Serving
import VncProxy.Proxy.Sessions
import VncProxy.Proxy.Settled
import VncProxy.Proxy.System
import VncProxy.Proxy.Tunnel
import VncProxy.Proxy.Ways
