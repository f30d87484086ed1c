import ZktlsNet.Proxy.Shutdown
import ZktlsNet.Proxy.Answers
import ZktlsNet.Proxy.RecvLoop
import ZktlsNet.Proxy.AddrInfo
import ZktlsNet.Proxy.RecvStream
import ZktlsNet.Proxy.WaitBytes
import ZktlsNet.Io.Blocking
import ZktlsNet.Io.Loss
import ZktlsNet.Io.Refinement
import ZktlsNet.Ws.Replay
import ZktlsNet.Ws.Acceptance
import ZktlsNet.Ws.Waiting
import ZktlsNet.Ws.Progress
import ZktlsNet.Ws.SendFailure
import ZktlsNet.Ws.Unmask
import ZktlsNet.Ws.HeaderParsers
import ZktlsNet.Ws.HeaderSearch
import ZktlsNet.Ws.Request
import ZktlsNet.Ws.Channel
import ZktlsNet.Group.Agreement
import ZktlsNet.Ws.BufferedRead
import ZktlsNet.Ws.ChunkStore
import ZktlsNet.Ws.AcceptKey
import ZktlsNet.Ws.ExceptionText
import ZktlsNet.Group.PortRuns
import ZktlsNet.Group.SizeCodec
import ZktlsNet.Group.ExceptionRate
import ZktlsNet.Group.IoPtr
import ZktlsNet.Ws.Sha1
import ZktlsNet.Io.SessionProgress
import ZktlsNet.Group.ConnectProgress
import ZktlsNet.Proxy.RequestWire
import ZktlsNet.Proxy.Lookup
import ZktlsNet.Io.Descriptors
import ZktlsNet.Io.Script
