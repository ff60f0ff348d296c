import EpollHttpServer.Lib.HttpMessage
import EpollHttpServer.HttpParser
import EpollHttpServer.HeaderLines
import EpollHttpServer.LengthLines
import EpollHttpServer.Framing
import EpollHttpServer.HttpRequest
import EpollHttpServer.HttpResponse
import EpollHttpServer.WebRoot
import EpollHttpServer.Worker
import EpollHttpServer.Delimiting
import EpollHttpServer.HeadGet
import EpollHttpServer.Persistence
import EpollHttpServer.KeptAlive
import EpollHttpServer.Lib.Custody
import EpollHttpServer.Lib.Runs
import EpollHttpServer.Server
import EpollHttpServer.Ownership
import EpollHttpServer.LiveNotices
import EpollHttpServer.IdleTimeout
import EpollHttpServer.ConnectionLimit
import EpollHttpServer.ConnectionTable
import EpollHttpServer.OneShot
import EpollHttpServer.Lib.LinkedQueue
import EpollHttpServer.ThreadPool
import EpollHttpServer.Shutdown
import EpollHttpServer.TaskQueue
import EpollHttpServer.RequestLine
import EpollHttpServer.HeadEnd
import EpollHttpServer.LengthRange
import EpollHttpServer.ParserSafety
import EpollHttpServer.NamedFile
import EpollHttpServer.CleanReuse
import EpollHttpServer.Segmentation
import EpollHttpServer.HeaderOrder
import EpollHttpServer.PrintedHeaders
import EpollHttpServer.RequestBody
import EpollHttpServer.DirectoryIndex
import EpollHttpServer.SendLoop
import EpollHttpServer.BufferBounds
import EpollHttpServer.AcceptLoop
import EpollHttpServer.Options
import EpollHttpServer.MimeName
import EpollHttpServer.WakeUps
import EpollHttpServer.ReadBuffer
import EpollHttpServer.EdgeTriggered
import EpollHttpServer.Lib.Family
import EpollHttpServer.Sessions
import EpollHttpServer.ConnectionMemory
import EpollHttpServer.Draining
import EpollHttpServer.Eviction
import EpollHttpServer.PooledServer
import EpollHttpServer.ClientStream
import EpollHttpServer.Descriptors
import EpollHttpServer.Lifecycle
import EpollHttpServer.Clients
import EpollHttpServer.StartTime
