import MyFileServer.Lib.Execution
import MyFileServer.Lib.Delimiter
import MyFileServer.Lib.Window
import MyFileServer.Lib.TextLines
import MyFileServer.Net.BufferQueue
import MyFileServer.Net.TcpConnection
import MyFileServer.Net.OutputStream
import MyFileServer.Http.HttpContext
import MyFileServer.Http.ParseHead
import MyFileServer.Http.ParseBody
import MyFileServer.Http.FileServer
import MyFileServer.Http.RequestHead
import MyFileServer.Http.RoundTrip
import MyFileServer.Http.Grammar
import MyFileServer.Http.Chunking
import MyFileServer.Http.RequestIsolation
import MyFileServer.Http.ParserBounds
import MyFileServer.Http.BodyFraming
import MyFileServer.Http.Pipelining
import MyFileServer.Http.HttpResponse
import MyFileServer.Http.ResponseFormat
import MyFileServer.Net.EventLoop
import MyFileServer.Net.LoopWakeup
import MyFileServer.Net.LoopQuit
import MyFileServer.Lib.SortedSet
import MyFileServer.Timer.TimerQueue
import MyFileServer.Timer.TimerOperations
import MyFileServer.Timer.TimerArming
import MyFileServer.Timer.TimerRuns
import MyFileServer.Base.Strings
import MyFileServer.Http.Environment
import MyFileServer.Http.FileListing
import MyFileServer.Http.Handler
import MyFileServer.Http.HandlerCalls
import MyFileServer.Http.FileEffects
import MyFileServer.Http.PathCalls
import MyFileServer.Http.PathConfinement
import MyFileServer.Base.Decimal
import MyFileServer.Http.SelfDelimiting
import MyFileServer.Http.UploadContent
import MyFileServer.Net.EPollPoller
import MyFileServer.Mysql.ConnectionPool
import MyFileServer.Mysql.PoolOwnership
import MyFileServer.Mysql.PoolAccounting
import MyFileServer.Http.UserAccounts
import MyFileServer.Http.AccountForm
import MyFileServer.Http.FixedArrays
import MyFileServer.Http.ListingPage
import MyFileServer.Http.RangeResponses
import MyFileServer.Http.HandlerReturns
import MyFileServer.Logger.AsyncLogging
import MyFileServer.Logger.LogBytes
import MyFileServer.Logger.LogStop
import MyFileServer.Lib.LinkedList
import MyFileServer.Memory.MemoryPool
import MyFileServer.Memory.PoolLists
import MyFileServer.Memory.PoolInvariant
import MyFileServer.Memory.PoolSoundness
import MyFileServer.Memory.PoolRefinement
import MyFileServer.Memory.PoolFrees
import MyFileServer.Memory.PoolSafety
import MyFileServer.Memory.PoolContents
import MyFileServer.Net.TcpServer
import MyFileServer.Net.ConnectionLifecycle
import MyFileServer.Http.DescriptorLedger
import MyFileServer.Http.HeaderNames
import MyFileServer.Lib.SqlText
import MyFileServer.Http.RegistrationSql
import MyFileServer.Base.ThreadPool
import MyFileServer.Base.ThreadPoolDrain
import MyFileServer.Lib.UriReference
import MyFileServer.Http.ListingLinks
import MyFileServer.Memory.PoolDestroy
import MyFileServer.Logger.LogStream
import MyFileServer.Logger.LogTime
import MyFileServer.Logger.LogRecord
import MyFileServer.Logger.FileUtil
import MyFileServer.Logger.LogFile
import MyFileServer.Mysql.IdleOrder
import MyFileServer.Lib.Loop
import MyFileServer.Http.ParserTermination
import MyFileServer.Net.EventLoopThread
import MyFileServer.Net.LoopThreads
import MyFileServer.Net.LoopThreadStart
import MyFileServer.Net.LoopThreadJoin
import MyFileServer.Lib.RoundRobin
import MyFileServer.Net.LoopTurns
import MyFileServer.Net.ConnectionRegistry
import MyFileServer.Net.PollEvents
import MyFileServer.Http.HeaderLines
import MyFileServer.Lib.Frames
import MyFileServer.Http.Conversation
import MyFileServer.Http.ConversationReplies
import MyFileServer.Http.ClientInStep
import MyFileServer.Http.FileStore
import MyFileServer.Net.WaterMarks
import MyFileServer.Http.HttpServer
import MyFileServer.Lib.LexOrder
import MyFileServer.Lib.Listing
import MyFileServer.Logger.LogDirectory
import MyFileServer.Http.AccountRegistry
import MyFileServer.Lib.PartialIndex
import MyFileServer.Net.ServerPollers
import MyFileServer.Net.Descriptors
import MyFileServer.Logger.LogPipeline
import MyFileServer.Http.RangeDownload
import MyFileServer.Http.ParserFrame
import MyFileServer.Http.UserDatabase
