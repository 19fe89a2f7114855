import Muduo.Base.AsyncLogging
import Muduo.Base.CountDownLatch
import Muduo.Base.Fault
import Muduo.Base.LogFile
import Muduo.Base.LogFileArchive
import Muduo.Base.LogFileLife
import Muduo.Base.LogFileNames
import Muduo.Base.LogFileRolling
import Muduo.Base.LogFileWriting
import Muduo.Base.LogRecord
import Muduo.Base.LogStream
import Muduo.Base.LogStreamNumbers
import Muduo.Base.LogStreamSafety
import Muduo.Base.LogToFile
import Muduo.Base.Logging
import Muduo.Base.Mutex
import Muduo.Base.Thread
import Muduo.Base.ThreadPool
import Muduo.Base.ThreadPoolStop
import Muduo.Base.ThreadPoolWaiters
import Muduo.Foundation.ByteOrder
import Muduo.Foundation.DottedDecimal
import Muduo.Foundation.FixedWidth
import Muduo.Foundation.HeapView
import Muduo.Foundation.Lines
import Muduo.Foundation.Numeral
import Muduo.Foundation.OrdSet
import Muduo.Foundation.RoundRobin
import Muduo.Foundation.Search
import Muduo.Foundation.StepSystem
import Muduo.Foundation.WaitSet
import Muduo.Foundation.Window
import Muduo.Net.ActiveChannels
import Muduo.Net.Address
import Muduo.Net.Buffer
import Muduo.Net.BufferCalls
import Muduo.Net.BufferInt
import Muduo.Net.BufferMove
import Muduo.Net.BufferReadFd
import Muduo.Net.BufferRefinement
import Muduo.Net.BufferSearch
import Muduo.Net.BufferStorage
import Muduo.Net.Channel
import Muduo.Net.ChannelCalls
import Muduo.Net.ChannelOwners
import Muduo.Net.ChannelSteps
import Muduo.Net.ChannelTeardown
import Muduo.Net.ChannelViews
import Muduo.Net.ConfinedCalls
import Muduo.Net.ConfinedIdle
import Muduo.Net.ConnectionClosing
import Muduo.Net.ConnectionLifecycle
import Muduo.Net.ConnectionOwnership
import Muduo.Net.ConnectionReading
import Muduo.Net.ConnectionUse
import Muduo.Net.ConnectionViews
import Muduo.Net.Descriptors
import Muduo.Net.EPoller
import Muduo.Net.EPollerInterest
import Muduo.Net.EventLoop
import Muduo.Net.EventLoopQuit
import Muduo.Net.EventLoopThread
import Muduo.Net.EventLoopThreadPool
import Muduo.Net.EventLoopWakeup
import Muduo.Net.FatalChecks
import Muduo.Net.GracefulShutdown
import Muduo.Net.KernelEntries
import Muduo.Net.LoopViews
import Muduo.Net.OutputNotifications
import Muduo.Net.OutputStream
import Muduo.Net.PeerStream
import Muduo.Net.SharedConnection
import Muduo.Net.TcpConnection
import Muduo.Net.TcpServer
import Muduo.Net.TcpServerTeardown
import Muduo.Net.TcpServerTracking
import Muduo.Net.TimerAgenda
import Muduo.Net.TimerAlarm
import Muduo.Net.TimerBatch
import Muduo.Net.TimerCancellation
import Muduo.Net.TimerClock
import Muduo.Net.TimerLifetime
import Muduo.Net.TimerQueue
import Muduo.Net.TimerQueueInvariant
import Muduo.Net.TimerQueueSafety
import Muduo.Net.TimerThreads
import Muduo.Net.TimerThreadsSafety
