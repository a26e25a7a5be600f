import BoostBase.Application.ApplicationLogs
import BoostBase.Application.ApplicationShutdown
import BoostBase.Config.Config
import BoostBase.Coroutine.AwaitableEventOwnership
import BoostBase.Coroutine.AwaitableEventRuns
import BoostBase.Coroutine.CoroutineTaskRuns
import BoostBase.Coroutine.NestedTasks
import BoostBase.IPC.IntQueue
import BoostBase.Logger.AsyncLoggerThreads
import BoostBase.Misc.Debug
import BoostBase.Misc.GenericFactory
import BoostBase.Misc.StrandHolder
import BoostBase.Misc.Timeouts
import BoostBase.Network.AsyncProxyProviderProgress
import BoostBase.Network.ClientProgress
import BoostBase.Network.ClientReconnect
import BoostBase.Network.ProxyMemoryRelay
import BoostBase.Network.ProxyPairProgress
import BoostBase.Network.ProxySockets
import BoostBase.Network.ProxyStop
import BoostBase.Network.ProxyStream
import BoostBase.Network.SSLSocketContexts
import BoostBase.Network.ServerProgress
import BoostBase.Network.ServerServing
import BoostBase.Network.SessionBytes
import BoostBase.Network.SessionAutoClose
import BoostBase.Network.SocketOwners
import BoostBase.Network.SocketPlain
import BoostBase.Timed.TimedProgress
