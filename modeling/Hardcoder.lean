import Hardcoder.AmcWire
import Hardcoder.RequestFidelity
import Hardcoder.UdpInputBounds
import Hardcoder.UdpTimers
import Hardcoder.UdpDelivery
import Hardcoder.UdpSessions
import Hardcoder.UdpIsolation
import Hardcoder.UdpTimerList
import Hardcoder.UdpAgreement
import Hardcoder.Lib.SortedMap
import Hardcoder.ServerVersions
import Hardcoder.ServerTransports
import Hardcoder.ServerCallbacks
import Hardcoder.ClientCuts
import Hardcoder.ClientCallback
import Hardcoder.RequestCallbacks
import Hardcoder.ConnectStatus
import Hardcoder.HCPerfArbitration
import Hardcoder.ResponseConfinement
import Hardcoder.ConnectionIsolation
import Hardcoder.ClientBounds
import Hardcoder.CallerIdentity
import Hardcoder.SendQueue
import Hardcoder.HCPerfStatThread
import Hardcoder.HCPerfRunnable
import Hardcoder.HCPerfVisit
import Hardcoder.HCPerfAssertions
import Hardcoder.HCPerfStops
import Hardcoder.HCPerfCalls
import Hardcoder.HCPerfTimes
import Hardcoder.HCPerfTids
import Hardcoder.HCPerfLevels
import Hardcoder.ClientSameRequest
import Hardcoder.ServerUndecodable
import Hardcoder.RequestIds
import Hardcoder.ClientInit
import Hardcoder.UdpSequences
import Hardcoder.UdpRoundTrip
import Hardcoder.UdpBursts
import Hardcoder.PackBuffers
import Hardcoder.Rqueue
import Hardcoder.UdpSurvival
import Hardcoder.ProcFileReader
import Hardcoder.ProcStat
import Hardcoder.ThreadJiffiesMonitor
import Hardcoder.TraceRegistry
import Hardcoder.LocalPortCheck
import Hardcoder.ClientData
import Hardcoder.ClientDisconnect
import Hardcoder.ClientServerStall
