import Flexiq.CapPrograms
import Flexiq.LockSafety
import Flexiq.JobLife
import Flexiq.RunFinality
import Flexiq.NodeFinality
import Flexiq.RemoteIdentity
import Flexiq.RemoteAuthority
import Flexiq.RemoteCapacity
import Flexiq.PreforkOutcome
import Flexiq.RedisKeys
import Flexiq.DequeueOrder
import Flexiq.BatchOrder
import Flexiq.PasswordSessions
import Flexiq.RedisIdentity
import Flexiq.BatchWrites
import Flexiq.DeadLetterRoundTrip
import Flexiq.Periodic
import Flexiq.OrphanRescue
import Flexiq.RedisDebounce
import Flexiq.RateLimit
import Flexiq.CircuitBreaker
import Flexiq.Codel
import Flexiq.Suspicion
import Flexiq.HashRing
import Flexiq.OAuthState
import Flexiq.ResourcePool
import Flexiq.LoginThrottle
import Flexiq.Fingerprint
import Flexiq.LogPump
