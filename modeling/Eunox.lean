import Eunox.ArgumentReference
import Eunox.AuditChain
import Eunox.BackendAgreement
import Eunox.BreakerWindows
import Eunox.DecisionCommits
import Eunox.DecisionExclusion
import Eunox.DenialEcho
import Eunox.DriftCoverage
import Eunox.ForwardRecords
import Eunox.ForwardedRefusals
import Eunox.FrameWriter
import Eunox.JudgedParams
import Eunox.JwtGrants
import Eunox.KeyRefresh
import Eunox.KillSwitchEvents
import Eunox.KillSwitchHealth
import Eunox.MessageId
import Eunox.NumericEqual
import Eunox.ObservePosture
import Eunox.PayloadCache
import Eunox.QueueBudget
import Eunox.RecordLimiter
import Eunox.ReplyRouting
import Eunox.SelectionAgreement
import Eunox.SequenceCompleteness
import Eunox.ServerRequests
import Eunox.SessionCap
import Eunox.SubsystemSkips
