import Converger.Totp
import Converger.Receipts
import Converger.ClusterSyncRuns
import Converger.AdmissionQueue
import Converger.CreateActivityReferences
import Converger.DeliveryReceipts
import Converger.DeliveryOutcomes
import Converger.DeliveryReplays
import Converger.HandOffs
import Converger.InboundRedelivery
import Converger.RoutingRaces
import Converger.OptOuts
import Converger.ConversationSockets
import Converger.OutboxProgress
import Converger.GroupFrames
import Converger.GoSocket
import Converger.CircuitOutcomes
import Converger.CircuitProbes
import Converger.UserRevocations
import Converger.TokenReuse
import Converger.RevocationCache
import Converger.LifecycleEvents
import Converger.ParticipantConversations
import Converger.MqttPackets
import Converger.BackbonePublish
import Converger.MekikConnection
import Converger.ClientOutbox
import Converger.ClientFrames
import Converger.DeadLetterRuns
import Converger.PipelineChannels
import Converger.GrpcFrames
import Converger.RetentionProgress
import Converger.SocketKeyRuns
import Converger.AgentTurnRuns
import Converger.ConditionEvaluation
import Converger.Interrupts
import Converger.LoginThrottle
import Converger.PasswordChanges
import Converger.StatusUpdates
import Converger.BotFrames
import Converger.ResumeSessions
import Converger.SmsSegments
import Converger.ChatSplit
import Converger.InFlight
import Converger.DiscordGateway
import Converger.TrustedProxies
import Converger.AgentReconnects
import Converger.TokenManager
import Converger.ConsumerTimers
import Converger.WatermarkHistory
import Converger.WebhookSignatures
