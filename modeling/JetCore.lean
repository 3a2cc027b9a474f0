import JetCore.Lib.Run
import JetCore.Lib.Dict
import JetCore.Lib.JsonRound
import JetCore.Lib.BaseN
import JetCore.Lib.Subject
import JetCore.Lib.KeyedLog
import JetCore.Ref.Envelope
import JetCore.Ref.Crypto
import JetCore.Ref.Registry
import JetCore.Ref.BusClient
import JetCore.Spec.Calls
import JetCore.Spec.Directory
import JetCore.Proofs.Recipients
import JetCore.Proofs.Process
import JetCore.Proofs.RoundTrip
import JetCore.Proofs.Fetch
import JetCore.Proofs.Confidential
import JetCore.Proofs.Dedup
import JetCore.Proofs.Integrity
import JetCore.Proofs.IdentityTtl
import JetCore.Proofs.WriteOrder
import JetCore.Proofs.RestSteps
import JetCore.Proofs.ReplyWait
import JetCore.Proofs.ReplyRace
import JetCore.Proofs.ReplySafety
import JetCore.Proofs.OrderKeys
import JetCore.Spec.Binlog
import JetCore.Proofs.CdcReplay
import JetCore.Spec.Deliveries
import JetCore.Proofs.AckAfterWork
import JetCore.Proofs.Resolve
import JetCore.Lib.FsCalls
import JetCore.Proofs.ResolveWalk
import JetCore.Proofs.Confined
import JetCore.Lib.FsLook
import JetCore.Proofs.Listing
import JetCore.Proofs.ReadYourWrites
import JetCore.Spec.Redelivery
import JetCore.Proofs.AsFirst
import JetCore.Proofs.Redelivery
import JetCore.Ref.RecentWrites
import JetCore.Ref.CreateWatch
import JetCore.Spec.WatchedDir
import JetCore.Proofs.RecentWrites
import JetCore.Proofs.WatchedDir
import JetCore.Lib.JsonSchema
import JetCore.Lib.JsonGrammar
import JetCore.Ref.Schemas
import JetCore.Proofs.Decoders
import JetCore.Proofs.OrderSchema
import JetCore.Proofs.FileRequests
import JetCore.Proofs.Permissions
import JetCore.Proofs.Creds
import JetCore.Proofs.OrderColumns
import JetCore.Proofs.CacheFold
import JetCore.Proofs.BadRecipient
import JetCore.Ref.Heartbeat
import JetCore.Proofs.Heartbeat
import JetCore.Ref.BootstrapAuth
import JetCore.Proofs.AllowLists
import JetCore.Ref.FaultyWorld
import JetCore.Proofs.FaultyResolve
import JetCore.Spec.Settling
import JetCore.Proofs.Settling
import JetCore.Proofs.FailedWrite
import JetCore.Ref.OccurredAt
import JetCore.Proofs.OccurredAt
import JetCore.Spec.Producers
import JetCore.Proofs.Conforms
import JetCore.Proofs.Producers
import JetCore.Ref.WebhookListener
import JetCore.Ref.WebhookSender
import JetCore.Ref.ClientTasks
import JetCore.Ref.CacheFor
import JetCore.Ref.DbAdapterRun
import JetCore.Proofs.NkeyText
import JetCore.Proofs.Webhook
import JetCore.Proofs.Relay
import JetCore.Proofs.ClientTasks
import JetCore.Proofs.CacheFor
import JetCore.Proofs.DbAdapterRun
import JetCore.Proofs.CompleteListing
import JetCore.Proofs.LookupRace
import JetCore.Ref.DurableNames
import JetCore.Proofs.DurableNames
import JetCore.Proofs.Settled
import JetCore.Spec.OrderFlow
import JetCore.Proofs.OrderFlow
import JetCore.Spec.OrderRows
import JetCore.Proofs.OrderRows
import JetCore.Spec.Subscribers
import JetCore.Proofs.Subscribers
import JetCore.Lib.Causes
import JetCore.Spec.EventBus
import JetCore.Proofs.EventBus
import JetCore.Spec.EventTrace
import JetCore.Proofs.EventTrace
import JetCore.Spec.WebhookFlow
import JetCore.Proofs.WebhookFlow
import JetCore.Spec.Access
import JetCore.Proofs.Access
import JetCore.Spec.RelayProcess
import JetCore.Proofs.RelaySteps
import JetCore.Proofs.RelayProcess
