import OpenDmcn.Lib.Bytes
import OpenDmcn.Lib.Time
import OpenDmcn.Lib.Strings
import OpenDmcn.Lib.Signature
import OpenDmcn.Lib.Run
import OpenDmcn.Wire
import OpenDmcn.Runtime
import OpenDmcn.Identity.Address
import OpenDmcn.Identity.Credential
import OpenDmcn.Identity.Authority
import OpenDmcn.Identity.Chain
import OpenDmcn.Identity.Rotation
import OpenDmcn.Identity.Record
import OpenDmcn.Identity.Verify
import OpenDmcn.Relay.RecordStore
import OpenDmcn.Relay.AcceptRecord
import OpenDmcn.Relay.Admission
import OpenDmcn.IdealRuntime
import OpenDmcn.Relay.RootContinuity
import OpenDmcn.Relay.Invariant
import OpenDmcn.Relay.RebindGate
import OpenDmcn.Relay.OperatorFields
import OpenDmcn.Relay.RemovalStore
import OpenDmcn.Registry.Service
import OpenDmcn.Registry.Spec
import OpenDmcn.Web.IdentityHandler
import OpenDmcn.Node.Resolver
import OpenDmcn.Registry.Policy
import OpenDmcn.Node.LocalFirst
import OpenDmcn.Node.HostileFleet
import OpenDmcn.Node.Tombstone
import OpenDmcn.Node.Fanout
import OpenDmcn.Cli.RemoveAddress
import OpenDmcn.Relay.Squatting
import OpenDmcn.Identity.ChainSound
import OpenDmcn.Identity.Scope
import OpenDmcn.Relay.AntiRollback
import OpenDmcn.Lib.Interleave
import OpenDmcn.Relay.Concurrent
import OpenDmcn.Node.Restart
import OpenDmcn.Relay.Companions
import OpenDmcn.Relay.Spelling
import OpenDmcn.Registry.Agreement
import OpenDmcn.Identity.Rotate
import OpenDmcn.Relay.Resign
import OpenDmcn.Identity.Splice
import OpenDmcn.Lib.HashChain
import OpenDmcn.Relay.Displaced
import OpenDmcn.Relay.History
import OpenDmcn.Lib.Index
import OpenDmcn.Lib.Hex
import OpenDmcn.Lib.Datastore
import OpenDmcn.Relay.MessageStore
import OpenDmcn.Message.Envelope
import OpenDmcn.Relay.StoreLoad
import OpenDmcn.Relay.StoreMigration
import OpenDmcn.Relay.StoreDisk
import OpenDmcn.Relay.Mailbox
import OpenDmcn.Relay.MailboxConcurrent
import OpenDmcn.Lib.Paging
import OpenDmcn.Lib.Protobuf
import OpenDmcn.Relay.MailboxList
import OpenDmcn.Relay.Frames
import OpenDmcn.Relay.PersonalKv
import OpenDmcn.Relay.AcceptEnvelope
import OpenDmcn.Relay.ReadsFit
import OpenDmcn.Lib.Register
import OpenDmcn.Relay.PersonalKvConcurrent
import OpenDmcn.Relay.Quota
import OpenDmcn.Relay.StoreRetry
import OpenDmcn.Relay.SenderBudget
import OpenDmcn.Relay.ChunkedStore
import OpenDmcn.Sealing
import OpenDmcn.Onion.Packet
import OpenDmcn.Onion.Sizes
import OpenDmcn.Relay.Onion
import OpenDmcn.Bridge.WorkerPool
import OpenDmcn.Message.Plaintext
import OpenDmcn.Bridge.Address
import OpenDmcn.Bridge.Types
import OpenDmcn.Bridge.Outbound
import OpenDmcn.Bridge.SenderBinding
import OpenDmcn.Bridge.Listing
import OpenDmcn.Bridge.Dispatch
import OpenDmcn.Bridge.OneVerdict
import OpenDmcn.Message.Open
import OpenDmcn.Message.Seal
import OpenDmcn.Bridge.Decrypt
import OpenDmcn.Bridge.Mime
import OpenDmcn.Bridge.Threading
import OpenDmcn.Message.SplitPath
import OpenDmcn.Web.PinFloor
import OpenDmcn.Web.Repin
import OpenDmcn.Lib.Requests
import OpenDmcn.Web.Drafts
import OpenDmcn.Web.DraftReadback
import OpenDmcn.Web.DraftRetry
import OpenDmcn.Web.DraftConflict
import OpenDmcn.Web.ShardIndex
import OpenDmcn.Web.SearchIndex
import OpenDmcn.Web.SearchHandover
import OpenDmcn.Web.FeedKeepsUp
import OpenDmcn.Web.Flags
import OpenDmcn.Web.StorageList
import OpenDmcn.Lib.Calls
import OpenDmcn.Web.RotationCeremony
import OpenDmcn.Lib.Number
import OpenDmcn.Web.VerifyRotation
import OpenDmcn.Web.Lineage
import OpenDmcn.Web.SignRotation
import OpenDmcn.Web.SiblingRotation
import OpenDmcn.Relay.OwnerAuth
import OpenDmcn.Web.Challenge
import OpenDmcn.Web.SendMessage
import OpenDmcn.Relay.OnionRequired
import OpenDmcn.Web.PetitionStore
import OpenDmcn.Web.Petition
import OpenDmcn.Web.DeclareStolen
import OpenDmcn.Web.Reported
import OpenDmcn.Web.SameChains
import OpenDmcn.Identity.Blocklist
import OpenDmcn.Identity.DeviceGate
import OpenDmcn.Identity.ChainComplete
import OpenDmcn.Identity.Tenure
import OpenDmcn.Lib.MailAddress
import OpenDmcn.Bridge.Authenticate
import OpenDmcn.Bridge.Inbound
import OpenDmcn.Lib.Shuffle
import OpenDmcn.Lib.Greedy
import OpenDmcn.Onion.Route
import OpenDmcn.Relay.ChunkedStream
import OpenDmcn.Node.RemovalUnion
import OpenDmcn.Node.Anchor
import OpenDmcn.Lib.Format
import OpenDmcn.Identity.RoundTrip
import OpenDmcn.Web.SenderTrust
import OpenDmcn.Web.PetitionQueue
import OpenDmcn.Lib.RawURL
import OpenDmcn.Web.Sessions
import OpenDmcn.Web.Autosave
import OpenDmcn.Web.AutosaveRuns
import OpenDmcn.Web.Backfill
import OpenDmcn.Lib.Utf16
import OpenDmcn.Web.ShardNumbers
import OpenDmcn.Lib.Utf8
import OpenDmcn.Message.DisplayName
import OpenDmcn.Lib.Date
import OpenDmcn.Web.Mbox
import OpenDmcn.Identity.Keystore
import OpenDmcn.Lib.MailText
import OpenDmcn.Web.MimeText
import OpenDmcn.Web.PreviewCache
import OpenDmcn.Lib.MailHeader
import OpenDmcn.Web.ExportHeaders
import OpenDmcn.Web.ExportFile
import OpenDmcn.Node.Join
import OpenDmcn.Node.JoinRuns
import OpenDmcn.Node.JoinVouched
import OpenDmcn.Node.OnionDelivery
