import Relay.Lib.Prog
import Relay.Lib.Atomic
import Relay.Lib.Runs
import Relay.Lib.Pool
import Relay.Lib.Protocol
import Relay.Lib.Staged
import Relay.Lib.Requests
import Relay.Lib.Rows
import Relay.Lib.Js
import Relay.Common.Ids
import Relay.Common.Rpc
import Relay.Common.Duration
import Relay.Auth.Service
import Relay.Accounts.Store
import Relay.Accounts.Service
import Relay.Accounts.System
import Relay.Accounts.Verify.Tokens
import Relay.Accounts.Verify.Programs
import Relay.Accounts.Verify.Rotation
import Relay.Accounts.Verify.Passwords
import Relay.Accounts.Verify.Uses
import Relay.Chat.Types
import Relay.Chat.Db
import Relay.Chat.View
import Relay.Chat.Service
import Relay.Chat.System
import Relay.Chat.Verify.Footprint
import Relay.Chat.Verify.Tables
import Relay.Chat.Verify.Reads
import Relay.Chat.Verify.Invariant
import Relay.Chat.Verify.Lawful
import Relay.Chat.Verify.Checks
import Relay.Chat.Verify.Saves
import Relay.Chat.Verify.Seats
import Relay.Chat.Verify.Ownership
import Relay.Chat.Verify.Handover
import Relay.Chat.Verify.Tombstones
import Relay.Chat.Verify.CallHistory
import Relay.Chat.Verify.Rejections
import Relay.Chat.Verify.Blocks
import Relay.Chat.Verify.Scheduled
import Relay.Chat.Verify.Deliveries
import Relay.Chat.Verify.Contents
import Relay.Chat.Verify.Exposure
import Relay.Chat.Verify.Hidden
import Relay.Chat.Verify.Undelivered
import Relay.Chat.Verify.Agree
import Relay.Chat.Verify.Twins
import Relay.Chat.Verify.Parallel
import Relay.Chat.Verify.Privacy
import Relay.Gateway.CallStore
import Relay.Gateway.CallSession
import Relay.Gateway.Verify.CallPlan
import Relay.Gateway.Verify.CallRefine
import Relay.Gateway.Verify.CallLocks
import Relay.Gateway.Verify.CallIndex
import Relay.Gateway.Auth
import Relay.Gateway.Verify.Revocation
import Relay.Gateway.Attachments
import Relay.Gateway.Verify.Attachments
import Relay.Gateway.ChatGateway
import Relay.Gateway.Verify.Handlers
import Relay.Gateway.Verify.RingTimers
import Relay.Gateway.Verify.Eviction
import Relay.Gateway.ChatController
import Relay.Gateway.Verify.Recipients
import Relay.Gateway.Verify.LastSeen
import Relay.Common.InflightLimiter
import Relay.Gateway.MicroserviceProxy
import Relay.Gateway.Verify.Inflight
import Relay.Accounts.Verify.ForgotPassword
import Relay.Gateway.PresenceService
import Relay.Gateway.Verify.Presence
import Relay.Gateway.AuthController
import Relay.Accounts.Verify.Registration
import Relay.Gateway.Verify.Registration
import Relay.Chat.Verify.Pairs
import Relay.Chat.Verify.PairRace
import Relay.Chat.Verify.Caps
import Relay.Chat.Verify.Expiry
import Relay.Gateway.Verify.CallControls
import Relay.Gateway.Verify.CallShape
import Relay.Gateway.Verify.CallStart
import Relay.Gateway.Verify.CallInvites
import Relay.Accounts.Verify.MailTokens
import Relay.Chat.Verify.Unread
import Relay.Gateway.Rooms
import Relay.Gateway.Verify.Rooms
import Relay.Chat.Verify.Viewers
import Relay.Gateway.Verify.Broadcasts
import Relay.Gateway.Verify.Memberships
import Relay.Gateway.Verify.History
import Relay.Gateway.Verify.InviteRate
import Relay.Gateway.Verify.Heartbeats
import Relay.Chat.Verify.Additions
import Relay.Chat.Verify.PartialWrites
import Relay.Chat.Verify.GroupSize
import Relay.Chat.Verify.Returning
import Relay.Chat.Verify.Seen
import Relay.Lib.Batch
import Relay.Chat.Verify.Batches
import Relay.Chat.Verify.BlockFlags
import Relay.Chat.Verify.Media
import Relay.Gateway.ConversationCache
import Relay.Gateway.Verify.MemberCache
import Relay.Chat.Verify.Search
import Relay.Lib.Toggle
import Relay.Chat.Verify.Reactions
import Relay.Chat.Verify.ConversationPages
import Relay.Chat.Verify.Analytics
import Relay.Users.Service
import Relay.Users.Verify.Profiles
import Relay.Users.Verify.Search
import Relay.Gateway.PushService
import Relay.Accounts.Verify.Lifetimes
import Relay.Accounts.Verify.Credentials
import Relay.Gateway.Verify.Push
import Relay.Gateway.LocalStorage
import Relay.Gateway.Verify.LocalStorage
import Relay.Lib.Percent
import Relay.Lib.Url
import Relay.Gateway.S3Storage
import Relay.Gateway.Verify.S3Storage
import Relay.Gateway.Verify.StorageUserName
import Relay.Gateway.AdminController
import Relay.Gateway.Verify.AuditExport
import Relay.Gateway.LinkPreview
import Relay.Gateway.Verify.LinkPreview
import Relay.Gateway.ChatDto
import Relay.Gateway.Verify.Columns
import Relay.Chat.Verify.Dates
import Relay.Chat.Verify.LostUpdates
import Relay.Chat.Verify.Licences
import Relay.Chat.Verify.Authority
import Relay.Gateway.Verify.CallTraffic
import Relay.Gateway.Signals
import Relay.Gateway.Verify.Signals
import Relay.Chat.Verify.Provenance
import Relay.Chat.Verify.Warrants
import Relay.Chat.Verify.Timeline
import Relay.Chat.Verify.GlobalSearch
