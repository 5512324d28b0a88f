import LogosChat.Reasoning.Result
import LogosChat.Reasoning.Bytes
import LogosChat.Reasoning.LittleEndian
import LogosChat.Reasoning.Framing
import LogosChat.Reasoning.Tombstones
import LogosChat.Reasoning.AppendOnly
import LogosChat.Reasoning.Run
import LogosChat.Reasoning.Call
import LogosChat.Reasoning.Hex
import LogosChat.Reasoning.Window
import LogosChat.Crypto
import LogosChat.Accounts.Context
import LogosChat.Accounts.Log
import LogosChat.Accounts.Replay
import LogosChat.Accounts.Live
import LogosChat.Accounts.Codec
import LogosChat.Accounts.Canonical
import LogosChat.Accounts.Draft
import LogosChat.Accounts.Authoring
import LogosChat.Accounts.Record
import LogosChat.Accounts.History
import LogosChat.Accounts.Resolver
import LogosChat.Accounts.Publish
import LogosChat.Conversations.CausalHistory
import LogosChat.Conversations.CausalNetwork
import LogosChat.Conversations.CausalDelivery
import LogosChat.Conversations.LamportClock
import LogosChat.Conversations.Identity
import LogosChat.Conversations.Backends
import LogosChat.Conversations.Services
import LogosChat.Conversations.KeyPackages
import LogosChat.Conversations.Publishing
import LogosChat.Conversations.GroupV1
import LogosChat.Conversations.GroupV1Commits
import LogosChat.Conversations.GroupV2
import LogosChat.Conversations.GroupV2Delivery
import LogosChat.Conversations.GroupV2Invites
import LogosChat.Conversations.GroupV2Membership
import LogosChat.Conversations.SendFailure
import LogosChat.Conversations.Core
import LogosChat.Conversations.Frame
import LogosChat.Conversations.Handover
import LogosChat.Conversations.Records
import LogosChat.Conversations.Creation
import LogosChat.Conversations.Invitations
import LogosChat.Conversations.HandedPackages
import LogosChat.Accounts.Readers
import LogosChat.Accounts.Keys
import LogosChat.Conversations.HttpAuth
import LogosChat.Reasoning.Sql
import LogosChat.Storage.MemStore
import LogosChat.Storage.SqliteStore
import LogosChat.Conversations.GroupV3Commits
import LogosChat.Conversations.MessageIds
import LogosChat.Conversations.SelfAcks
import LogosChat.Conversations.GroupV1Echo
import LogosChat.Messages.MessageTypes
import LogosChat.Messages.MessageStore
import LogosChat.Messages.Paging
import LogosChat.Storage.Installation
import LogosChat.Storage.Migrations
import LogosChat.Components.Wakeup
import LogosChat.Components.WakeupDrop
import LogosChat.Components.KeyVault
import LogosChat.Components.KeyVaultRetry
import LogosChat.Components.KeyPaths
import LogosChat.Conversations.HashedTuples
import LogosChat.Cli.App
import LogosChat.Cli.EventSafety
import LogosChat.Cli.ActiveChat
import LogosChat.Cli.ActiveChatRuns
import LogosChat.Cli.FileBusRuns
import LogosChat.Conversations.Hearing
import LogosChat.Conversations.CoreHearing
import LogosChat.Accounts.Address
import LogosChat.Client.Events
import LogosChat.Client.Session
import LogosChat.Client.Stream
import LogosChat.Accounts.Network
import LogosChat.Client.Bus
import LogosChat.Components.ContactRegistry
import LogosChat.Storage.ConversationStores
import LogosChat.Client.Exchange
import LogosChat.Client.Opening
import LogosChat.Conversations.Joining
import LogosChat.Client.Handshake
