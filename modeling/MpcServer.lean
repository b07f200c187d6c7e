import MpcServer.Lib.Machine
import MpcServer.Lib.FirstWrite
import MpcServer.Lib.Method
import MpcServer.Lib.Text
import MpcServer.Lib.Hex
import MpcServer.Messages
import MpcServer.Group
import MpcServer.Crates
import MpcServer.Storage
import MpcServer.Crypto
import MpcServer.Transport
import MpcServer.Lib.Unfold
import MpcServer.Brokers
import MpcServer.Sample
import MpcServer.Authenticity
import MpcServer.Actors.Player
import MpcServer.Actors.Signer
import MpcServer.Actors.SignerRun
import MpcServer.Actors.Coordinator
import MpcServer.Actors.Routing
import MpcServer.Actors.Sessions
import MpcServer.Actors.Node
import MpcServer.Actors.Steps
import MpcServer.Lib.Registry
import MpcServer.Lib.Tally
import MpcServer.Actors.Identities
import MpcServer.Actors.Causes
import MpcServer.Actors.Copies
import MpcServer.Messenger.Rooms
import MpcServer.Messenger.LiveRoom
import MpcServer.Messenger.Handlers
import MpcServer.Messenger.Stream
import MpcServer.Lib.RwLock
import MpcServer.Messenger.Wakeups
import MpcServer.Retries
import MpcServer.Conservation
import MpcServer.Runners
import MpcServer.Shares
import MpcServer.Groups
import MpcServer.SenderIndex
import MpcServer.Checking
import MpcServer.Server
import MpcServer.System
import MpcServer.Actors.Mailbox
import MpcServer.Admission
import MpcServer.Actors.Yields
import MpcServer.Statuses
import MpcServer.Progress
import MpcServer.Outgoing
import MpcServer.RoomParameters
import MpcServer.Stores
import MpcServer.Json
import MpcServer.Delivery
import MpcServer.Attendance
import MpcServer.Indices
import MpcServer.Parties
import MpcServer.Participants
import MpcServer.Refusals
import MpcServer.Logging
import MpcServer.Survival
import MpcServer.Sink
import MpcServer.Disposition
import MpcServer.Unrecorded
import MpcServer.Spelling
import MpcServer.Actors.Loop
import MpcServer.Drive
import MpcServer.Separator
import MpcServer.Lib.Feed
import MpcServer.Lib.Rest
import MpcServer.Messenger.Published
import MpcServer.Actors.Speech
import MpcServer.Actors.Pool
import MpcServer.Actors.Isolation
import MpcServer.Outcomes
import MpcServer.Lib.Restart
import MpcServer.Restarts
import MpcServer.Silence
import MpcServer.Handover
import MpcServer.Network
import MpcServer.Correspondence
import MpcServer.Exchange
import MpcServer.Reliable
