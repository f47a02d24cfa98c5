import MeshCore.Library.Program
import MeshCore.Library.Run
import MeshCore.Library.Ring
import MeshCore.Library.Table
import MeshCore.Defines
import MeshCore.Packet.Frame
import MeshCore.Packet.Payload
import MeshCore.Crypto.Core
import MeshCore.Crypto.Protocol
import MeshCore.Identity.Store
import MeshCore.Repeater.Policy
import MeshCore.Routing.Interface
import MeshCore.Routing.Router
import MeshCore.Routing.Dedup
import MeshCore.Routing.History
import MeshCore.Routing.Forwarding
import MeshCore.Routing.Network
import MeshCore.Routing.Upcall
import MeshCore.Room.Board
import MeshCore.Room.Login
import MeshCore.Room.Commands
import MeshCore.Room.Service
import MeshCore.Room.Effects
import MeshCore.Room.Runs
import MeshCore.Room.Sound
import MeshCore.Room.Delivery
import MeshCore.Room.Bookmark
import MeshCore.Routing.Transit
import MeshCore.Routing.Errands
import MeshCore.Routing.Framing
import MeshCore.Routing.Lineage
import MeshCore.Routing.Routes
import MeshCore.Routing.Radio
import MeshCore.Room.Rights
import MeshCore.Room.Channels
import MeshCore.Room.Lockout
import MeshCore.Room.Storage
import MeshCore.Library.Guard
import MeshCore.Room.Restart
import MeshCore.Room.Replays
import MeshCore.Crypto.Sealing
import MeshCore.Routing.Peers
import MeshCore.Routing.Chain
import MeshCore.Routing.Journey
import MeshCore.Routing.Exchange
import MeshCore.Library.Window
import MeshCore.Packet.Codec
import MeshCore.Radio.DutyCycle
import MeshCore.Radio.TxQueue
import MeshCore.Radio.Admission
import MeshCore.Radio.Driver
import MeshCore.Radio.PutBack
import MeshCore.Identity.Receiver
import MeshCore.Node.Loop
import MeshCore.Node.Counters
import MeshCore.Library.Tasks
import MeshCore.Routing.Outcomes
import MeshCore.Crypto.Padding
import MeshCore.Room.Padded
import MeshCore.Node.Heard
import MeshCore.Library.Layers
import MeshCore.Platform.Json
import MeshCore.Platform.Overlay
import MeshCore.Platform.Config
import MeshCore.Node.Host
import MeshCore.Platform.Plain
import MeshCore.Node.Settings
import MeshCore.Library.Limiter
import MeshCore.Library.Wire
import MeshCore.Repeater.Rate
import MeshCore.Packet.Writing
import MeshCore.Room.Persistence
import MeshCore.Room.Loading
import MeshCore.Library.Vec
import MeshCore.Routing.Bounds
import MeshCore.Routing.Deadlines
import MeshCore.Routing.Echoes
import MeshCore.Library.BinaryPoly
import MeshCore.Library.Fips197
import MeshCore.Library.Loop
import MeshCore.Crypto.Aes128
import MeshCore.Node.Advertising
import MeshCore.Library.Least
import MeshCore.Identity.File
import MeshCore.Identity.Exact
import MeshCore.Identity.Saving
import MeshCore.Library.Recency
import MeshCore.Identity.Cache
import MeshCore.Room.Replies
import MeshCore.Library.Cyclic
import MeshCore.Room.Fairness
import MeshCore.Room.Clients
import MeshCore.Node.Storing
import MeshCore.Routing.Sizes
import MeshCore.Room.Sizes
import MeshCore.Library.Queue
import MeshCore.Telemetry.Bus
import MeshCore.Library.Calendar
import MeshCore.Room.Dates
import MeshCore.Room.Upgrade
import MeshCore.Library.Sieve
import MeshCore.Node.Lists
import MeshCore.Routing.Traces
import MeshCore.Library.Tickets
import MeshCore.Node.Waiting
import MeshCore.Node.Replays
import MeshCore.Node.Resends
import MeshCore.Node.Attribution
import MeshCore.Routing.Coverage
import MeshCore.Node.Process
import MeshCore.Node.Outsiders
import MeshCore.Node.Projection
import MeshCore.Node.Durability
import MeshCore.Identity.Keys
import MeshCore.Library.Typestate
import MeshCore.Node.Outage
import MeshCore.Radio.Chip
import MeshCore.Node.Multicast
import MeshCore.Room.CatchUp
import MeshCore.Routing.Carrying
