import Lightspeed.Transition
import Lightspeed.RWMutex
import Lightspeed.Room
import Lightspeed.Framing
import Lightspeed.Handler
import Lightspeed.Precedence
import Lightspeed.Utf8
import Lightspeed.Hex
import Lightspeed.Str
import Lightspeed.Decimal
import Lightspeed.Json
import Lightspeed.JsonText
import Lightspeed.Rtp
import Lightspeed.Hub.Model
import Lightspeed.Frontend.App
import Lightspeed.Frontend.Socket
import Lightspeed.Frontend.Backoff
import Lightspeed.Frontend.Reconnect
import Lightspeed.Hub.Locking
import Lightspeed.Hub.Membership
import Lightspeed.Hub.Sending
import Lightspeed.Hub.Races
import Lightspeed.Hub.DeadReceiver
import Lightspeed.Hub.GhostViewer
import Lightspeed.Hub.Messages
import Lightspeed.Hub.Offer
import Lightspeed.Hub.Trickle
import Lightspeed.Hub.ReadLoop
import Lightspeed.Hub.Wire
import Lightspeed.Hub.Settings
import Lightspeed.Hub.ViewerCount
import Lightspeed.Frontend.Reader
import Lightspeed.Frontend.Page
import Lightspeed.Hub.Broadcast
import Lightspeed.Hub.Accounting
import Lightspeed.Hub.Drain
import Lightspeed.Hub.Refinement
import Lightspeed.Hub.Departure
import Lightspeed.Hub.Written
import Lightspeed.Signalling.Exchange
import Lightspeed.Signalling.Completion
import Lightspeed.Relay
import Lightspeed.Ingest.FtlCodec
import Lightspeed.Ingest.Grammar
import Lightspeed.Ingest.StreamKey
import Lightspeed.Ingest.Connection
import Lightspeed.Ingest.Attribute
import Lightspeed.Ingest.Challenge
import Lightspeed.Ingest.Store
import Lightspeed.Ingest.Panics
import Lightspeed.Ingest.KeyStore
import Lightspeed.Ingest.Tasks
import Lightspeed.Ingest.Lockstep
import Lightspeed.Ingest.Deadlock
import Lightspeed.Ingest.Shutdown
import Lightspeed.Ingest.Session
import Lightspeed.Ingest.Handshake
import Lightspeed.Ingest.PortGate
import Lightspeed.Ingest.Server
import Lightspeed.Ingest.Main
import Lightspeed.Ingest.Startups
import Lightspeed.Ingest.Alone
import Lightspeed.Signalling.Completion
