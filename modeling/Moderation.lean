import Moderation.Clock
import Moderation.Enforcement.Options
import Moderation.Failure
import Moderation.Identity.Address
import Moderation.Identity.Uuid
import Moderation.Json.Basic
import Moderation.Json.Reader
import Moderation.Json.Record
import Moderation.Json.Token
import Moderation.Json.Writer
import Moderation.Medium.Basic
import Moderation.Medium.Bus
import Moderation.Medium.Json
import Moderation.Medium.Mailbox
import Moderation.Mute.AlwaysAvailable
import Moderation.Mute.Cache
import Moderation.Mute.Config
import Moderation.Mute.Denial
import Moderation.Mute.Inquiry
import Moderation.Mute.OnDemand
import Moderation.Mute.Roster
import Moderation.Mute.Session
import Moderation.Node.Basic
import Moderation.Node.CachedSite
import Moderation.Node.Cluster
import Moderation.Node.Command
import Moderation.Node.Config
import Moderation.Node.Lifecycle
import Moderation.Node.Platform
import Moderation.Packet.Basic
import Moderation.Packet.Json
import Moderation.Packet.Wire
import Moderation.Proofs.Json.Record
import Moderation.Proofs.Mailbox.Delivery
import Moderation.Proofs.Mailbox.Mailroom
import Moderation.Proofs.Mailbox.Pruning
import Moderation.Proofs.Mailbox.Recipient
import Moderation.Proofs.Mailbox.Rows
import Moderation.Proofs.Medium.Log
import Moderation.Proofs.Mute.Clearing
import Moderation.Proofs.Mute.Course
import Moderation.Proofs.Mute.Covering
import Moderation.Proofs.Mute.Eager
import Moderation.Proofs.Mute.Eviction
import Moderation.Proofs.Mute.Exactness
import Moderation.Proofs.Mute.Handles
import Moderation.Proofs.Mute.Held
import Moderation.Proofs.Mute.Latest
import Moderation.Proofs.Mute.Ledger
import Moderation.Proofs.Mute.Merging
import Moderation.Proofs.Mute.Presence
import Moderation.Proofs.Mute.Punctuality
import Moderation.Proofs.Mute.Readers
import Moderation.Proofs.Mute.ReadingRoom
import Moderation.Proofs.Mute.Recording
import Moderation.Proofs.Mute.Refreshes
import Moderation.Proofs.Mute.Sharing
import Moderation.Proofs.Mute.Sweeping
import Moderation.Proofs.Mute.Variants
import Moderation.Proofs.Node.Accounting
import Moderation.Proofs.Node.Announcements
import Moderation.Proofs.Node.CachedSite
import Moderation.Proofs.Node.Cluster
import Moderation.Proofs.Node.Convergence
import Moderation.Proofs.Node.Details
import Moderation.Proofs.Node.Enactment
import Moderation.Proofs.Node.Layers
import Moderation.Proofs.Node.Receiving
import Moderation.Proofs.Node.Revocation
import Moderation.Proofs.Node.Running
import Moderation.Proofs.Node.SameEffect
import Moderation.Proofs.Node.Validity
import Moderation.Proofs.Node.Watch
import Moderation.Proofs.Packet.Canonical
import Moderation.Proofs.Packet.Origin
import Moderation.Proofs.Packet.Prefix
import Moderation.Proofs.Packet.RoundTrip
import Moderation.Proofs.Store.Applicable
import Moderation.Proofs.Store.Scan
import Moderation.Proofs.Store.Standing
import Moderation.Proofs.Sync.Fleet
import Moderation.Proofs.Sync.Handling
import Moderation.Proofs.Sync.Hearing
import Moderation.Proofs.Sync.Leads
import Moderation.Proofs.Sync.Polling
import Moderation.Proofs.Sync.Requests
import Moderation.Proofs.Sync.Telling
import Moderation.Proofs.Text.Spelling
import Moderation.Proofs.Wire.BigEndian
import Moderation.Proofs.Wire.Canonical
import Moderation.Proofs.Wire.Prefix
import Moderation.Proofs.Wire.Reading
import Moderation.Proofs.Wire.RoundTrip
import Moderation.Proofs.Wire.Sequences
import Moderation.Punishment.Basic
import Moderation.Punishment.Json
import Moderation.Punishment.Kind
import Moderation.Report
import Moderation.Schedule
import Moderation.Store
import Moderation.Sync.Archive
import Moderation.Sync.Config
import Moderation.Sync.Json
import Moderation.Sync.Network
import Moderation.Sync.Receiver
import Moderation.Sync.Service
import Moderation.Sync.Site
import Moderation.Table
import Moderation.Text.Blank
import Moderation.Text.CharRanges
import Moderation.Text.Hex
import Moderation.Text.Invisible
import Moderation.Text.Mark
import Moderation.Text.Numeral
import Moderation.Text.Quoted
import Moderation.Wire.BigEndian
import Moderation.Wire.Json
import Moderation.Wire.Reader
import Moderation.Wire.Value
import Moderation.Proofs.Bus.Audience
import Moderation.Proofs.Medium.Exchange
