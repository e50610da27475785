import Telepty.Infra.OrdMap
import Telepty.Infra.Text
import Telepty.Infra.FileSystem
import Telepty.Infra.Process
import Telepty.Infra.Json
import Telepty.Infra.JsonRoundtrip
import Telepty.Infra.JsonPrefix
import Telepty.Infra.Sha256
import Telepty.Infra.Lines
import Telepty.Ledger.Format
import Telepty.Ledger.Codec
import Telepty.Infra.Search
import Telepty.Ledger.Index
import Telepty.Ledger.State
import Telepty.Ledger.Files
import Telepty.Ledger.Recovery
import Telepty.Ledger.Checkpoint
import Telepty.Ledger.Group
import Telepty.Ledger.Open
import Telepty.Ledger.Owner
import Telepty.Ledger.Refused
import Telepty.Lock.Exclusion
import Telepty.Client.Model
import Telepty.Client.Settle
import Telepty.Ledger.Cold
import Telepty.Ledger.Core
import Telepty.Ledger.Log
import Telepty.Ledger.Replay
import Telepty.Ledger.Supersede
import Telepty.Infra.Jsonl
import Telepty.Interaction.Core
import Telepty.Interaction.Dispatch
import Telepty.Interaction.Outstanding
import Telepty.Interaction.Writer
import Telepty.Ledger.Bookkeeping
import Telepty.Ledger.Commit
import Telepty.Ledger.Restart
import Telepty.Ledger.Serve
import Telepty.Mailbox.Custody
import Telepty.Mailbox.Delivered
import Telepty.Mailbox.Exclusion
import Telepty.Mailbox.Intact
import Telepty.Mailbox.Terminal
import Telepty.Mailbox.Uncertain
import Telepty.Mailbox.Fifo
import Telepty.Mailbox.Recovery
import Telepty.Mailbox.Compaction
import Telepty.Ledger.Fresh
import Telepty.Principal.SingleUse
import Telepty.Screen.Verdict
import Telepty.Forward.Once
import Telepty.Forward.Torn
import Telepty.Forward.Layout
import Telepty.Forward.Leftover
import Telepty.Forward.Admission
import Telepty.Broker.Envelopes
import Telepty.Broker.Final
import Telepty.Bridge.Arrival
import Telepty.Session.InputPolicy
import Telepty.Session.StateMachine
import Telepty.Ledger.Listing
import Telepty.Session.Reach
import Telepty.Session.CredentialIndex
import Telepty.Session.Rollback
import Telepty.Transport.Ownership
import Telepty.Transport.Objects
import Telepty.Transport.Lobby
import Telepty.Transport.Incumbent
import Telepty.Ledger.Folding
import Telepty.Ledger.TornLog
import Telepty.Ledger.Reservation
import Telepty.Mailbox.Expiry
import Telepty.Infra.JsonToken
import Telepty.Infra.Rfc8259
import Telepty.Infra.JsonPrint
import Telepty.Infra.JsonOrder
import Telepty.Principal.Encoding
import Telepty.Principal.Canonical
import Telepty.Infra.Pieces
import Telepty.Vt.Generation
import Telepty.Vt.Pump
import Telepty.Vt.Screen
import Telepty.Vt.Chunks
import Telepty.Ledger.Generations
import Telepty.Bridge.OutputHold
import Telepty.Bridge.Repeats
import Telepty.Broker.Consume
import Telepty.Transport.Readiness
import Telepty.Bridge.StageReceipt
import Telepty.Mailbox.Backoff
import Telepty.Session.Approval
import Telepty.Session.SustainedIdle
import Telepty.Submit.Consumption
import Telepty.Shared.Commit
import Telepty.Ssh.Accepted
import Telepty.Ssh.Input
import Telepty.Audit.Drain
import Telepty.Ledger.Lasting
import Telepty.Infra.Backward
import Telepty.Audit.Query
import Telepty.Audit.Answers
import Telepty.Audit.Paging
import Telepty.Audit.Reader
import Telepty.Audit.Reading
import Telepty.Infra.Replace
import Telepty.Mailbox.Settled
import Telepty.Bridge.Predecessor
