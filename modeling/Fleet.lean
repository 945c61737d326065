import Fleet.Daemon.Run
import Fleet.Main
import Fleet.Sync.Client
import Fleet.Tree.Subscribers
import Fleet.Proofs.Basics
import Fleet.Proofs.Doubles
import Fleet.Proofs.Identifiers
import Fleet.Proofs.Records
import Fleet.Proofs.PatchCodec
import Fleet.Proofs.Applying
import Fleet.Proofs.Telling
import Fleet.Proofs.Events
import Fleet.Proofs.Commands
import Fleet.Proofs.Restoring
import Fleet.Proofs.Convergence
import Fleet.Proofs.Replay
import Fleet.Proofs.RedoLog
import Fleet.Proofs.Commuting
import Fleet.Proofs.Forwarding
import Fleet.Proofs.Publishing
import Fleet.Proofs.Frames
import Fleet.Proofs.Network
import Fleet.Proofs.Quiescence
import Fleet.Proofs.Naming
import Fleet.Proofs.Merging
import Fleet.Proofs.Refusals
import Fleet.Proofs.Parts
import Fleet.Proofs.Tombstones
import Fleet.Proofs.Lagging
import Fleet.Proofs.CatchingUp
import Fleet.Proofs.Forms
import Fleet.Proofs.SnapshotCodec
import Fleet.Proofs.Saving
import Fleet.Proofs.Numerals
import Fleet.Proofs.Strings
import Fleet.Proofs.Tokens
import Fleet.Proofs.Nesting
import Fleet.Proofs.Kinds
import Fleet.Proofs.Deliveries
import Fleet.Proofs.Texts
import Fleet.Proofs.SnapshotFiles
import Fleet.Proofs.Intake
import Fleet.Proofs.Restarting
import Fleet.Proofs.Configuration
import Fleet.Proofs.Attributes
import Fleet.Proofs.Wire
import Fleet.Proofs.Reconnecting
import Fleet.Proofs.Delivering
import Fleet.Proofs.Connections
import Fleet.Proofs.Unsaved
import Fleet.Proofs.Meaning
import Fleet.Proofs.Deletions
import Fleet.Proofs.Redelivery
import Fleet.Proofs.Spelling
import Fleet.Proofs.Copying
import Fleet.Proofs.Contents
import Fleet.Proofs.Outgoing
