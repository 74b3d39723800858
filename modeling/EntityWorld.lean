import EntityWorld.Journal
import EntityWorld.Labels
import EntityWorld.Column
import EntityWorld.SlotPool
import EntityWorld.Record.Transform
import EntityWorld.Record.UITransform
import EntityWorld.Record.Particle
import EntityWorld.Record.Star
import EntityWorld.Snapshot
import EntityWorld.JsonText.Handle
import EntityWorld.JsonText.Settings
import EntityWorld.World.Replication
import EntityWorld.World.Describe
import EntityWorld.Simulation.Run
import EntityWorld.Proofs.Occupancy
import EntityWorld.Proofs.Registrations
import EntityWorld.Proofs.Operations
import EntityWorld.Proofs.Partition
import EntityWorld.Proofs.Changes
import EntityWorld.Proofs.Components
import EntityWorld.Proofs.Replay
import EntityWorld.Proofs.Outcomes
import EntityWorld.Proofs.WellFormed
import EntityWorld.Proofs.Access
import EntityWorld.Proofs.Payloads
import EntityWorld.Proofs.Message
import EntityWorld.Proofs.PrefixCode
import EntityWorld.Proofs.Restore
import EntityWorld.Proofs.Stamps
import EntityWorld.Proofs.Capture
import EntityWorld.Proofs.Delta
import EntityWorld.Proofs.Mirror
import EntityWorld.Proofs.Overlay
import EntityWorld.Proofs.Chronicle
import EntityWorld.Proofs.Records
import EntityWorld.Proofs.Refusals
import EntityWorld.Proofs.Rollback
import EntityWorld.Proofs.ClaimOrder
import EntityWorld.Proofs.Convergence
import EntityWorld.Proofs.Values
import EntityWorld.Proofs.Listing
import EntityWorld.Proofs.Follow
import EntityWorld.Proofs.Ticking
import EntityWorld.Proofs.Ageing
import EntityWorld.Proofs.Window
import EntityWorld.Proofs.Reuse
import EntityWorld.Proofs.HighWater
import EntityWorld.Proofs.Housing
import EntityWorld.Proofs.Census
import EntityWorld.Proofs.Culling
import EntityWorld.Proofs.Arrivals
import EntityWorld.Proofs.Endurance
import EntityWorld.Proofs.Renewal
import EntityWorld.Proofs.Sessions
import EntityWorld.Proofs.Twins
import EntityWorld.Proofs.Likeness
import EntityWorld.Proofs.Renaming
import EntityWorld.Proofs.Bindings
import EntityWorld.Proofs.Turnover
import EntityWorld.Proofs.Horizon
import EntityWorld.Proofs.Tables
import EntityWorld.Proofs.Tabulation
import EntityWorld.Proofs.Isolation
import EntityWorld.Proofs.Losses
import EntityWorld.Proofs.Interruptions
import EntityWorld.Proofs.Pacing
import EntityWorld.Proofs.ClaimSets
import EntityWorld.Proofs.Naming
import EntityWorld.Proofs.ColumnEdits
import EntityWorld.Proofs.Starlight
import EntityWorld.Proofs.RecordMessages
import EntityWorld.Proofs.Pruning
import EntityWorld.Proofs.Retention
import EntityWorld.Proofs.JsonGrammar
import EntityWorld.Proofs.JsonRecords
import EntityWorld.Proofs.SettingsText
import EntityWorld.Proofs.HandleForms
import EntityWorld.Proofs.Separation
import EntityWorld.Proofs.LabelTables
