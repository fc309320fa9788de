import OrchKit.Lifecycle.Exclusion
import OrchKit.Lifecycle.Absorption
import OrchKit.Lifecycle.Completion
import OrchKit.Lifecycle.Coherence
import OrchKit.Lifecycle.Authority
import OrchKit.Lifecycle.Dependencies
import OrchKit.Lifecycle.Gates
import OrchKit.Lifecycle.Journal
import OrchKit.Lifecycle.Lineage
import OrchKit.Lifecycle.Replay
import OrchKit.Workspace.Scope
import OrchKit.Workspace.Containment
import OrchKit.Git.Reinspection
import OrchKit.Ledger.Reconciliation
import OrchKit.Ledger.Readmission
import OrchKit.Ledger.Schedule
import OrchKit.Home.Displacement
import OrchKit.Home.Inspection
import OrchKit.Retention.Budget
import OrchKit.Retention.Repairability
import OrchKit.Retention.TreeDeletion
import OrchKit.Retention.Evidence
import OrchKit.Bridge.Capacity
import OrchKit.Bridge.Refusal
import OrchKit.Bridge.Creation
import OrchKit.Bridge.Discipline
import OrchKit.Bridge.Settlement
import OrchKit.Data.Framing
import OrchKit.Data.Json
import OrchKit.Planning.Loading
import OrchKit.Local.Operations
import OrchKit.Local.Responses
import OrchKit.Local.Serving
import OrchKit.Data.Written
import OrchKit.Local.Slicing
import OrchKit.Local.Reassembly
import OrchKit.Local.Cursors
import OrchKit.Local.Foreground
import OrchKit.Local.Broker
import OrchKit.Ledger.Migration
import OrchKit.Archive.Verdict
import OrchKit.Archive.Agreement
import OrchKit.Review.Preflight
import OrchKit.Git.Recovery
