import RunOnce.Race
import RunOnce.Demo
import RunOnce.Scenario.Transcript
import RunOnce.Proofs.Exclusion.Board
import RunOnce.Proofs.Exclusion.Refine
import RunOnce.Proofs.Exclusion.Account
import RunOnce.Proofs.Exclusion.Global
import RunOnce.Proofs.Exclusion.Local
import RunOnce.Proofs.Exclusion.Shared
import RunOnce.Proofs.Reentrancy.Lineage
import RunOnce.Proofs.Reentrancy.Report
import RunOnce.Proofs.Region.Loaded
import RunOnce.Proofs.Region.Ownership
import RunOnce.Proofs.Region.Removal
import RunOnce.Proofs.Waiting.Order
import RunOnce.Proofs.Waiting.Guards
import RunOnce.Proofs.Reentrancy.Async
import RunOnce.Proofs.Exclusion.Clear
import RunOnce.Proofs.Reentrancy.Blocking
import RunOnce.Proofs.Abandon.Unwind
import RunOnce.Proofs.Value.Custody
import RunOnce.Proofs.Value.Integrity
import RunOnce.Proofs.Waiting.Pending
import RunOnce.Proofs.Reentrancy.Descent
import RunOnce.Proofs.Reentrancy.Starvation
import RunOnce.Proofs.Reentrancy.Detour
import RunOnce.Proofs.Reentrancy.Tables
import RunOnce.Proofs.Agreement.Fits
import RunOnce.Proofs.Agreement.Program
import RunOnce.Proofs.Agreement.View
import RunOnce.Proofs.Agreement.EntryPoints
import RunOnce.Proofs.Exclusion.Mirror
import RunOnce.Proofs.Exclusion.Creator
import RunOnce.Proofs.Deadlock.Freedom
import RunOnce.Proofs.Region.Failed
import RunOnce.Proofs.Region.Listing
import RunOnce.Proofs.Value.Forfeit
import RunOnce.Proofs.Region.Alive
import RunOnce.Proofs.Region.Legal
import RunOnce.Proofs.Text.Grammar
import RunOnce.Proofs.Settings.Reading
import RunOnce.Proofs.Settings.Attachable
import RunOnce.Proofs.Waiting.Desk
import RunOnce.Proofs.Waiting.Sleep
import RunOnce.Proofs.Exclusion.Late
import RunOnce.Proofs.Exclusion.Layout
