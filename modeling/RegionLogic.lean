import RegionLogic.Main
import RegionLogic.Region.Edit
import RegionLogic.Proofs.Access.Elimination
import RegionLogic.Proofs.Access.Inlining
import RegionLogic.Proofs.Access.Stripping
import RegionLogic.Proofs.Cleanup.Repetition
import RegionLogic.Proofs.Cleanup.Survivors
import RegionLogic.Proofs.Cleanup.Report
import RegionLogic.Proofs.Cleanup.Simplified
import RegionLogic.Proofs.CommandLine.Cycles
import RegionLogic.Proofs.Modifier.Reduction
import RegionLogic.Proofs.Relabelling
import RegionLogic.Proofs.Requirement.ClauseBranch
import RegionLogic.Proofs.Requirement.Places
import RegionLogic.Proofs.World.DataModule
import RegionLogic.Proofs.World.Loading
import RegionLogic.Proofs.Waypoint.Inverse
import RegionLogic.Proofs.Modifier.Stretches
import RegionLogic.Proofs.Region.Validation
import RegionLogic.Proofs.Waypoint.Mentions
import RegionLogic.Proofs.Waypoint.Candidates
import RegionLogic.Proofs.Requirement.Circle
import RegionLogic.Proofs.Requirement.Occurrence
import RegionLogic.Proofs.Settings.Merge
import RegionLogic.Proofs.Settings.Environment
import RegionLogic.Proofs.Term.Parameters
import RegionLogic.Proofs.Requirement.Conditions
import RegionLogic.Proofs.Modifier.Kinds
import RegionLogic.Proofs.World.Drawing
