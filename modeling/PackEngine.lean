import PackEngine.Main
import PackEngine.Playbook.Host
import PackEngine.Text.Utf8
import PackEngine.Proofs.Operation
import PackEngine.Proofs.Commands
import PackEngine.Proofs.Shape
import PackEngine.Proofs.Turns
import PackEngine.Proofs.StackOrder
import PackEngine.Proofs.Calls
import PackEngine.Proofs.Activations
import PackEngine.Proofs.Endings
import PackEngine.Proofs.Returns
import PackEngine.Proofs.Ledger
import PackEngine.Proofs.Reports
import PackEngine.Proofs.Openings
import PackEngine.Proofs.Results
import PackEngine.Proofs.Direct
import PackEngine.Proofs.Carried
import PackEngine.Proofs.DirectLines
import PackEngine.Proofs.Trampoline
import PackEngine.Proofs.DirectRuns
import PackEngine.Proofs.FreeRuns
import PackEngine.Proofs.Hearings
import PackEngine.Proofs.Arrivals
import PackEngine.Proofs.Scopes
import PackEngine.Proofs.Episodes
import PackEngine.Proofs.Conditions
import PackEngine.Proofs.Passages
import PackEngine.Proofs.CallChains
import PackEngine.Proofs.ReturnLines
import PackEngine.Proofs.Halting
import PackEngine.Proofs.Dockets
import PackEngine.Proofs.Accounts
import PackEngine.Proofs.Renamings
import PackEngine.Proofs.TwinWorlds
import PackEngine.Proofs.Twins
import PackEngine.Proofs.TwinTasks
import PackEngine.Proofs.TwinRuns
import PackEngine.Proofs.TwinTargets
import PackEngine.Proofs.Headroom
import PackEngine.Proofs.Observers
import PackEngine.Proofs.Detachments
import PackEngine.Proofs.Seams
import PackEngine.Proofs.Names
import PackEngine.Proofs.Members
import PackEngine.Proofs.Placeholders
import PackEngine.Proofs.Records
import PackEngine.Proofs.Tracers
import PackEngine.Proofs.TraceEpisodes
import PackEngine.Proofs.TraceRuns
import PackEngine.Proofs.TraceClosings
import PackEngine.Proofs.Stores
import PackEngine.Proofs.Origins
import PackEngine.Proofs.TraceRecords
import PackEngine.Proofs.TraceDepths
import PackEngine.Proofs.FaithfulTraces
import PackEngine.Proofs.Loading
import PackEngine.Proofs.Refusals
import PackEngine.Proofs.Errors
import PackEngine.Proofs.Checks
import PackEngine.Proofs.Printers
import PackEngine.Proofs.OpenLines
import PackEngine.Proofs.Completions
import PackEngine.Proofs.PrintedResults
import PackEngine.Proofs.Leaves
import PackEngine.Proofs.Forks
import PackEngine.Proofs.Failures
import PackEngine.Proofs.Tallies
import PackEngine.Proofs.CallSites
import PackEngine.Proofs.FullSinks
import PackEngine.Proofs.Instantiations
import PackEngine.Proofs.RoundTrips
import PackEngine.Proofs.Journeys
import PackEngine.Proofs.StoredScores
import PackEngine.Proofs.Errands
import PackEngine.Proofs.Standing
import PackEngine.Proofs.Privileges
import PackEngine.Proofs.Grammar
import PackEngine.Proofs.Targets
import PackEngine.Proofs.TraceLines
import PackEngine.Proofs.Composites
import PackEngine.Proofs.Totals
import PackEngine.Proofs.Indents
import PackEngine.Proofs.Stages
