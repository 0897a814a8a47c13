import BuildPlanner.Graph.Printer
import BuildPlanner.Main
import BuildPlanner.Proofs.Fault
import BuildPlanner.Proofs.Tally
import BuildPlanner.Proofs.Graph.Assembly
import BuildPlanner.Proofs.Alias.Reports
import BuildPlanner.Proofs.Alias.Visible
import BuildPlanner.Proofs.Diagnostic.Engine
import BuildPlanner.Proofs.SortedMap
import BuildPlanner.Proofs.Alias.Survey
import BuildPlanner.Proofs.Alias.Names
import BuildPlanner.Proofs.Alias.Map
import BuildPlanner.Proofs.Alias.Resolution
import BuildPlanner.Proofs.Build.Cycle
import BuildPlanner.Proofs.Build.Plan
import BuildPlanner.Proofs.Build.Reach
import BuildPlanner.Proofs.Build.Destination
import BuildPlanner.Proofs.Build.References
import BuildPlanner.Proofs.Document.Roundtrip
import BuildPlanner.Proofs.Document.Tables
import BuildPlanner.Proofs.Alias.Errors
import BuildPlanner.Proofs.Alias.Notices
import BuildPlanner.Proofs.Build.Reordering
import BuildPlanner.Proofs.Alias.Locality
import BuildPlanner.Proofs.Document.Assembled
import BuildPlanner.Proofs.Alias.Entries
import BuildPlanner.Proofs.Alias.Gathering
import BuildPlanner.Proofs.Build.Folders
import BuildPlanner.Proofs.Build.Binaries
import BuildPlanner.Proofs.Build.Coverage
import BuildPlanner.Proofs.Build.Walks
import BuildPlanner.Proofs.Build.Clash
import BuildPlanner.Proofs.Build.Policy
import BuildPlanner.Proofs.Graph.Construction
import BuildPlanner.Proofs.Diagnostic.History
import BuildPlanner.Proofs.Alias.Ambiguity
import BuildPlanner.Proofs.Alias.Dropping
import BuildPlanner.Proofs.Alias.Causes
import BuildPlanner.Proofs.Alias.Warnings
import BuildPlanner.Proofs.Alias.Duplicates
import BuildPlanner.Proofs.Build.Products
import BuildPlanner.Proofs.Build.Growth
import BuildPlanner.Proofs.Version.Order
import BuildPlanner.Proofs.Version.Grammar
import BuildPlanner.Proofs.Diagnostic.Template
import BuildPlanner.Proofs.CommandLine.Lookup
import BuildPlanner.Proofs.Build.Counts
import BuildPlanner.Proofs.Build.Printing
import BuildPlanner.Proofs.CommandLine.Status
