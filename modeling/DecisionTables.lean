import DecisionTables.Blob.Storage
import DecisionTables.Criteria.Cache
import DecisionTables.Criteria.Display
import DecisionTables.Definition.Writer
import DecisionTables.Function.Builtin
import DecisionTables.Proofs.Blob.RoundTrip
import DecisionTables.Proofs.Blob.Sealing
import DecisionTables.Proofs.Call.Configured
import DecisionTables.Proofs.Call.Lookup
import DecisionTables.Proofs.Call.Recognition
import DecisionTables.Proofs.Call.Rejection
import DecisionTables.Proofs.Call.Spelling
import DecisionTables.Proofs.Criteria.Cache
import DecisionTables.Proofs.Criteria.CaseFolding
import DecisionTables.Proofs.Criteria.Coercion
import DecisionTables.Proofs.Criteria.Display
import DecisionTables.Proofs.Criteria.Integers
import DecisionTables.Proofs.Criteria.Membership
import DecisionTables.Proofs.Criteria.Operators
import DecisionTables.Proofs.Criteria.Totality
import DecisionTables.Proofs.Definition.Faithfulness
import DecisionTables.Proofs.Definition.Flaws
import DecisionTables.Proofs.Definition.RoundTrip
import DecisionTables.Proofs.Path.Laws
import DecisionTables.Proofs.Path.Pointer
import DecisionTables.Proofs.Path.Reach
import DecisionTables.Proofs.Path.Spelling
import DecisionTables.Proofs.Table.Accounting
import DecisionTables.Proofs.Table.Faults
import DecisionTables.Proofs.Table.FirstMatch
import DecisionTables.Proofs.Table.Frame
import DecisionTables.Proofs.Table.Greatest
import DecisionTables.Proofs.Table.IndexedCompilation
import DecisionTables.Proofs.Table.Isolation
import DecisionTables.Proofs.Table.Merging
import DecisionTables.Proofs.Table.References
import DecisionTables.Proofs.Table.Refusal
import DecisionTables.Proofs.Table.Rerun
import DecisionTables.Proofs.Table.Resolution
import DecisionTables.Proofs.Table.RuleOrder
import DecisionTables.Proofs.Table.RuleRemoval
import DecisionTables.Proofs.Table.Selection
import DecisionTables.Proofs.Table.Snapshot
import DecisionTables.Proofs.Table.Stopping
import DecisionTables.Proofs.Table.UnusedInput
import DecisionTables.Table.Draft
import DecisionTables.Table.Execution
