import Deduction.Main
import Deduction.Term.Rename
import Deduction.Proofs.Analysis.Negation
import Deduction.Proofs.Backtracking.Answers
import Deduction.Proofs.Datalog.Answers
import Deduction.Proofs.Groundness.Answers
import Deduction.Proofs.Search.Exhaustion
import Deduction.Proofs.Search.Indexing
import Deduction.Proofs.Search.Limit
import Deduction.Proofs.Bindings.Unification
import Deduction.Proofs.Store.Levels
import Deduction.Proofs.Termination.Answers
import Deduction.Proofs.Theory.Candidates
import Deduction.Proofs.Variants.Answers
import Deduction.Proofs.Calls.Answers
import Deduction.Proofs.Program.Splitting
import Deduction.Proofs.Program.Updates
import Deduction.Proofs.Syntax.RoundTrip
import Deduction.Proofs.Syntax.Flattening
import Deduction.Proofs.Syntax.Tiling
import Deduction.Proofs.Store.Matching
import Deduction.Proofs.Program.Changes
import Deduction.Proofs.Program.Simultaneous
import Deduction.Proofs.Theory.Elimination
import Deduction.Proofs.Search.TemporaryRules
import Deduction.Proofs.Search.Aggregates
import Deduction.Proofs.Analysis.Reordering
import Deduction.Proofs.Renaming
import Deduction.Proofs.Paging
import Deduction.Proofs.Decimal.Readings
import Deduction.Proofs.Store.MostGeneral
