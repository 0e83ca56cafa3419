import RuleEngine.Engine.Basic
import RuleEngine.Json.Codec
import RuleEngine.Proofs.Token.RoundTrip
import RuleEngine.Proofs.Parse.Reachable
import RuleEngine.Proofs.Evaluate.Semantics
import RuleEngine.Proofs.Evaluate.Simulation
import RuleEngine.Proofs.Evaluate.Adequacy
import RuleEngine.Proofs.Evaluate.Safety
import RuleEngine.Proofs.Standard.Agreement
import RuleEngine.Proofs.Registry.Validation
import RuleEngine.Proofs.Engine.Limits
import RuleEngine.Proofs.Standard.Stored
import RuleEngine.Proofs.Engine.Extension
import RuleEngine.Proofs.Standard.Scoping
import RuleEngine.Proofs.Standard.Termination
import RuleEngine.Proofs.Standard.Spellings
import RuleEngine.Proofs.Parse.Effort
import RuleEngine.Proofs.Schedule.Depth
import RuleEngine.Proofs.Token.Partition
import RuleEngine.Proofs.Evaluate.Cost
import RuleEngine.Proofs.Evaluate.Traversal
import RuleEngine.Proofs.Parse.Snapshot
import RuleEngine.Proofs.Standard.Currying
import RuleEngine.Proofs.Engine.Alone
import RuleEngine.Proofs.Token.Chain
import RuleEngine.Proofs.Registry.Notation
import RuleEngine.Proofs.Standard.Shapes
import RuleEngine.Proofs.Json.RoundTrip
import RuleEngine.Proofs.Token.Delimited
import RuleEngine.Proofs.Evaluate.Appended
import RuleEngine.Proofs.Evaluate.Descent
