import Rulebook.Main
import Rulebook.Run.Schedule
import Rulebook.Settings.Directory
import Rulebook.Proofs.Expression.Comparison
import Rulebook.Proofs.Expression.Fragments
import Rulebook.Proofs.Expression.Updates
import Rulebook.Proofs.Registration
import Rulebook.Proofs.Rule.Acceptance
import Rulebook.Proofs.Rule.Decoding
import Rulebook.Proofs.Rule.Defects
import Rulebook.Proofs.Rule.Meaning
import Rulebook.Proofs.Rule.RequiredFields
import Rulebook.Proofs.Run.Agreement
import Rulebook.Proofs.Run.Counts
import Rulebook.Proofs.Run.Dispatch
import Rulebook.Proofs.Run.Effects
import Rulebook.Proofs.Run.Entries
import Rulebook.Proofs.Run.Isolation
import Rulebook.Proofs.Run.Losses
import Rulebook.Proofs.Run.Queue
import Rulebook.Proofs.Run.Success
import Rulebook.Proofs.Validation
import Rulebook.Proofs.Expression.Height
import Rulebook.Proofs.Expression.Copies
import Rulebook.Proofs.Expression.Integers
import Rulebook.Proofs.Expression.Numerals
import Rulebook.Proofs.Fact.Independence
import Rulebook.Proofs.Fact.Obstacles
import Rulebook.Proofs.Comparison.Chains
import Rulebook.Proofs.Rule.Growth
import Rulebook.Proofs.Template
import Rulebook.Proofs.Document.Merge
import Rulebook.Proofs.Run.Permits
import Rulebook.Proofs.Expression.Floats
import Rulebook.Proofs.Expression.Quoting
import Rulebook.Proofs.Expression.Spacing
import Rulebook.Proofs.Path.Texts
