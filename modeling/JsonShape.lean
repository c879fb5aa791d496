import JsonShape.Entries
import JsonShape.Failure.Basic
import JsonShape.Path.Basic
import JsonShape.Proofs.Acceptance
import JsonShape.Proofs.Accounting
import JsonShape.Proofs.Agreement
import JsonShape.Proofs.Ancestry
import JsonShape.Proofs.Answering
import JsonShape.Proofs.Batches
import JsonShape.Proofs.Building
import JsonShape.Proofs.Clients
import JsonShape.Proofs.Coherence
import JsonShape.Proofs.Congruence
import JsonShape.Proofs.Declaring
import JsonShape.Proofs.Descent
import JsonShape.Proofs.Equality
import JsonShape.Proofs.Evidence
import JsonShape.Proofs.Evolution
import JsonShape.Proofs.FirstMismatch
import JsonShape.Proofs.FirstRegistration
import JsonShape.Proofs.Introspection
import JsonShape.Proofs.Layering
import JsonShape.Proofs.Leaves
import JsonShape.Proofs.Listing
import JsonShape.Proofs.Outcome
import JsonShape.Proofs.PathText
import JsonShape.Proofs.Reading
import JsonShape.Proofs.Rebasing
import JsonShape.Proofs.RegistryHistory
import JsonShape.Proofs.Rendering
import JsonShape.Proofs.Substitution
import JsonShape.Proofs.TableHistory
import JsonShape.Proofs.Undeclared
import JsonShape.Proofs.Writing
import JsonShape.Registry.Basic
import JsonShape.Registry.History
import JsonShape.Registry.Table
import JsonShape.Schema.Basic
import JsonShape.Schema.Builder
import JsonShape.Schema.Description
import JsonShape.Schema.Equality
import JsonShape.Schema.Layers
import JsonShape.Schema.WellFormed
import JsonShape.Validation.Basic
import JsonShape.Validation.Exhaustive
import JsonShape.Validation.Inspection
import JsonShape.Validation.Selection
import JsonShape.Value.Basic
import JsonShape.Value.Navigation
