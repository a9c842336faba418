import RecordForge.Options.Reader
import RecordForge.Proofs.Access.Absence
import RecordForge.Proofs.Access.Assignability
import RecordForge.Proofs.Access.Capabilities
import RecordForge.Proofs.Access.Copying
import RecordForge.Proofs.Access.Deeds
import RecordForge.Proofs.Access.Enumeration
import RecordForge.Proofs.Access.Equipment
import RecordForge.Proofs.Access.Hiding
import RecordForge.Proofs.Access.Inherited
import RecordForge.Proofs.Access.Initializers
import RecordForge.Proofs.Access.Mappers
import RecordForge.Proofs.Access.NullableMembers
import RecordForge.Proofs.Access.Nullables
import RecordForge.Proofs.Access.OwnedFields
import RecordForge.Proofs.Access.Places
import RecordForge.Proofs.Access.Reading
import RecordForge.Proofs.Access.Refusals
import RecordForge.Proofs.Access.RoundTrip
import RecordForge.Proofs.Access.ScalarMembers
import RecordForge.Proofs.Access.Sealing
import RecordForge.Proofs.Access.Statics
import RecordForge.Proofs.Access.Wrapper
import RecordForge.Proofs.Access.WrapperFields
import RecordForge.Proofs.Access.Writes
import RecordForge.Proofs.Construction.Accounts
import RecordForge.Proofs.Construction.Carriers
import RecordForge.Proofs.Construction.Dispatch
import RecordForge.Proofs.Construction.Endings
import RecordForge.Proofs.Construction.Errands
import RecordForge.Proofs.Construction.Matching
import RecordForge.Proofs.Construction.Notes
import RecordForge.Proofs.Construction.Parameters
import RecordForge.Proofs.Construction.Plans
import RecordForge.Proofs.Construction.Progress
import RecordForge.Proofs.Construction.Reports
import RecordForge.Proofs.Construction.Situations
import RecordForge.Proofs.Construction.Success
import RecordForge.Proofs.Construction.Survey
import RecordForge.Proofs.Construction.Visibility
import RecordForge.Proofs.Heap.Copies
import RecordForge.Proofs.Heap.Duplicates
import RecordForge.Proofs.Heap.Equality
import RecordForge.Proofs.Heap.Faces
import RecordForge.Proofs.Heap.Forms
import RecordForge.Proofs.Heap.Parts
import RecordForge.Proofs.Heap.Storage
import RecordForge.Proofs.Heap.Tidy
import RecordForge.Proofs.Layout.Acceptance
import RecordForge.Proofs.Layout.Names
import RecordForge.Proofs.Layout.OwnedSlots
import RecordForge.Proofs.Layout.ValueMembers
import RecordForge.Proofs.Registry.InPlace
import RecordForge.Proofs.Run.Bodies
import RecordForge.Proofs.Run.Depth
import RecordForge.Proofs.Run.Growth
import RecordForge.Proofs.Run.Regime
import RecordForge.Proofs.Scalar.Floats
import RecordForge.Proofs.Scalar.Integers
import RecordForge.Proofs.Scalar.Nearest
import RecordForge.Proofs.Scalar.Rounding
import RecordForge.Proofs.Scene.Answers
import RecordForge.Proofs.Scene.Basic
import RecordForge.Proofs.Scene.Bodies
import RecordForge.Proofs.Scene.Classes
import RecordForge.Proofs.Scene.Feeding
import RecordForge.Proofs.Scene.Nesting
import RecordForge.Proofs.Scene.Reach
import RecordForge.Proofs.Scene.Sound
import RecordForge.Proofs.Scene.Tidy
import RecordForge.Proofs.Schema.Conversion
import RecordForge.Proofs.Schema.Forms
import RecordForge.Proofs.Schema.Literals
import RecordForge.Proofs.Schema.Ranking
import RecordForge.Proofs.Synthesis.Evolution
import RecordForge.Proofs.Synthesis.Reach
import RecordForge.Proofs.Synthesis.Walks
import RecordForge.Proofs.Text.Binaries
import RecordForge.Proofs.Text.Digits
import RecordForge.Proofs.Text.Discrete
import RecordForge.Proofs.Text.Doubles
import RecordForge.Proofs.Text.Guids
import RecordForge.Proofs.Text.Moments
import RecordForge.Proofs.Twin.Agreement
import RecordForge.Proofs.Twin.Bodies
import RecordForge.Proofs.Twin.Constructors
import RecordForge.Proofs.Twin.Effects
import RecordForge.Proofs.Twin.Families
import RecordForge.Proofs.Twin.Heaps
import RecordForge.Proofs.Twin.Registries
import RecordForge.Proofs.Twin.Routines
import RecordForge.Proofs.Twin.Runs
import RecordForge.Proofs.Twin.Trails
import RecordForge.Proofs.Twin.Worlds
import RecordForge.Run.Operations
