import FlatPlan.Compile
import FlatPlan.Datum
import FlatPlan.Datum.Access
import FlatPlan.Datum.Reader
import FlatPlan.Datum.Text
import FlatPlan.Error
import FlatPlan.Event
import FlatPlan.Flatten
import FlatPlan.Flatten.Environment
import FlatPlan.Flatten.Names
import FlatPlan.Flatten.Pass
import FlatPlan.Flatten.Shape
import FlatPlan.Galaxy.Registry
import FlatPlan.Galaxy.Setup
import FlatPlan.Keyword
import FlatPlan.NameMap
import FlatPlan.Number.Decimal
import FlatPlan.Number.Double
import FlatPlan.Number.Finite
import FlatPlan.Number.Format
import FlatPlan.Operator.Rule
import FlatPlan.Operator.Signature
import FlatPlan.Operator.Standard
import FlatPlan.Plan
import FlatPlan.Plan.Attribute
import FlatPlan.Plan.Build
import FlatPlan.Plan.Dump
import FlatPlan.Plan.Form
import FlatPlan.Plan.Same
import FlatPlan.Plan.Text
import FlatPlan.Proofs.Admissible
import FlatPlan.Proofs.AggregatePlacement
import FlatPlan.Proofs.ApartProducts
import FlatPlan.Proofs.Applications
import FlatPlan.Proofs.AttributeScope
import FlatPlan.Proofs.Bindings
import FlatPlan.Proofs.CanonicalTypes
import FlatPlan.Proofs.CheckedMode
import FlatPlan.Proofs.ChoiceTypes
import FlatPlan.Proofs.ColumnLayout
import FlatPlan.Proofs.CombineRuns
import FlatPlan.Proofs.ComposedSubstitutions
import FlatPlan.Proofs.ConstantForms
import FlatPlan.Proofs.ConstantMembers
import FlatPlan.Proofs.DistinctColumns
import FlatPlan.Proofs.DistributedChoice
import FlatPlan.Proofs.DrawnNames
import FlatPlan.Proofs.Equivariance
import FlatPlan.Proofs.Everywhere
import FlatPlan.Proofs.Expansion
import FlatPlan.Proofs.ExposedColumns
import FlatPlan.Proofs.FiniteValues
import FlatPlan.Proofs.Fitting
import FlatPlan.Proofs.FixedPoints
import FlatPlan.Proofs.FlatCombination
import FlatPlan.Proofs.FlatExpression
import FlatPlan.Proofs.FlatNames
import FlatPlan.Proofs.FlatProjection
import FlatPlan.Proofs.FlatQuery
import FlatPlan.Proofs.GalaxyTrace
import FlatPlan.Proofs.GeneratorIndependence
import FlatPlan.Proofs.Idempotence
import FlatPlan.Proofs.Inference
import FlatPlan.Proofs.Leaves
import FlatPlan.Proofs.LookupCounts
import FlatPlan.Proofs.LookupRuns
import FlatPlan.Proofs.LosslessPlans
import FlatPlan.Proofs.Meaning
import FlatPlan.Proofs.MeaningExpression
import FlatPlan.Proofs.MeaningPreservation
import FlatPlan.Proofs.MeaningRows
import FlatPlan.Proofs.Mentions
import FlatPlan.Proofs.NormalForms
import FlatPlan.Proofs.Operators
import FlatPlan.Proofs.OutputNames
import FlatPlan.Proofs.PartRuns
import FlatPlan.Proofs.PlanForms
import FlatPlan.Proofs.ProductSchemas
import FlatPlan.Proofs.Progress
import FlatPlan.Proofs.Provisioning
import FlatPlan.Proofs.QueryProgress
import FlatPlan.Proofs.RebuiltValues
import FlatPlan.Proofs.Registration
import FlatPlan.Proofs.RelabelledParts
import FlatPlan.Proofs.RelabelledRuns
import FlatPlan.Proofs.Relabelling
import FlatPlan.Proofs.Representation
import FlatPlan.Proofs.Resolution
import FlatPlan.Proofs.RestrictionFrame
import FlatPlan.Proofs.RowCuts
import FlatPlan.Proofs.RowWidth
import FlatPlan.Proofs.Run
import FlatPlan.Proofs.SampleVocabulary
import FlatPlan.Proofs.SchemaPreservation
import FlatPlan.Proofs.Schemas
import FlatPlan.Proofs.Session
import FlatPlan.Proofs.Shadowing
import FlatPlan.Proofs.Shapes
import FlatPlan.Proofs.Steps
import FlatPlan.Proofs.Substitution
import FlatPlan.Proofs.SuccessiveRuns
import FlatPlan.Proofs.TupleComparison
import FlatPlan.Proofs.TypeForms
import FlatPlan.Proofs.Typing
import FlatPlan.Proofs.Vocabulary
import FlatPlan.Reify
import FlatPlan.Sample
import FlatPlan.Schema
import FlatPlan.Settings
import FlatPlan.Settings.File
import FlatPlan.Text.Dump
import FlatPlan.Text.Hex
import FlatPlan.Text.Upper
import FlatPlan.Text.Visible
import FlatPlan.Ty
import FlatPlan.Ty.Builtin
import FlatPlan.Ty.Capability
import FlatPlan.Ty.Constant
import FlatPlan.Ty.Form
import FlatPlan.Ty.Record
import FlatPlan.Typing
import FlatPlan.Typing.Check
import FlatPlan.Universe
import FlatPlan.Value
import FlatPlan.Yaml.Cursor
import FlatPlan.Yaml.Directive
import FlatPlan.Yaml.Mapping
import FlatPlan.Yaml.Node
import FlatPlan.Yaml.Scalar
import FlatPlan.Yaml.Scalar.Block
import FlatPlan.Yaml.Scalar.Gap
import FlatPlan.Yaml.Scalar.Plain
import FlatPlan.Yaml.Scalar.Quoted
import FlatPlan.Yaml.Tag
import FlatPlan.Yaml.Token
import FlatPlan.Yaml.Token.Lexer
