import DocExamples.CommandLine
import DocExamples.Main
import DocExamples.Output.Checker
import DocExamples.Run.Suite
import DocExamples.Script.Session
import DocExamples.Symbols.Discovery
import DocExamples.Symbols.Dump
import DocExamples.Tally
import DocExamples.Transcript.Reader
import DocExamples.Proofs.Script.Bindings
import DocExamples.Proofs.Script.Compositional
import DocExamples.Proofs.Script.Nesting
import DocExamples.Proofs.Script.NestingLimit
import DocExamples.Proofs.Symbols.Loading
import DocExamples.Proofs.Symbols.Paths
import DocExamples.Proofs.Negation
import DocExamples.Proofs.Text.Numerals
import DocExamples.Proofs.Decimal
import DocExamples.Proofs.Rounding
import DocExamples.Proofs.Shortest
import DocExamples.Proofs.FloatText
import DocExamples.Proofs.Literal.Scanning
import DocExamples.Proofs.Literal.Reading
import DocExamples.Proofs.Literal.Scalars
import DocExamples.Proofs.Script.ReprLiteral
import DocExamples.Proofs.Script.Brackets
import DocExamples.Proofs.Script.TreeHeight
import DocExamples.Proofs.Script.ExpressionNesting
import DocExamples.Proofs.Script.ProgramNesting
import DocExamples.Proofs.Script.Rendering
import DocExamples.Proofs.Script.Image
import DocExamples.Proofs.Script.Taking
import DocExamples.Proofs.Script.Displays
import DocExamples.Proofs.Script.LeftGrouping
import DocExamples.Proofs.Script.RoundTrip
import DocExamples.Proofs.Script.ReprTokens
import DocExamples.Proofs.Script.ReprSource
import DocExamples.Proofs.Script.ArrayElements
import DocExamples.Proofs.Script.NestedRows
import DocExamples.Proofs.Literal.Calls
import DocExamples.Proofs.Script.ArrayRepr
import DocExamples.Proofs.Literal.Printed
import DocExamples.Proofs.Script.ArrayPrint
import DocExamples.Proofs.Script.DeepComprehensions
import DocExamples.Proofs.Script.Lexing
import DocExamples.Proofs.Script.LineEnds
import DocExamples.Proofs.Script.Layout
import DocExamples.Proofs.Script.Scoping
import DocExamples.Proofs.Script.LoopVariables
import DocExamples.Proofs.Text.Lines
import DocExamples.Proofs.Transcript.Steps
import DocExamples.Proofs.Transcript.Blocks
import DocExamples.Proofs.Transcript.Prose
import DocExamples.Proofs.Transcript.Replay
import DocExamples.Proofs.Transcript.Windows
import DocExamples.Proofs.Transcript.Directives
import DocExamples.Proofs.Transcript.Grouping
import DocExamples.Proofs.History
import DocExamples.Proofs.Run.Visits
import DocExamples.Proofs.Run.Accounting
import DocExamples.Proofs.Run.Cascades
import DocExamples.Proofs.Run.Verdicts
import DocExamples.Proofs.Records
import DocExamples.Proofs.Run.Removal
import DocExamples.Proofs.Run.Contradictions
import DocExamples.Proofs.Script.CallFrames
import DocExamples.Proofs.Script.DictKeys
import DocExamples.Proofs.Script.ArrayReads
import DocExamples.Proofs.Script.ElementAgreement
import DocExamples.Proofs.Script.ItemMutators
import DocExamples.Proofs.Script.Printing
import DocExamples.Proofs.Symbols.UnitNames
import DocExamples.Proofs.Script.Lengths
import DocExamples.Proofs.Literal.DepthLimit
import DocExamples.Proofs.Output.Ellipsis
import DocExamples.Proofs.Output.Relaxations
import DocExamples.Proofs.Literal.NamedTuples
import DocExamples.Proofs.OrderedDoubles
import DocExamples.Proofs.Output.LooserSettings
import DocExamples.Proofs.Output.Wordwise
import DocExamples.Proofs.Literal.Dictionaries
import DocExamples.Proofs.Symbols.ShadowedMembers
import DocExamples.Proofs.Symbols.QualifiedNames
import DocExamples.Proofs.Script.FailedStores
import DocExamples.Proofs.Script.Slices
import DocExamples.Proofs.Script.SliceWords
import DocExamples.Proofs.Script.IndexWords
import DocExamples.Proofs.Script.WholeArithmetic
import DocExamples.Proofs.Script.Broadcasting
import DocExamples.Proofs.Script.CallFree
import DocExamples.Proofs.Script.ComparisonChains
import DocExamples.Proofs.Script.TargetEvaluations
import DocExamples.Proofs.EqualDoubles
import DocExamples.Proofs.Script.Equality
import DocExamples.Proofs.Script.ListPositions
import DocExamples.Proofs.Script.AxisSums
import DocExamples.Proofs.Script.NestedLists
import DocExamples.Proofs.Script.Selections
import DocExamples.Proofs.Script.ArgumentBinding
import DocExamples.Proofs.Script.Counting
import DocExamples.Proofs.Literal.ArrayLeaves
import DocExamples.Proofs.Symbols.BaseOrder
