import BoundedGo.Emission
import BoundedGo.Main
import BoundedGo.Parse.Source
import BoundedGo.Proofs.Acceptance
import BoundedGo.Proofs.Annotations
import BoundedGo.Proofs.Answers
import BoundedGo.Proofs.ArrayWidths
import BoundedGo.Proofs.Calculations
import BoundedGo.Proofs.ChannelUses
import BoundedGo.Proofs.Clearing
import BoundedGo.Proofs.Climbing
import BoundedGo.Proofs.Continuing
import BoundedGo.Proofs.Coverage
import BoundedGo.Proofs.Decimal
import BoundedGo.Proofs.DefinedNames
import BoundedGo.Proofs.Delivery
import BoundedGo.Proofs.EntryAssertion
import BoundedGo.Proofs.EntryNames
import BoundedGo.Proofs.ExactPositions
import BoundedGo.Proofs.Fallbacks
import BoundedGo.Proofs.FaultPaths
import BoundedGo.Proofs.Framing
import BoundedGo.Proofs.Headers
import BoundedGo.Proofs.HelperBodies
import BoundedGo.Proofs.InitializedNames
import BoundedGo.Proofs.Inlining
import BoundedGo.Proofs.IntegerLiterals
import BoundedGo.Proofs.IntegerValues
import BoundedGo.Proofs.IntegerWitnesses
import BoundedGo.Proofs.Joining
import BoundedGo.Proofs.Layering
import BoundedGo.Proofs.Layout
import BoundedGo.Proofs.Legibility
import BoundedGo.Proofs.Lexemes
import BoundedGo.Proofs.LiteralForms
import BoundedGo.Proofs.LiteralTrees
import BoundedGo.Proofs.LookingAhead
import BoundedGo.Proofs.Mappable
import BoundedGo.Proofs.Meaning
import BoundedGo.Proofs.Modes
import BoundedGo.Proofs.Names
import BoundedGo.Proofs.Occurrence
import BoundedGo.Proofs.OperatorGrammar
import BoundedGo.Proofs.OperatorTrees
import BoundedGo.Proofs.Outcomes
import BoundedGo.Proofs.ParameterLists
import BoundedGo.Proofs.ProgramReading
import BoundedGo.Proofs.ProgramTexts
import BoundedGo.Proofs.Progress
import BoundedGo.Proofs.Propagation
import BoundedGo.Proofs.Punctuation
import BoundedGo.Proofs.Reading
import BoundedGo.Proofs.Records
import BoundedGo.Proofs.RegularTrees
import BoundedGo.Proofs.Regularity
import BoundedGo.Proofs.Rejections
import BoundedGo.Proofs.Renaming
import BoundedGo.Proofs.Rescanning
import BoundedGo.Proofs.Respelling
import BoundedGo.Proofs.ResultNames
import BoundedGo.Proofs.Scopes
import BoundedGo.Proofs.Shapes
import BoundedGo.Proofs.Showing
import BoundedGo.Proofs.Signatures
import BoundedGo.Proofs.SingleDefinition
import BoundedGo.Proofs.Spellings
import BoundedGo.Proofs.StructWidths
import BoundedGo.Proofs.Taking
import BoundedGo.Proofs.TargetTrees
import BoundedGo.Proofs.Termination
import BoundedGo.Proofs.Tiling
import BoundedGo.Proofs.Trivia
import BoundedGo.Proofs.TypeDeclarations
import BoundedGo.Proofs.TypeReading
import BoundedGo.Proofs.TypeTexts
import BoundedGo.Proofs.TypeTrees
import BoundedGo.Proofs.ValueForms
import BoundedGo.Proofs.Yielding
import BoundedGo.Restriction
import BoundedGo.Session
import BoundedGo.Target.Width
import BoundedGo.Text.Blank
import BoundedGo.Translation
