import NavCheck.Main
import NavCheck.Proofs.Evaluation
import NavCheck.Proofs.LoweringMeaning
import NavCheck.Proofs.Derivation
import NavCheck.Proofs.TokenOrder
import NavCheck.Proofs.Passing
import NavCheck.Proofs.Marks
import NavCheck.Proofs.LaidUnit
import NavCheck.Proofs.Sites
import NavCheck.Proofs.Tracing
import NavCheck.Proofs.Visits
import NavCheck.Proofs.Outlines
import NavCheck.Proofs.NameAgreement
import NavCheck.Proofs.Scoping
import NavCheck.Proofs.References
import NavCheck.Proofs.Guards
import NavCheck.Proofs.Rejections
import NavCheck.Proofs.KeptChains
import NavCheck.Proofs.ChainRecords
import NavCheck.Proofs.Written
import NavCheck.Proofs.Legible
import NavCheck.Proofs.Alike
import NavCheck.Proofs.WrittenTokens
import NavCheck.Proofs.Spelling
import NavCheck.Proofs.Scanning
import NavCheck.Proofs.Steps
import NavCheck.Proofs.ReadBack
import NavCheck.Proofs.Spellable
import NavCheck.Proofs.RoundTrip
import NavCheck.Proofs.WellFormed
import NavCheck.Proofs.Runs
import NavCheck.Proofs.KnownTypes
import NavCheck.Proofs.KnownTables
import NavCheck.Proofs.KnownExpressions
import NavCheck.Proofs.KnownUnits
import NavCheck.Proofs.Substitution
import NavCheck.Proofs.Meanings
import NavCheck.Proofs.ClosedTables
import NavCheck.Proofs.ClosedUnits
import NavCheck.Proofs.Lineages
import NavCheck.Proofs.Instantiation
import NavCheck.Proofs.Layout.Relocation
import NavCheck.Proofs.Layout.Expressions
import NavCheck.Proofs.Layout.Declarations
import NavCheck.Proofs.Layout.Capture
import NavCheck.Proofs.Layout.Tables
import NavCheck.Proofs.Layout.Lowering
import NavCheck.Proofs.Layout.Typing
import NavCheck.Proofs.Layout.Bodies
import NavCheck.Proofs.Layout.Packing
import NavCheck.Proofs.Layout.Lexemes
import NavCheck.Proofs.Layout.Sources
import NavCheck.Proofs.Assignability
import NavCheck.Proofs.SameTables
import NavCheck.Proofs.SameTyping
import NavCheck.Proofs.DeclarationOrder
import NavCheck.Proofs.Cuts
import NavCheck.Proofs.Grammar
import NavCheck.Proofs.Recovery
import NavCheck.Proofs.Productions
import NavCheck.Proofs.CapturedFields
import NavCheck.Proofs.Lockstep
import NavCheck.Proofs.Isolation
import NavCheck.Proofs.Places.Syntax
import NavCheck.Proofs.Places.Expressions
import NavCheck.Proofs.Places.Declarations
import NavCheck.Proofs.Places.Capture
import NavCheck.Proofs.Places.Tables
import NavCheck.Proofs.Places.Typing
import NavCheck.Proofs.Places.Sources
import NavCheck.Proofs.Progress.Descents
import NavCheck.Proofs.Progress.Parsers
import NavCheck.Proofs.Grammar.Expressions
import NavCheck.Proofs.Grammar.Soundness
import NavCheck.Proofs.KeyedNames
import NavCheck.Proofs.Arguments
import NavCheck.Proofs.Branches.Texts
import NavCheck.Proofs.Temporaries
import NavCheck.Proofs.KeptSource
import NavCheck.Proofs.Hereditary
import NavCheck.Proofs.HereditaryTyping
import NavCheck.Proofs.NullableOnce
import NavCheck.Proofs.TypedChains
import NavCheck.Proofs.LoweredTypes
import NavCheck.Proofs.ChainResults
import NavCheck.Proofs.SuggestedFields
import NavCheck.Proofs.LongRows
import NavCheck.Proofs.LegalModifiers
import NavCheck.Proofs.QuotedTexts
import NavCheck.Proofs.WrittenTypes
import NavCheck.Proofs.BaseCircles
import NavCheck.Proofs.HiddenVoid
import NavCheck.Proofs.Lines
import NavCheck.Proofs.Snippets
import NavCheck.Proofs.OneLine
import NavCheck.Proofs.MalformedTokens
import NavCheck.Proofs.Composition
import NavCheck.Proofs.ChainRecovery
