import LineScript.Main
import LineScript.Proofs.Matching
import LineScript.Proofs.Expansion
import LineScript.Proofs.BlockGrammar
import LineScript.Proofs.BlockTree
import LineScript.Proofs.Discipline
import LineScript.Proofs.ScopeStore
import LineScript.Proofs.Structured
import LineScript.Proofs.FlagPassing
import LineScript.Proofs.Conduct
import LineScript.Proofs.Reading
import LineScript.Proofs.Isolation
import LineScript.Proofs.Rendering
import LineScript.Proofs.ExpressionReading
import LineScript.Proofs.CallBalance
import LineScript.Proofs.Blur
import LineScript.Proofs.Splicing
import LineScript.Proofs.NodeLines
import LineScript.Proofs.Located
import LineScript.Proofs.Provenance
import LineScript.Proofs.Attribution
import LineScript.Proofs.Twins
import LineScript.Proofs.Masking
import LineScript.Proofs.MaskedForms
import LineScript.Proofs.StringBlindness
import LineScript.Proofs.LongIntegers
import LineScript.Proofs.Undivided
import LineScript.Proofs.Captures
import LineScript.Proofs.OneLineBlocks
import LineScript.Proofs.Watched
import LineScript.Proofs.Watching
import LineScript.Proofs.WellFormed
import LineScript.Proofs.Holdings
import LineScript.Proofs.FlagContainment
import LineScript.Proofs.Keeping
import LineScript.Proofs.NeverStuck
import LineScript.Proofs.WellKinded
import LineScript.Proofs.Chronicle
import LineScript.Proofs.Chronicled
import LineScript.Proofs.ScriptValue
import LineScript.Proofs.HostEvents
import LineScript.Proofs.Handling
import LineScript.Proofs.Messages
import LineScript.Proofs.KeptLines
import LineScript.Proofs.StackTraces
import LineScript.Proofs.Excerpts
import LineScript.Proofs.Inclusions
import LineScript.Proofs.Escapes
import LineScript.Proofs.DecimalValue
import LineScript.Proofs.ReadingBack
import LineScript.Proofs.Sessions
import LineScript.Proofs.Rounding
import LineScript.Proofs.Fitting
import LineScript.Proofs.DecimalArithmetic
import LineScript.Proofs.NumberArithmetic
import LineScript.Proofs.EqualNumbers
import LineScript.Proofs.CorrectRounding
import LineScript.Proofs.ExactRemainders
import LineScript.Proofs.SignChange
import LineScript.Proofs.TotalOrder
import LineScript.Proofs.ChainedStore
import LineScript.Proofs.FiniteArithmetic
import LineScript.Proofs.FiniteLiterals
import LineScript.Proofs.FiniteValues
import LineScript.Proofs.StatementCuts
import LineScript.Proofs.SymbolTables
import LineScript.Proofs.PathOverrides
import LineScript.Proofs.OperatorNames
import LineScript.Proofs.OperatorChange
import LineScript.Proofs.TextReading
import LineScript.Proofs.ReadAnywhere
import LineScript.Proofs.CompoundAssignment
import LineScript.Proofs.OperatorScan
import LineScript.Proofs.StringLiterals
import LineScript.Proofs.ImportList
import LineScript.Proofs.Marshalling
import LineScript.Proofs.SessionOutput
import LineScript.Proofs.Retries
import LineScript.Proofs.MaskedLiterals
