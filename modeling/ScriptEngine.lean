import ScriptEngine.Text.Case
import ScriptEngine.Text.Pieces
import ScriptEngine.Text.Charset
import ScriptEngine.Tree.Render
import ScriptEngine.Parser.Grammar
import ScriptEngine.Main
import ScriptEngine.Value.Text
import ScriptEngine.Value.Equality
import ScriptEngine.Proofs.Discipline
import ScriptEngine.Proofs.Restoration
import ScriptEngine.Proofs.Budget
import ScriptEngine.Proofs.LoopFree
import ScriptEngine.Proofs.Nesting
import ScriptEngine.Proofs.Termination
import ScriptEngine.Proofs.RoundTrip
import ScriptEngine.Proofs.Overriding
import ScriptEngine.Proofs.Recovery
import ScriptEngine.Proofs.Bisimilarity
import ScriptEngine.Proofs.Positions
import ScriptEngine.Proofs.Totality
import ScriptEngine.Proofs.Overloads
import ScriptEngine.Proofs.StaticBlocks
import ScriptEngine.Proofs.HostReads
import ScriptEngine.Proofs.DeclaredTypes
import ScriptEngine.Proofs.Sequencing
import ScriptEngine.Proofs.ScopeChains
import ScriptEngine.Proofs.BlockStructure
import ScriptEngine.Proofs.Interpolation
import ScriptEngine.Proofs.StoredValues
import ScriptEngine.Proofs.CallCount
import ScriptEngine.Proofs.HostTrips
import ScriptEngine.Proofs.HostSymmetry
import ScriptEngine.Proofs.QueueOrder
import ScriptEngine.Proofs.LineBreaks
import ScriptEngine.Proofs.Rounding
import ScriptEngine.Proofs.ShortestDigits
import ScriptEngine.Proofs.PlainNumbers
import ScriptEngine.Proofs.ParsedPlaces
import ScriptEngine.Proofs.LiteralTrips
import ScriptEngine.Proofs.Awaiting
import ScriptEngine.Proofs.CrossedErrors
import ScriptEngine.Proofs.ErrorPlaces
import ScriptEngine.Proofs.Attempts
import ScriptEngine.Proofs.Concatenation
import ScriptEngine.Proofs.Texts
import ScriptEngine.Proofs.Encoding
import ScriptEngine.Proofs.Ranges
import ScriptEngine.Proofs.Substrings
import ScriptEngine.Proofs.Slices
import ScriptEngine.Proofs.Delimiters
import ScriptEngine.Proofs.ByteAccess
import ScriptEngine.Proofs.Respacing
import ScriptEngine.Proofs.LexicalFaults
import ScriptEngine.Proofs.Repetition
import ScriptEngine.Proofs.AnchoredTrees
import ScriptEngine.Proofs.ImportPaths
import ScriptEngine.Proofs.ParentLinks
