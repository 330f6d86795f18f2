import TinyScript.CommandLine.Command
import TinyScript.Main
import TinyScript.Proofs.Grammar
import TinyScript.Proofs.Grammar.Soundness
import TinyScript.Proofs.Grammar.Completeness
import TinyScript.Proofs.Grammar.Unambiguity
import TinyScript.Proofs.CharacterClasses
import TinyScript.Proofs.Lexing
import TinyScript.Proofs.Scanning
import TinyScript.Proofs.Grammar.Exactness
import TinyScript.Proofs.Grammar.Readers
import TinyScript.Proofs.Grammar.Lookahead
import TinyScript.Proofs.Grammar.Viability
import TinyScript.Proofs.Grammar.ViablePrefix
import TinyScript.Proofs.WellFormed
import TinyScript.Proofs.Printing
import TinyScript.Proofs.RoundTrip
import TinyScript.Proofs.Performing
import TinyScript.Proofs.Frame
import TinyScript.Proofs.Invariant
import TinyScript.Proofs.Reachable
import TinyScript.Proofs.Renumbering
import TinyScript.Proofs.Renumbering.Simulation
import TinyScript.Proofs.Renumbering.Growth
import TinyScript.Proofs.Independence.Expressions
import TinyScript.Proofs.Independence.ArgumentOrder
import TinyScript.Proofs.Independence
import TinyScript.Proofs.Contents
import TinyScript.Proofs.ProperValues
import TinyScript.Proofs.Sessions
import TinyScript.Proofs.KnownTrees
import TinyScript.Proofs.Reporting
import TinyScript.Proofs.Executions
import TinyScript.Proofs.Concatenation
import TinyScript.Proofs.Evaluations
import TinyScript.Proofs.NumberRange
import TinyScript.Proofs.Nesting
import TinyScript.Proofs.LineByLine
import TinyScript.Proofs.Braces
import TinyScript.Proofs.Continuation
import TinyScript.Proofs.Sequencing
import TinyScript.Proofs.Calls
import TinyScript.Proofs.Pairing
import TinyScript.Proofs.Renaming
import TinyScript.Proofs.Renaming.Stores
import TinyScript.Proofs.Renaming.Parameters
import TinyScript.Proofs.Flattening
import TinyScript.Proofs.Mapping
import TinyScript.Proofs.Flattening.Runs
import TinyScript.Proofs.DepthLimit
import TinyScript.Proofs.Yield
import TinyScript.Proofs.Replay
import TinyScript.Proofs.Aliases.Stores
import TinyScript.Proofs.Aliases
import TinyScript.Proofs.Unmentioned.Stores
import TinyScript.Proofs.Unmentioned
import TinyScript.Proofs.LongestMatch
import TinyScript.Proofs.Boundaries
import TinyScript.Proofs.Spacing
import TinyScript.Proofs.Levels
import TinyScript.Proofs.Arithmetic
import TinyScript.Proofs.ReadAfterWrite
import TinyScript.Proofs.Occurrences
import TinyScript.Proofs.Parentheses
import TinyScript.Proofs.Grammar.Cursor
import TinyScript.Proofs.Grammar.Cursor.Agreement
import TinyScript.Proofs.Progress
