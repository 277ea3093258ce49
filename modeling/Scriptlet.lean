import Scriptlet.LineIndex
import Scriptlet.Main
import Scriptlet.Value.Equality
import Scriptlet.Proofs.Grammar
import Scriptlet.Proofs.Parsing
import Scriptlet.Proofs.Grammar.Acceptance
import Scriptlet.Proofs.Grammar.Reading
import Scriptlet.Proofs.Grammar.Completion
import Scriptlet.Proofs.Grammar.Recognition
import Scriptlet.Proofs.Grammar.Refusal
import Scriptlet.Proofs.Lexing
import Scriptlet.Proofs.Faults
import Scriptlet.Proofs.Compilation
import Scriptlet.Proofs.Diagnosis
import Scriptlet.Proofs.Lexing.LineBreak
import Scriptlet.Proofs.Grammar.Moving
import Scriptlet.Proofs.Mirroring
import Scriptlet.Proofs.Outputs
import Scriptlet.Proofs.Joining
import Scriptlet.Proofs.Nodes.Members
import Scriptlet.Proofs.Grammar.Spelling
import Scriptlet.Proofs.Lexing.Surroundings
import Scriptlet.Proofs.Lexing.Writing
import Scriptlet.Proofs.Lexing.LongestMatch
import Scriptlet.Proofs.Lexing.Munching
import Scriptlet.Proofs.Slices
import Scriptlet.Proofs.Inputs
import Scriptlet.Proofs.Nodes.WellFormed
import Scriptlet.Proofs.Rendering
import Scriptlet.Proofs.Json.Numbers
import Scriptlet.Proofs.Json.Strings
import Scriptlet.Proofs.Json.Lexing
import Scriptlet.Proofs.Json.Parsing
import Scriptlet.Proofs.Decoding.Records
import Scriptlet.Proofs.Decoding.Forms
import Scriptlet.Proofs.Decoding
import Scriptlet.Proofs.Decoding.Bounds
import Scriptlet.Proofs.TreeForms
import Scriptlet.Proofs.Pipelines
import Scriptlet.Proofs.Nesting
import Scriptlet.Proofs.Parsing.Moving
import Scriptlet.Proofs.Layout
import Scriptlet.Proofs.Purity
import Scriptlet.Proofs.Reaching
import Scriptlet.Proofs.Atomicity
import Scriptlet.Proofs.KnownOperators
import Scriptlet.Proofs.Bindings
import Scriptlet.Proofs.Keeping
import Scriptlet.Proofs.Effects
import Scriptlet.Proofs.Heaps
import Scriptlet.Proofs.References
import Scriptlet.Proofs.Slots
import Scriptlet.Proofs.Names
import Scriptlet.Proofs.Coupling
import Scriptlet.Proofs.Printing
import Scriptlet.Proofs.Truncation
import Scriptlet.Proofs.Independence
import Scriptlet.Proofs.BoundNames
import Scriptlet.Proofs.Bisimilarity
import Scriptlet.Proofs.Unrolling
import Scriptlet.Proofs.Display
import Scriptlet.Proofs.Edits
import Scriptlet.Proofs.Refusals
import Scriptlet.Proofs.Suggestions
import Scriptlet.Proofs.Comparisons
import Scriptlet.Proofs.Chains.Extrema
import Scriptlet.Proofs.Chains.Sums
import Scriptlet.Proofs.Inputs.Pasting
import Scriptlet.Proofs.Literals.Spelling
import Scriptlet.Proofs.Literals
import Scriptlet.Proofs.ValueInvariants
import Scriptlet.Proofs.ValueInvariants.Runs
import Scriptlet.Proofs.Visiting
import Scriptlet.Proofs.Acyclicity
