import JuiceSyntax.Main
import JuiceSyntax.Proofs.Command.TreeRows
import JuiceSyntax.Proofs.Comment
import JuiceSyntax.Proofs.Diagnostic.Alignment
import JuiceSyntax.Proofs.Diagnostic.Order
import JuiceSyntax.Proofs.Document
import JuiceSyntax.Proofs.Grammar.Accounting
import JuiceSyntax.Proofs.Grammar.BlockResumption
import JuiceSyntax.Proofs.Grammar.Braceless
import JuiceSyntax.Proofs.Grammar.DepthLimit
import JuiceSyntax.Proofs.Grammar.DumpFidelity
import JuiceSyntax.Proofs.Grammar.EntryPoints
import JuiceSyntax.Proofs.Grammar.Exactness
import JuiceSyntax.Proofs.Grammar.FaultCount
import JuiceSyntax.Proofs.Grammar.FaultLimit
import JuiceSyntax.Proofs.Grammar.Finishing
import JuiceSyntax.Proofs.Grammar.LayoutIndependence
import JuiceSyntax.Proofs.Grammar.Leaves
import JuiceSyntax.Proofs.Grammar.LineStrings
import JuiceSyntax.Proofs.Grammar.Memory
import JuiceSyntax.Proofs.Grammar.Moving
import JuiceSyntax.Proofs.Grammar.Nesting
import JuiceSyntax.Proofs.Grammar.NotedBodies
import JuiceSyntax.Proofs.Grammar.Pairing
import JuiceSyntax.Proofs.Grammar.Patterns
import JuiceSyntax.Proofs.Grammar.Positions
import JuiceSyntax.Proofs.Grammar.Precedence
import JuiceSyntax.Proofs.Grammar.Relocation
import JuiceSyntax.Proofs.Grammar.Rollback
import JuiceSyntax.Proofs.Grammar.Shape
import JuiceSyntax.Proofs.Grammar.StrictMode
import JuiceSyntax.Proofs.Grammar.StructuralFaults
import JuiceSyntax.Proofs.Grammar.Transparency
import JuiceSyntax.Proofs.Grammar.TypeGrammar
import JuiceSyntax.Proofs.Safety
import JuiceSyntax.Proofs.Source.LineMap
import JuiceSyntax.Proofs.Token.Integers
import JuiceSyntax.Proofs.Token.Pieces
import JuiceSyntax.Proofs.Token.Tiling
