import BraceLang.Diagnostic
import BraceLang.Grammar.Basic
import BraceLang.Grammar.BindingPower
import BraceLang.Lexeme
import BraceLang.Lexer
import BraceLang.Parse
import BraceLang.Parser.Action
import BraceLang.Parser.Basic
import BraceLang.Parser.Cursor
import BraceLang.Parser.Descent
import BraceLang.Parser.Recovery
import BraceLang.Parser.Session
import BraceLang.Position
import BraceLang.Proofs.Invariance.Dependence
import BraceLang.Proofs.Invariance.Layout
import BraceLang.Proofs.Invariance.Replay
import BraceLang.Proofs.Literal.Integers
import BraceLang.Proofs.Literal.Numerals
import BraceLang.Proofs.Literal.Strings
import BraceLang.Proofs.Origin.Parts
import BraceLang.Proofs.Origin.Program
import BraceLang.Proofs.Parser.Comparison
import BraceLang.Proofs.Parser.Enclosure
import BraceLang.Proofs.Parser.Ensures
import BraceLang.Proofs.Parser.Floor
import BraceLang.Proofs.Parser.Fuel
import BraceLang.Proofs.Parser.Path
import BraceLang.Proofs.Parser.Precedence
import BraceLang.Proofs.Parser.Rules
import BraceLang.Proofs.Parser.Sessions
import BraceLang.Proofs.Parser.Settled
import BraceLang.Proofs.Parser.Simulation
import BraceLang.Proofs.Parser.Turns
import BraceLang.Proofs.Recovery.Blame
import BraceLang.Proofs.Recovery.Boundary
import BraceLang.Proofs.Recovery.Discipline
import BraceLang.Proofs.Recovery.Insertion
import BraceLang.Proofs.Recovery.Interruption
import BraceLang.Proofs.Recovery.Isolation
import BraceLang.Proofs.Recovery.Nesting
import BraceLang.Proofs.Recovery.Segments
import BraceLang.Proofs.Render.Derived
import BraceLang.Proofs.Render.RoundTrip
import BraceLang.Proofs.Render.Scanned
import BraceLang.Proofs.Render.Spellings
import BraceLang.Proofs.Scan.Gaps
import BraceLang.Proofs.Scan.Languages
import BraceLang.Proofs.Scan.LongestMatch
import BraceLang.Proofs.Scan.Scans
import BraceLang.Proofs.Scan.Spelling
import BraceLang.Proofs.Scan.Tiling
import BraceLang.Proofs.Scan.Units
import BraceLang.Proofs.Syntax.Complete
import BraceLang.Proofs.Syntax.Derivation
import BraceLang.Proofs.Syntax.Earliest
import BraceLang.Proofs.Syntax.Program
import BraceLang.Proofs.Syntax.Sound
import BraceLang.Proofs.Syntax.Standard
import BraceLang.Proofs.Syntax.Viable
import BraceLang.Proofs.Token.Buffer
import BraceLang.Proofs.Tree.Erasure
import BraceLang.Proofs.Tree.Nodes
import BraceLang.Scanner
import BraceLang.Text.Blank
import BraceLang.Text.Combining
import BraceLang.Text.Ignorable
import BraceLang.Text.Numeral
import BraceLang.Text.Offset
import BraceLang.Text.Quoted
import BraceLang.Text.Ranges
import BraceLang.Text.Unprintable
import BraceLang.Token.Basic
import BraceLang.Token.Buffer
import BraceLang.Token.Source
import BraceLang.Tree.Basic
import BraceLang.Tree.Equality
import BraceLang.Tree.Render
