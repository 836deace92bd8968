import TemplateEngine.Main
import TemplateEngine.Environment.Listing
import TemplateEngine.Proofs.Environment.Comments
import TemplateEngine.Proofs.Environment.Errors
import TemplateEngine.Proofs.Environment.Outline
import TemplateEngine.Proofs.Environment.Verbatim
import TemplateEngine.Proofs.Document.Paths
import TemplateEngine.Proofs.Expr.Precedence
import TemplateEngine.Proofs.Expr.RoundTrip
import TemplateEngine.Proofs.Lexer.Concatenation
import TemplateEngine.Proofs.Lexer.Iterations
import TemplateEngine.Proofs.Lexer.LongestOperator
import TemplateEngine.Proofs.Lexer.Unclosed
import TemplateEngine.Proofs.Lexer.WordOperators
import TemplateEngine.Proofs.Lexer.WrittenComments
import TemplateEngine.Proofs.Render.Autoescape
import TemplateEngine.Proofs.Render.Interpolation
import TemplateEngine.Proofs.Render.Names
import TemplateEngine.Proofs.Render.Scopes
import TemplateEngine.Proofs.Render.Strictness
import TemplateEngine.Proofs.Script.BlockComments
import TemplateEngine.Proofs.Script.Comments
import TemplateEngine.Proofs.Script.Literals
import TemplateEngine.Proofs.Script.LoopNames
import TemplateEngine.Proofs.Script.Markers
import TemplateEngine.Proofs.Script.Powers
import TemplateEngine.Proofs.Script.Reading
import TemplateEngine.Proofs.Script.Scopes
import TemplateEngine.Proofs.TokenStream
import TemplateEngine.Proofs.Lexer.Literals
import TemplateEngine.Proofs.Expr.Repeats
import TemplateEngine.Proofs.Document.Strings
import TemplateEngine.Proofs.Environment.Literals
import TemplateEngine.Proofs.Decimal.Rounding
import TemplateEngine.Proofs.Decimal.Shortest
import TemplateEngine.Proofs.Decimal.Integers
import TemplateEngine.Proofs.Json.Equality
import TemplateEngine.Proofs.Render.Equality
import TemplateEngine.Proofs.Render.Integers
import TemplateEngine.Proofs.Render.Join
import TemplateEngine.Proofs.Document.Blocks
import TemplateEngine.Proofs.Environment.Enclosing
import TemplateEngine.Proofs.Document.Children
import TemplateEngine.Proofs.Lexer.Trimming
import TemplateEngine.Proofs.Lexer.Spans
import TemplateEngine.Proofs.Environment.Numbers
import TemplateEngine.Proofs.Render.Entities
import TemplateEngine.Proofs.Document.Erasure
import TemplateEngine.Proofs.Document.Visits
import TemplateEngine.Proofs.Document.Endings
