import LoxSyntax.Main
import LoxSyntax.Style
import LoxSyntax.Proofs.Print.Program
import LoxSyntax.Proofs.Token.Tiling
import LoxSyntax.Proofs.Token.Newline
import LoxSyntax.Proofs.Token.Layout
import LoxSyntax.Proofs.Token.MaximalMunch
import LoxSyntax.Proofs.Parse.Concatenation
import LoxSyntax.Proofs.Parse.Height
import LoxSyntax.Proofs.Parse.Recording
import LoxSyntax.Proofs.Parse.ErrorOrder
import LoxSyntax.Proofs.Parse.Congruence
import LoxSyntax.Proofs.Parse.Cursor
import LoxSyntax.Proofs.Parse.Termination
import LoxSyntax.Proofs.Parse.GivingUp
import LoxSyntax.Proofs.Parse.Resumption
import LoxSyntax.Proofs.Parse.Formation
import LoxSyntax.Proofs.Parse.Kinds
import LoxSyntax.Proofs.Parse.Ending
import LoxSyntax.Proofs.Grammar.ExpressionUnambiguity
import LoxSyntax.Proofs.Grammar.Unambiguity
import LoxSyntax.Proofs.Print.UniqueReading
import LoxSyntax.Proofs.Session.Rendering
import LoxSyntax.Proofs.Session.Course
import LoxSyntax.Proofs.Session.Dump
import LoxSyntax.Proofs.Print.Sequence
import LoxSyntax.Proofs.Session.Script
import LoxSyntax.Proofs.Run.Outcome
import LoxSyntax.Proofs.Token.Position
import LoxSyntax.Proofs.Token.Lexer
import LoxSyntax.Proofs.Number.Nearest
import LoxSyntax.Proofs.Parse.ForExpansion
import LoxSyntax.Proofs.Parse.ElseIf
import LoxSyntax.Proofs.Parse.ViablePrefix
import LoxSyntax.Proofs.Parse.Braces
import LoxSyntax.Proofs.Parse.Depth
import LoxSyntax.Proofs.Parse.Overlong
import LoxSyntax.Proofs.Session.DumpLines
import LoxSyntax.Proofs.Run.ReportLines
