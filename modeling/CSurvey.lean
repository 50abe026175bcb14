import CSurvey.Survey.Accumulate
import CSurvey.Explorer.Screen
import CSurvey.Json.SettingsReader
import CSurvey.Main
import CSurvey.Token.Splitting
import CSurvey.CommandLine.Run
import CSurvey.Proofs.Grammar.Comments
import CSurvey.Proofs.Grammar.Nesting
import CSurvey.Proofs.Expression.Completeness
import CSurvey.Proofs.Token.Tiling
import CSurvey.Proofs.Token.Written
import CSurvey.Proofs.Grammar.Statements
import CSurvey.Proofs.Grammar.Errors
import CSurvey.Proofs.Expression.Printing
import CSurvey.Proofs.Grammar.Seam
import CSurvey.Proofs.Grammar.Locality
import CSurvey.Proofs.Grammar.Extent
import CSurvey.Proofs.Grammar.Depth
import CSurvey.Proofs.Grammar.Joining
import CSurvey.Proofs.Token.Joining
import CSurvey.Proofs.Survey.Counting
import CSurvey.Proofs.Survey.Joining
import CSurvey.Proofs.Grammar.Trees
import CSurvey.Proofs.Number.Integers
import CSurvey.Proofs.Expression.RoundTrip
import CSurvey.Proofs.Grammar.Recovery
import CSurvey.Proofs.Grammar.Sifted
import CSurvey.Proofs.Grammar.Termination
import CSurvey.Proofs.Syntax.Uncommented
import CSurvey.Proofs.Token.Respelled
import CSurvey.Proofs.Grammar.Limits
import CSurvey.Proofs.Grammar.Heights
import CSurvey.Proofs.Grammar.HeightBound
import CSurvey.Proofs.Token.Lines
import CSurvey.Proofs.Explorer.Highlight
import CSurvey.Proofs.Explorer.MarkedLine
import CSurvey.Proofs.Grammar.Ends
import CSurvey.Proofs.Grammar.FailedLine
import CSurvey.Proofs.Grammar.Alone
import CSurvey.Proofs.Grammar.DirectiveLine
import CSurvey.Proofs.Members.Skipped
import CSurvey.Proofs.Grammar.NotedOnce
import CSurvey.Proofs.Survey.Order
import CSurvey.Proofs.Declaration.Bodies
import CSurvey.Proofs.Survey.Complexity
import CSurvey.Proofs.Declaration.Printing
import CSurvey.Proofs.Declaration.Parameters
import CSurvey.Proofs.Survey.Additivity
import CSurvey.Proofs.Token.Flawed
import CSurvey.Proofs.Grammar.Letters
import CSurvey.Proofs.Grammar.NestingLimit
import CSurvey.Proofs.Syntax.Outline
import CSurvey.Proofs.Listing.Rows
import CSurvey.Proofs.Listing.Trees
import CSurvey.Proofs.Text.Escaped
import CSurvey.Proofs.Listing.Tokens
import CSurvey.Proofs.Token.HeaderName
import CSurvey.Proofs.Survey.Inclusion
import CSurvey.Proofs.Grammar.Funds
import CSurvey.Proofs.Grammar.NodeCount
import CSurvey.Proofs.Explorer.Keys
import CSurvey.Proofs.Explorer.Words
import CSurvey.Proofs.Explorer.Selection
import CSurvey.Proofs.Explorer.PaneEnds
import CSurvey.Proofs.Explorer.Window
import CSurvey.Proofs.Explorer.SurveyScroll
import CSurvey.Proofs.Json.Pieces
import CSurvey.Proofs.Json.Unambiguous
import CSurvey.Proofs.Grammar.FirstEnd
import CSurvey.Proofs.Grammar.Balance
