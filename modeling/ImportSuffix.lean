import ImportSuffix.Config.Reader
import ImportSuffix.Main
import ImportSuffix.Pattern.Reader
import ImportSuffix.Proofs.Quoted
import ImportSuffix.Proofs.Revision
import ImportSuffix.Proofs.SuffixClause
import ImportSuffix.Proofs.Repetition
import ImportSuffix.Proofs.Sweep
import ImportSuffix.Proofs.SuffixPatterns
import ImportSuffix.Proofs.SuffixMatches
import ImportSuffix.Proofs.SuffixRules
import ImportSuffix.Proofs.SuffixRewrite
import ImportSuffix.Proofs.ClauseCount
import ImportSuffix.Proofs.Convergence
import ImportSuffix.Proofs.JoinedPath
import ImportSuffix.Proofs.Outline
import ImportSuffix.Proofs.Route
import ImportSuffix.Proofs.Discovered
import ImportSuffix.Proofs.FixStep
import ImportSuffix.Proofs.Visits
import ImportSuffix.Proofs.ReportTruth
import ImportSuffix.Proofs.SecondRun
import ImportSuffix.Proofs.RuleOrder
import ImportSuffix.Proofs.Separation
import ImportSuffix.Proofs.ExportStatement
import ImportSuffix.Proofs.JsonGrammar
import ImportSuffix.Proofs.JsonForm
import ImportSuffix.Proofs.JsonPrinted
import ImportSuffix.Proofs.Calls
import ImportSuffix.Proofs.Envelopes
import ImportSuffix.Proofs.FixOutcome
import ImportSuffix.Proofs.QuotedLiteral
import ImportSuffix.Proofs.Extension
import ImportSuffix.Proofs.ConfigText
import ImportSuffix.Proofs.ConfigAnswer
import ImportSuffix.Proofs.StoreLaws
import ImportSuffix.Proofs.LineFeeds
import ImportSuffix.Proofs.LineEndings
import ImportSuffix.Proofs.Tiling
import ImportSuffix.Proofs.HandOff
