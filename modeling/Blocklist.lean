import Blocklist.Command.FileTree
import Blocklist.Main
import Blocklist.Proofs.CleanDomains
import Blocklist.Proofs.Command.Compile
import Blocklist.Proofs.Command.FileTree
import Blocklist.Proofs.Command.Stats
import Blocklist.Proofs.Compilation.AllowedSites
import Blocklist.Proofs.Compilation.Balance
import Blocklist.Proofs.Compilation.Ceiling
import Blocklist.Proofs.Compilation.Elements
import Blocklist.Proofs.Compilation.JoinedText
import Blocklist.Proofs.Compilation.Ranks
import Blocklist.Proofs.Compilation.RepeatedList
import Blocklist.Proofs.Compilation.Separation
import Blocklist.Proofs.Compilation.SiteExceptions
import Blocklist.Proofs.Compilation.Views
import Blocklist.Proofs.Conditions
import Blocklist.Proofs.Digest.Output
import Blocklist.Proofs.ElementLine
import Blocklist.Proofs.ExactRecords
import Blocklist.Proofs.Glob
import Blocklist.Proofs.LineByLine
import Blocklist.Proofs.Lines
import Blocklist.Proofs.NetworkLine
import Blocklist.Proofs.Numbering
import Blocklist.Proofs.Options.LastMention
import Blocklist.Proofs.Plausible
import Blocklist.Proofs.Reading
import Blocklist.Proofs.Reduction.Account
import Blocklist.Proofs.Reduction.CoveredPlaces
import Blocklist.Proofs.Reduction.Decision
import Blocklist.Proofs.Reduction.FirstPlace
import Blocklist.Proofs.Reduction.GroupTable
import Blocklist.Proofs.Reduction.Idempotent
import Blocklist.Proofs.Reduction.Literal
import Blocklist.Proofs.Reduction.Regrouping
import Blocklist.Proofs.Reduction.StandIn
import Blocklist.Proofs.Reduction.Survivors
import Blocklist.Proofs.Reduction.Unique
import Blocklist.Proofs.Reduction.Views
import Blocklist.Proofs.WellFormedRules
