import Marginalia.Main
import Marginalia.Proofs.Blanking
import Marginalia.Proofs.CarriageReturns
import Marginalia.Proofs.Colours
import Marginalia.Proofs.CommentLines
import Marginalia.Proofs.DepthCounting
import Marginalia.Proofs.EscapeParity
import Marginalia.Proofs.FileResults
import Marginalia.Proofs.Formats
import Marginalia.Proofs.IdleRules
import Marginalia.Proofs.Isolation
import Marginalia.Proofs.Joining
import Marginalia.Proofs.JsonReports
import Marginalia.Proofs.LineEndings
import Marginalia.Proofs.LineSearch
import Marginalia.Proofs.LiteralBodies
import Marginalia.Proofs.Messages
import Marginalia.Proofs.MissingClose
import Marginalia.Proofs.NestingSwitch
import Marginalia.Proofs.OffsetSafety
import Marginalia.Proofs.Outline
import Marginalia.Proofs.PathLists
import Marginalia.Proofs.Records
import Marginalia.Proofs.Rendering
import Marginalia.Proofs.SizeGrammar
import Marginalia.Proofs.UpperCase
import Marginalia.Proofs.WalkFilters
import Marginalia.Run
