import RouteAudit.Main
import RouteAudit.Proofs.Resolution
import RouteAudit.Proofs.Unused
import RouteAudit.Proofs.Prefilter
import RouteAudit.Proofs.Opacity
import RouteAudit.Proofs.PageAddress
import RouteAudit.Proofs.FilePath
import RouteAudit.Proofs.Walk
import RouteAudit.Proofs.Collected
import RouteAudit.Proofs.Sorting
import RouteAudit.Proofs.Without
import RouteAudit.Proofs.Isolation
import RouteAudit.Proofs.Regroup
import RouteAudit.Proofs.Face
import RouteAudit.Proofs.Transparency
import RouteAudit.Proofs.Growth
import RouteAudit.Proofs.PathTail
import RouteAudit.Proofs.Vocabulary
import RouteAudit.Proofs.Rendered
import RouteAudit.Proofs.FileByFile
import RouteAudit.Proofs.Malformed
import RouteAudit.Proofs.Rerun
import RouteAudit.Proofs.Storage
import RouteAudit.Proofs.Refiled
import RouteAudit.Proofs.Relocation
import RouteAudit.Proofs.Cleared
import RouteAudit.Proofs.Shuffled
import RouteAudit.Proofs.Totals
import RouteAudit.Proofs.Grouping
import RouteAudit.Proofs.Reading
import RouteAudit.Proofs.PathOnly
import RouteAudit.Proofs.Escaped
import RouteAudit.Proofs.Printed
import RouteAudit.Proofs.RoundTrip
import RouteAudit.Proofs.RouteLanguage
import RouteAudit.Proofs.Extracted
import RouteAudit.Proofs.LinkTag
import RouteAudit.Proofs.TomlString
import RouteAudit.Proofs.TomlValue
import RouteAudit.Proofs.TomlDocument
import RouteAudit.Proofs.ConfigFile
import RouteAudit.Grammar.LineIndex
import RouteAudit.Proofs.LiteralPart
import RouteAudit.Proofs.Utf8
import RouteAudit.Proofs.LineIndex
import RouteAudit.Proofs.Listing
