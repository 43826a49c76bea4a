import Expunge.Command.Program
import Expunge.Files.Build
import Expunge.Main
import Expunge.Proofs.Content.Idempotence
import Expunge.Proofs.Content.Leading
import Expunge.Proofs.Content.LineEndings
import Expunge.Proofs.Content.Locality
import Expunge.Proofs.Content.Narrowing
import Expunge.Proofs.Content.Partition
import Expunge.Proofs.Content.Remainder
import Expunge.Proofs.Content.Settling
import Expunge.Proofs.Content.Snippets
import Expunge.Proofs.Content.Spans
import Expunge.Proofs.Content.Surroundings
import Expunge.Proofs.Text.Returns
import Expunge.Proofs.Files.Spelling
import Expunge.Proofs.Files.Route
import Expunge.Proofs.Files.LinkFree
import Expunge.Proofs.Files.Update
import Expunge.Proofs.Files.Linked
import Expunge.Proofs.Files.Writing
import Expunge.Proofs.Files.Canonical
import Expunge.Proofs.Files.Respelled
import Expunge.Proofs.Glob.Appended
import Expunge.Proofs.Scan.Picks
import Expunge.Proofs.Scan.Reduced
import Expunge.Proofs.Scan.Keys
import Expunge.Proofs.Scan.Listed
import Expunge.Proofs.Scan.Orderly
import Expunge.Proofs.Scan.Selected
import Expunge.Proofs.Scan.Alias
import Expunge.Proofs.Scan.Restricted
import Expunge.Proofs.Scan.Monotone
import Expunge.Proofs.Scan.Respelled
import Expunge.Proofs.Run.OneFile
import Expunge.Proofs.Run.Batch
import Expunge.Proofs.Run.Effect
import Expunge.Proofs.Run.DryRun
import Expunge.Proofs.Run.Again
import Expunge.Proofs.Run.Spared
import Expunge.Proofs.Run.Account
import Expunge.Proofs.Run.Capture
import Expunge.Proofs.Run.Respelled
import Expunge.Proofs.Command.Exit
import Expunge.Proofs.Command.Presentation
import Expunge.Proofs.Report.Readable
import Expunge.Proofs.Report.Lossless
