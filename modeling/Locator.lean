import Locator.Main
import Locator.Text.Utf8.Lemmas
import Locator.Proofs.Join.Fragment
import Locator.Proofs.Join.Host
import Locator.Proofs.Join.Relative
import Locator.Proofs.Path.Trail
import Locator.Proofs.Path.Resolved
import Locator.Proofs.Join.Absolute
import Locator.Proofs.Join.Composition
import Locator.Proofs.Join.Bucket
import Locator.Proofs.Path.Buffers
import Locator.Proofs.Join.Reference
import Locator.Proofs.Local.RoundTrip
import Locator.Proofs.Local.Distinct
import Locator.Proofs.Join.Donor
import Locator.Proofs.Join.Inherit
import Locator.Proofs.Text.Bytewise
import Locator.Proofs.Local.Lone
import Locator.Proofs.Join.Scheme
import Locator.Proofs.Join.Parts
import Locator.Proofs.Join.Alone
import Locator.Proofs.Join.Respelling
import Locator.Proofs.Link.Next
import Locator.Proofs.Command.Run
import Locator.Proofs.Join.Agreement
import Locator.Proofs.Local.FullPath
import Locator.Proofs.Url.Canonical
import Locator.Proofs.Link.Grammar
import Locator.Proofs.Link.Trimmed
import Locator.Proofs.Link.Rows
import Locator.Proofs.Download.Name
import Locator.Proofs.Download.Distinct
import Locator.Proofs.Local.Address
import Locator.Proofs.Download.Cleaned
import Locator.Proofs.Path.Peeling
import Locator.Proofs.Path.Squeezed
import Locator.Proofs.Local.Normal
import Locator.Proofs.Command.Loading
