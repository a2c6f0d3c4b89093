import Emend.Archive
import Emend.Catalogue.Activation
import Emend.Inspect
import Emend.Json.Pointer
import Emend.Json.Renumber
import Emend.Markup.Address
import Emend.Markup.Report
import Emend.Markup.Selector
import Emend.Markup.TagEdit
import Emend.Report
import Emend.Settings.Discovery
import Emend.Settings.Schema
import Emend.Proofs.Markup.Anonymous
import Emend.Proofs.Markup.PrintedText
import Emend.Proofs.Archive.BracketDepth
import Emend.Proofs.Archive.Codec
import Emend.Proofs.Archive.RoundTrip
import Emend.Proofs.Markup.Fidelity
import Emend.Proofs.Markup.Normal
import Emend.Proofs.Markup.Reparse
import Emend.Proofs.Markup.ReparseDocument
import Emend.Proofs.Markup.Containment
import Emend.Proofs.Markup.Erasure
import Emend.Proofs.Markup.Idle
import Emend.Proofs.Markup.MinimalCopy
import Emend.Proofs.Recipes.Visitors
import Emend.Proofs.Recipes.SecondVisit
import Emend.Proofs.Pipeline.Cancellation
import Emend.Proofs.Pipeline.Dispatch
import Emend.Proofs.Pipeline.Independence
import Emend.Proofs.Markup.Vetting
import Emend.Proofs.Pipeline.Accounts
import Emend.Proofs.Pipeline.Agreement
import Emend.Proofs.Pipeline.FirstFailure
import Emend.Proofs.Pipeline.Interruption
import Emend.Proofs.Pipeline.Standing
import Emend.Proofs.Markup.MadeWalk
import Emend.Proofs.Recipes.MadeVisits
import Emend.Proofs.Pipeline.Stages
import Emend.Proofs.Catalogue.Activation
import Emend.Proofs.Settings.Inheritance
import Emend.Proofs.Recipes.Idempotence
import Emend.Proofs.Recipes.Searching
import Emend.Proofs.Markup.Revision
import Emend.Proofs.Markup.LocalEdit
import Emend.Proofs.Recipes.Revising
import Emend.Proofs.Recipes.UpgradeAgain
import Emend.Proofs.Markup.References
import Emend.Proofs.Markup.Sites
import Emend.Proofs.Markup.DocTypeText
import Emend.Proofs.Markup.Sections
import Emend.Proofs.Markup.Borrowing
import Emend.Proofs.Resolution
import Emend.Proofs.Caching
import Emend.Proofs.Catalogue.Loading
import Emend.Proofs.Pipeline.Flattening
import Emend.Proofs.Markup.TagPath
import Emend.Proofs.Markup.Contract
import Emend.Proofs.Markup.Tour
import Emend.Proofs.ItemVisits
import Emend.Proofs.Json.Standard
import Emend.Proofs.Markup.Positions
