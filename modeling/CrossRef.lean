import CrossRef.Feed.Recording
import CrossRef.Main
import CrossRef.Markup.Trace
import CrossRef.Proofs.Binding
import CrossRef.Proofs.Exchange
import CrossRef.Proofs.Fact.Groups
import CrossRef.Proofs.Feed.Turns
import CrossRef.Proofs.Ingest.Retries
import CrossRef.Proofs.Library.Anchors
import CrossRef.Proofs.Library.Links
import CrossRef.Proofs.Markup.Descent
import CrossRef.Proofs.Markup.NormalOrder
import CrossRef.Proofs.Markup.Trace
import CrossRef.Proofs.Markup.Tree
import CrossRef.Proofs.Store.Duplicates
import CrossRef.Proofs.Store.Link
import CrossRef.Proofs.Store.Lookup
import CrossRef.Proofs.Text.Lines
