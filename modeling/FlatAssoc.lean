import FlatAssoc.Noted
import FlatAssoc.Comparator
import FlatAssoc.Failure
import FlatAssoc.Buffer
import FlatAssoc.Buffer.Search
import FlatAssoc.Buffer.Slices
import FlatAssoc.Cursor
import FlatAssoc.Cursor.Script
import FlatAssoc.Cursor.Lemmas
import FlatAssoc.Decimal
import FlatAssoc.Text.Glyphless
import FlatAssoc.Text.Debug
import FlatAssoc.Key
import FlatAssoc.Key.Order
import FlatAssoc.Key.WeakOrder
import FlatAssoc.Json.Number
import FlatAssoc.Json.Notation
import FlatAssoc.Flat
import FlatAssoc.Flat.Lookup
import FlatAssoc.Flat.Emplace
import FlatAssoc.Flat.Load
import FlatAssoc.Flat.Remove
import FlatAssoc.Flat.Traverse
import FlatAssoc.Entry.Step
import FlatAssoc.Session.Step
import FlatAssoc.Session
import FlatAssoc.Proofs.Classes
import FlatAssoc.Proofs.Places
import FlatAssoc.Proofs.Growth
import FlatAssoc.Proofs.Makers
import FlatAssoc.Proofs.Validity
import FlatAssoc.Proofs.Runs
import FlatAssoc.Proofs.Interruptions
import FlatAssoc.Proofs.Batches
import FlatAssoc.Proofs.ClassMap
import FlatAssoc.Proofs.Agreement
import FlatAssoc.Proofs.Refinement
import FlatAssoc.Proofs.Constructions
import FlatAssoc.Proofs.Uniqueness
import FlatAssoc.Proofs.Panics
import FlatAssoc.Proofs.Reading
import FlatAssoc.Proofs.Documents
import FlatAssoc.Proofs.LoadOrder
import FlatAssoc.Proofs.Commutation
import FlatAssoc.Proofs.Scans
import FlatAssoc.Proofs.Opposition
import FlatAssoc.Proofs.Reversal
import FlatAssoc.Proofs.Traversals
import FlatAssoc.Proofs.Lending
import FlatAssoc.Proofs.Ranges
import FlatAssoc.Proofs.Depletion
import FlatAssoc.Proofs.Comparisons
import FlatAssoc.Proofs.Shortcuts
import FlatAssoc.Proofs.Offers
import FlatAssoc.Proofs.Reports
import FlatAssoc.Proofs.Positions
import FlatAssoc.Proofs.Reloads
import FlatAssoc.Proofs.Accumulation
