import RecordStore.Generation.Companion
import RecordStore.Generation.Expansion
import RecordStore.Proofs.Generation.BoundNames
import RecordStore.Proofs.Generation.Cancellation
import RecordStore.Proofs.Generation.Delegation
import RecordStore.Proofs.Generation.Delivery
import RecordStore.Proofs.Generation.Diagnostics
import RecordStore.Proofs.Generation.ExactNeeds
import RecordStore.Proofs.Generation.Failure
import RecordStore.Proofs.Generation.Interleaving
import RecordStore.Proofs.Generation.Resolution
import RecordStore.Proofs.Generation.UnitItems
import RecordStore.Proofs.Schema.Classification
import RecordStore.Proofs.Source.Ignored
import RecordStore.Proofs.Source.Imports
import RecordStore.Proofs.Store.Agreement
import RecordStore.Proofs.Store.Alignment
import RecordStore.Proofs.Store.Logging
import RecordStore.Proofs.Store.Shapes
import RecordStore.Proofs.Values.RoundTrip
import RecordStore.Store.Arguments
import RecordStore.Store.Catalog
import RecordStore.Store.ScriptedDriver
import RecordStore.Proofs.Source.Ends
import RecordStore.Proofs.Source.Positions
import RecordStore.Proofs.Syntax.Truncation
import RecordStore.Proofs.Generation.Expanded
