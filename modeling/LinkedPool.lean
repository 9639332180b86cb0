import LinkedPool.Document
import LinkedPool.Panic
import LinkedPool.Count
import LinkedPool.Capacity
import LinkedPool.Event
import LinkedPool.Traced
import LinkedPool.Element
import LinkedPool.Pool.Basic
import LinkedPool.Pool.Ownership
import LinkedPool.Pool.Text
import LinkedPool.LinkedList.Basic
import LinkedPool.LinkedList.Append
import LinkedPool.LinkedList.Delete
import LinkedPool.LinkedList.Teardown
import LinkedPool.Cursor
import LinkedPool.LinkedList.Search
import LinkedPool.LinkedList.Extend
import LinkedPool.Cursor.Script
import LinkedPool.LinkedList.Operation
import LinkedPool.Text.Quoted
import LinkedPool.Element.Plain
import LinkedPool.Element.Binary64
import LinkedPool.Element.Tracked
import LinkedPool.Element.Keyed
import LinkedPool.Element.Nested
import LinkedPool.Pool.Operation
import LinkedPool.Store
import LinkedPool.Session.Lists
import LinkedPool.Session.Pools
import LinkedPool.Proofs.Pool.Slots
import LinkedPool.Proofs.Pool.Vacancy
import LinkedPool.Proofs.Pool.Allocation
import LinkedPool.Proofs.Pool.Room
import LinkedPool.Proofs.Traced
import LinkedPool.Proofs.Element.Search
import LinkedPool.Proofs.Pool.Ownership
import LinkedPool.Proofs.LinkedList.Linked
import LinkedPool.Proofs.LinkedList.Append
import LinkedPool.Proofs.LinkedList.Unlink
import LinkedPool.Proofs.LinkedList.Delete
import LinkedPool.Proofs.LinkedList.Clear
import LinkedPool.Proofs.LinkedList.Content
import LinkedPool.Proofs.LinkedList.Effects
import LinkedPool.Proofs.LinkedList.Extend
import LinkedPool.Proofs.Pool.Map
import LinkedPool.Proofs.Pool.Clone
import LinkedPool.Proofs.LinkedList.Clone
import LinkedPool.Proofs.Cursor.Window
import LinkedPool.Proofs.Cursor.Search
import LinkedPool.Proofs.LinkedList.Search
import LinkedPool.Proofs.Sequence.Model
import LinkedPool.Proofs.Sequence.Script
import LinkedPool.Proofs.Sequence.Operation
import LinkedPool.Proofs.Element.Ledger
import LinkedPool.Proofs.LinkedList.Ledger
import LinkedPool.Proofs.LinkedList.Mirror
import LinkedPool.Proofs.LinkedList.Panics
import LinkedPool.Proofs.LinkedList.Teardown
import LinkedPool.Proofs.LinkedList.Agreement
import LinkedPool.Proofs.Store
import LinkedPool.Proofs.Session.Sound
import LinkedPool.Proofs.Session.Integrity
import LinkedPool.Proofs.Session.Conservation
import LinkedPool.Proofs.Session.Refinement
import LinkedPool.Proofs.Session.Mirror
import LinkedPool.Proofs.Session.Panics
import LinkedPool.Proofs.Pool.Registry
import LinkedPool.Proofs.Cursor.Frame
import LinkedPool.Proofs.LinkedList.Ahead
import LinkedPool.Proofs.Pool.Stale
import LinkedPool.Proofs.Session.Preallocation
import LinkedPool.Proofs.LinkedList.Inert
import LinkedPool.Proofs.Element.Equivalence
import LinkedPool.Proofs.Sequence.Congruence
import LinkedPool.Proofs.LinkedList.Congruence
import LinkedPool.Proofs.LinkedList.Room
import LinkedPool.Proofs.Session.Capacity
import LinkedPool.Proofs.Session.Inert
import LinkedPool.Proofs.Session.Rejection
import LinkedPool.Proofs.Session.Agreement
import LinkedPool.Proofs.Session.Congruence
import LinkedPool.Proofs.Translation
import LinkedPool.Proofs.Pool.Translation
import LinkedPool.Proofs.Cursor.Translation
import LinkedPool.Proofs.LinkedList.Translation
import LinkedPool.Proofs.Session.Translation
import LinkedPool.Proofs.Element.Faithful
import LinkedPool.Proofs.Session.Copies
import LinkedPool.Proofs.LinkedList.Placement
import LinkedPool.Proofs.LinkedList.Succession
import LinkedPool.Proofs.LinkedList.RoundTrip
import LinkedPool.Proofs.LinkedList.Footprint
import LinkedPool.Proofs.LinkedList.Stay
import LinkedPool.Proofs.Session.Affected
import LinkedPool.Proofs.Session.Footprint
import LinkedPool.Proofs.LinkedList.HighWater
import LinkedPool.Proofs.Session.HighWater
import LinkedPool.Proofs.Element.Comparison
import LinkedPool.Proofs.LinkedList.Comparison
import LinkedPool.Proofs.Session.Comparison
import LinkedPool.Proofs.LinkedList.Log
import LinkedPool.Proofs.Session.Log
import LinkedPool.Proofs.LinkedList.Drain
import LinkedPool.Proofs.LinkedList.Walks
import LinkedPool.Proofs.Session.Walks
