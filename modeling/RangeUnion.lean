import RangeUnion.Bytes.Word
import RangeUnion.Canonical
import RangeUnion.Catalog.Codec
import RangeUnion.Catalog.Context
import RangeUnion.Catalog.Registry
import RangeUnion.Depth
import RangeUnion.Error
import RangeUnion.Feed
import RangeUnion.IntSpan.Basic
import RangeUnion.IntSpan.Flags
import RangeUnion.IntSpan.Hash
import RangeUnion.IntSpan.Interval
import RangeUnion.IntSpan.Literal
import RangeUnion.IntSpan.Message
import RangeUnion.IntSpan.Packed
import RangeUnion.Interval
import RangeUnion.Layout.Basic
import RangeUnion.Layout.Walk
import RangeUnion.Metered
import RangeUnion.Multirange.Basic
import RangeUnion.Multirange.Cursor
import RangeUnion.Multirange.Describe
import RangeUnion.Multirange.Hash
import RangeUnion.Multirange.Interchange
import RangeUnion.Multirange.Literal
import RangeUnion.Multirange.Message
import RangeUnion.Multirange.Order
import RangeUnion.NullableArray
import RangeUnion.Proofs.Catalog.Acquire
import RangeUnion.Proofs.Catalog.Frugal
import RangeUnion.Proofs.Catalog.History
import RangeUnion.Proofs.Catalog.Serves
import RangeUnion.Proofs.Catalog.Trace
import RangeUnion.Proofs.Catalog.Yields
import RangeUnion.Proofs.Compaction
import RangeUnion.Proofs.Feed
import RangeUnion.Proofs.Layout.Assembly
import RangeUnion.Proofs.Layout.Bounds
import RangeUnion.Proofs.Layout.Frame
import RangeUnion.Proofs.Layout.Places
import RangeUnion.Proofs.Layout.Slack
import RangeUnion.Proofs.Multirange.Adoption
import RangeUnion.Proofs.Multirange.Agreement
import RangeUnion.Proofs.Multirange.Arrays
import RangeUnion.Proofs.Multirange.Assembled
import RangeUnion.Proofs.Multirange.Clusters
import RangeUnion.Proofs.Multirange.Cutoff
import RangeUnion.Proofs.Multirange.Delegation
import RangeUnion.Proofs.Multirange.Deque
import RangeUnion.Proofs.Multirange.EntryPoint
import RangeUnion.Proofs.Multirange.Exhaustion
import RangeUnion.Proofs.Multirange.Frames
import RangeUnion.Proofs.Multirange.Framing
import RangeUnion.Proofs.Multirange.Hash
import RangeUnion.Proofs.Multirange.Interchange
import RangeUnion.Proofs.Multirange.Literal
import RangeUnion.Proofs.Multirange.Malformed
import RangeUnion.Proofs.Multirange.Operators
import RangeUnion.Proofs.Multirange.Order
import RangeUnion.Proofs.Multirange.Reachable
import RangeUnion.Proofs.Multirange.Rearranged
import RangeUnion.Proofs.Multirange.Requests
import RangeUnion.Proofs.Multirange.RoundTrip
import RangeUnion.Proofs.Multirange.Sensitivity
import RangeUnion.Proofs.Multirange.Served
import RangeUnion.Proofs.Multirange.Slicing
import RangeUnion.Proofs.Multirange.Spelling
import RangeUnion.Proofs.Multirange.Store
import RangeUnion.Proofs.Multirange.Unchecked
import RangeUnion.Proofs.Multirange.Union
import RangeUnion.Proofs.Multirange.Unreadable
import RangeUnion.Proofs.Outcome
import RangeUnion.Proofs.Sink
import RangeUnion.Proofs.Span.Algebra
import RangeUnion.Proofs.Span.Bounds
import RangeUnion.Proofs.Span.Brackets
import RangeUnion.Proofs.Span.Canonicalize
import RangeUnion.Proofs.Span.Clusters
import RangeUnion.Proofs.Span.Consecutive
import RangeUnion.Proofs.Span.Ends
import RangeUnion.Proofs.Span.Forms
import RangeUnion.Proofs.Span.Message
import RangeUnion.Proofs.Span.Order
import RangeUnion.Proofs.Span.Packed
import RangeUnion.Proofs.Span.PrefixFree
import RangeUnion.Proofs.Span.RoundTrip
import RangeUnion.Proofs.Span.Scramble
import RangeUnion.Proofs.Span.Spaced
import RangeUnion.Proofs.Span.Spanned
import RangeUnion.Proofs.Span.Spelling
import RangeUnion.Proofs.Text.Automaton
import RangeUnion.Proofs.Text.Completion
import RangeUnion.Proofs.Text.Encoding
import RangeUnion.Proofs.Text.Grammar
import RangeUnion.Proofs.Text.Lockstep
import RangeUnion.Proofs.Text.Scan
import RangeUnion.Proofs.Text.Slices
import RangeUnion.Sink
import RangeUnion.Tag
import RangeUnion.Text.Blank
import RangeUnion.Text.BracedList
import RangeUnion.Text.Decimal
import RangeUnion.Text.Encoding
import RangeUnion.Text.Quoted
import RangeUnion.Text.Unprintable
