import Sift.Store.Lookup
import Sift.Store.Run
import Sift.Endpoint.Stack
import Sift.Schema.Declaration
import Sift.Shop
import Sift.Proofs.Endpoint.Forced
import Sift.Proofs.Filter.Enforcement
import Sift.Proofs.Paging.Quantity
import Sift.Proofs.Policy.Spelling
import Sift.Proofs.Paging.Partition
import Sift.Proofs.Rejection
import Sift.Proofs.Request.Names
import Sift.Proofs.Request.Document
import Sift.Proofs.Request.Filter
import Sift.Proofs.Request.Ordering
import Sift.Proofs.Endpoint.Rejection
import Sift.Proofs.Store.Joins
import Sift.Proofs.Store.Run
import Sift.Proofs.Schema.Typed
import Sift.Proofs.Value.Numbers
import Sift.Proofs.Calendar.DayNumber
import Sift.Proofs.Calendar.Texts
import Sift.Proofs.Store.Contents
import Sift.Proofs.Projection.Rows
import Sift.Proofs.Schema.Relations
import Sift.Proofs.Projection.Requests
import Sift.Proofs.Includes.Follows
import Sift.Proofs.Includes.Paths
import Sift.Proofs.Filter.WellTyped
import Sift.Proofs.Store.Presented
import Sift.Proofs.Filter.Exposed
import Sift.Proofs.Projection.Flights
import Sift.Proofs.Projection.Exposure
import Sift.Proofs.Value.Marks
import Sift.Proofs.Projection.Tables
import Sift.Proofs.Store.ShownKeys
import Sift.Proofs.Predicate.Canonical
import Sift.Proofs.Predicate.Joins
import Sift.Proofs.Filter.Leaves
import Sift.Proofs.Request.Parameters
import Sift.Proofs.Endpoint.Parameters
import Sift.Proofs.Value.Keys
import Sift.Proofs.Value.Rows
import Sift.Proofs.Projection.Walk
import Sift.Proofs.Projection.Rewriting
import Sift.Proofs.Projection.Batching
import Sift.Proofs.Value.Renaming
import Sift.Proofs.Projection.Renaming
import Sift.Proofs.Projection.Secrecy
import Sift.Proofs.Store.Rendered
import Sift.Proofs.Filter.Related
import Sift.Proofs.Endpoint.Serving
import Sift.Proofs.Endpoint.NestedKeys
import Sift.Proofs.Projection.Flattening
import Sift.Proofs.Endpoint.Lifted
import Sift.Proofs.Endpoint.Integers
import Sift.Proofs.Filter.Combination
import Sift.Proofs.Request.Fields
import Sift.Proofs.Operator.Patterns
import Sift.Proofs.Store.Searching
import Sift.Proofs.Includes.Merging
import Sift.Proofs.Includes.Specifications
import Sift.Proofs.Includes.Rebuilding
import Sift.Proofs.Operator.Denials
import Sift.Proofs.Filter.Mapped
import Sift.Proofs.Store.Denials
import Sift.Proofs.Store.MappedKeys
import Sift.Proofs.Ordering.Terms
import Sift.Proofs.Ordering.Joins
import Sift.Proofs.Ordering.Rereading
import Sift.Proofs.Ordering.Spellings
import Sift.Proofs.Endpoint.Signs
import Sift.Proofs.Projection.Places
import Sift.Proofs.Projection.Gathering
import Sift.Proofs.Projection.Hiding
import Sift.Proofs.Projection.Intact
import Sift.Proofs.Projection.Lifting
import Sift.Proofs.Request.Pairs
import Sift.Proofs.Operator.Listings
import Sift.Proofs.Schema.Numerals
import Sift.Proofs.Schema.Dates
import Sift.Proofs.Schema.Suffixes
import Sift.Proofs.Endpoint.Nesting
