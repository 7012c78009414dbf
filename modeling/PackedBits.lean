import PackedBits.Session
import PackedBits.Proofs.Bits.Bytes
import PackedBits.Proofs.Bits.Indices
import PackedBits.Proofs.Bits.Padding
import PackedBits.Proofs.Roundtrip.Bytes
import PackedBits.Proofs.Roundtrip.Binary
import PackedBits.Proofs.Roundtrip.BytesInBinary
import PackedBits.Proofs.Roundtrip.Json
import PackedBits.Proofs.Json.Spelling
import PackedBits.Proofs.Json.Written
import PackedBits.Proofs.Json.Numeral
import PackedBits.Proofs.Json.Spaced
import PackedBits.Proofs.Json.Layout
import PackedBits.Proofs.Json.Broken
import PackedBits.Proofs.Json.Grammar
import PackedBits.Proofs.Json.Members
import PackedBits.Proofs.Json.Complaints
import PackedBits.Proofs.Decoding.Verdict
import PackedBits.Proofs.Decoding.Layout
import PackedBits.Proofs.Decoding.Delimited
import PackedBits.Proofs.Decoding.Fields
import PackedBits.Proofs.Session.Reachable
import PackedBits.Proofs.Bounds.Checked
import PackedBits.Proofs.Bounds.Sizes
import PackedBits.Proofs.Bounds.Accesses
import PackedBits.Proofs.Queries.Scan
import PackedBits.Proofs.Queries.Counts
import PackedBits.Proofs.Queries.ByteOrder
import PackedBits.Proofs.Session.Canonical
import PackedBits.Proofs.Session.Absence
import PackedBits.Proofs.Writes.History
import PackedBits.Proofs.Writes.Disjoint
import PackedBits.Proofs.Copies.Update
import PackedBits.Proofs.Copies.Resize
import PackedBits.Proofs.Copies.Agreement
import PackedBits.Proofs.Picks.Uniform
import PackedBits.Proofs.Picks.Scripted
import PackedBits.Proofs.Text.Flat
import PackedBits.Proofs.Text.Rendered
import PackedBits.Proofs.Text.Injective
