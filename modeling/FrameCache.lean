import FrameCache.Fault
import FrameCache.Time.Civil
import FrameCache.Time.Delta
import FrameCache.Time.Timestamp
import FrameCache.Time.Text
import FrameCache.Time.Parse
import FrameCache.Double
import FrameCache.Decimal.Shortest
import FrameCache.Decimal.Read
import FrameCache.Decimal.Layout
import FrameCache.Json.Value
import FrameCache.Json.Read
import FrameCache.Text.Printable
import FrameCache.Text.Quoted
import FrameCache.Partition.Name
import FrameCache.Codec.Bits
import FrameCache.Codec.Gorilla
import FrameCache.Frame.Basic
import FrameCache.Frame.Concat
import FrameCache.Frame.Dedup
import FrameCache.Partition.TextList
import FrameCache.Json.Typed
import FrameCache.Partition.Header
import FrameCache.Partition.File
import FrameCache.Error
import FrameCache.Store.Directory
import FrameCache.Store.Cache
import FrameCache.Store.Fetch
import FrameCache.Link.Basic
import FrameCache.Link.Resample
import FrameCache.Link.Bandwidth
import FrameCache.Link.Rolling
import FrameCache.Flatness.Config
import FrameCache.Flatness.Detect
import FrameCache.Proofs.Bits
import FrameCache.Proofs.Gorilla
import FrameCache.Proofs.Calendar
import FrameCache.Proofs.Rfc3339
import FrameCache.Proofs.PartitionName
import FrameCache.Proofs.WholeDouble
import FrameCache.Proofs.JsonText
import FrameCache.Proofs.JsonRead
import FrameCache.Proofs.JsonRecord
import FrameCache.Proofs.LenientTime
import FrameCache.Proofs.PartitionHeader
import FrameCache.Proofs.TextList
import FrameCache.Proofs.Directory
import FrameCache.Proofs.Listing
import FrameCache.Proofs.DropRange
import FrameCache.Proofs.Frames
import FrameCache.Proofs.WellFormed
import FrameCache.Proofs.Stats
import FrameCache.Proofs.Stepping
import FrameCache.Proofs.SteppedFetch
import FrameCache.Proofs.RowOrder
import FrameCache.Proofs.Dedup
import FrameCache.Proofs.DecoderBounds
import FrameCache.Proofs.FlatIntervals
import FrameCache.Proofs.Overlap
import FrameCache.Proofs.FlatChains
import FrameCache.Proofs.Runs
import FrameCache.Proofs.RollingWindows
import FrameCache.Proofs.RollingStats
import FrameCache.Proofs.Buckets
import FrameCache.Proofs.ResampleGrid
import FrameCache.Proofs.PartitionFile
import FrameCache.Proofs.Refetch
import FrameCache.Proofs.FrameRows
import FrameCache.Proofs.CacheModel
import FrameCache.Proofs.CacheRefinement
import FrameCache.Proofs.Join
import FrameCache.Proofs.BitStream
import FrameCache.Proofs.SamplingPeriod
import FrameCache.Proofs.UniformResampling
