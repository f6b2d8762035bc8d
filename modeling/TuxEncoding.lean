import TuxEncoding.Lib.Bytes
import TuxEncoding.Lib.Interaction
import TuxEncoding.Codec.Basic
import TuxEncoding.Codec.Types
import TuxEncoding.Codec.Value
import TuxEncoding.Codec.Tags
import TuxEncoding.Codec.Header
import TuxEncoding.Fs.Layout
import TuxEncoding.Fs.Image
import TuxEncoding.Fs.World
import TuxEncoding.Fs.Writer
import TuxEncoding.Fs.Contract
import TuxEncoding.Fs.WriterSafety
import TuxEncoding.Fs.FinishSafety
import TuxEncoding.Fs.Compression
import TuxEncoding.Fs.Session
import TuxEncoding.Fs.Object
import TuxEncoding.Fs.ObjectSafety
import TuxEncoding.Properties.Cleanup
import TuxEncoding.Properties.RawWrites
import TuxEncoding.Properties.UncompressedLength
import TuxEncoding.Properties.RoundTrip
import TuxEncoding.Fs.Update
import TuxEncoding.Properties.FailedUpdate
import TuxEncoding.Properties.CompressedUpdate
import TuxEncoding.Properties.Refinement
import TuxEncoding.Codec.Async
import TuxEncoding.Codec.Chrono
import TuxEncoding.Codec.Measure
import TuxEncoding.Fs.Reading
import TuxEncoding.Properties.MalformedFiles
import TuxEncoding.Properties.Isolation
import TuxEncoding.Properties.TagViews
import TuxEncoding.Properties.ContentStart
import TuxEncoding.Properties.Truncation
import TuxEncoding.Properties.EncoderSessions
import TuxEncoding.Fs.AsyncIo
import TuxEncoding.Lib.Simulation
import TuxEncoding.Fs.Interchange
import TuxEncoding.Properties.Interchangeable
import TuxEncoding.Fs.Shared
import TuxEncoding.Properties.Publication
import TuxEncoding.Fs.Crash
import TuxEncoding.Properties.CrashConsistency
import TuxEncoding.Properties.Layouts
import TuxEncoding.Properties.Relayout
import TuxEncoding.Properties.ChronoValues
import TuxEncoding.Properties.InPlaceUpdate
import TuxEncoding.Properties.RangedReads
import TuxEncoding.Properties.LostUpdates
import TuxEncoding.Properties.PublishedLayout
import TuxEncoding.Fs.Finishing
import TuxEncoding.Properties.CompressedFinish
import TuxEncoding.Properties.Streaming
import TuxEncoding.Codec.Containers
import TuxEncoding.Codec.Registry
import TuxEncoding.Codec.FromBytes
import TuxEncoding.Properties.DynamicStorage
import TuxEncoding.Properties.MapSizes
import TuxEncoding.Properties.MeasuringCursor
import TuxEncoding.Properties.NestedSizes
import TuxEncoding.Properties.Skipping
import TuxEncoding.Properties.SlicesAndReaders
import TuxEncoding.Codec.Room
import TuxEncoding.Lib.Wrapping
import TuxEncoding.Properties.LayoutArithmetic
import TuxEncoding.Properties.NoTags
import TuxEncoding.Properties.PrefixImage
import TuxEncoding.Codec.Acceptance
import TuxEncoding.Codec.Cuts
import TuxEncoding.Properties.AcceptedInput
import TuxEncoding.Properties.CutFiles
import TuxEncoding.Properties.Readers
import TuxEncoding.Properties.Snapshots
import TuxEncoding.Properties.WholeRecords
import TuxEncoding.Codec.Sections
import TuxEncoding.Properties.SectionSeeks
import TuxEncoding.Codec.TornHeader
import TuxEncoding.Properties.SectionEdits
import TuxEncoding.Fs.Private
import TuxEncoding.Properties.Rewriters
import TuxEncoding.Properties.RacingCrashes
import TuxEncoding.Codec.AsyncWrite
import TuxEncoding.Properties.AsyncStreams
