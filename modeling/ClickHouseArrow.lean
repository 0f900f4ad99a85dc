import ClickHouseArrow.Basic
import ClickHouseArrow.Arrow
import ClickHouseArrow.Simd.Bitmap
import ClickHouseArrow.Simd.Varint
import ClickHouseArrow.Simd.BufferPool
import ClickHouseArrow.Serialize.Null
import ClickHouseArrow.Sparse.Offsets
import ClickHouseArrow.Sparse.Granule
import ClickHouseArrow.Sparse.Expand
import ClickHouseArrow.Compression.Frame
import ClickHouseArrow.Compression.Integrity
import ClickHouseArrow.Compression.Reader
import ClickHouseArrow.Compression.ReaderState
import ClickHouseArrow.Compression.Stream
