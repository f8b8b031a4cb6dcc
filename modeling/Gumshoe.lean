import Gumshoe.Lib.SortedMap
import Gumshoe.Lib.GoMap
import Gumshoe.Lib.Bytes
import Gumshoe.Lib.IEEE
import Gumshoe.Lib.GoTime
import Gumshoe.Types
import Gumshoe.Lib.GoCall
import Gumshoe.Schema
import Gumshoe.DimensionTable
import Gumshoe.Row
import Gumshoe.Lib.FaultyFS
import Gumshoe.MemTable
import Gumshoe.Lib.GoFmt
import Gumshoe.Interval
import Gumshoe.DB
import Gumshoe.Flush
import Gumshoe.Collapse
import Gumshoe.FlushSpec
import Gumshoe.RowSpec
import Gumshoe.Run
import Gumshoe.Storage
import Gumshoe.FlushFaults
import Gumshoe.Config
import Gumshoe.Segments
import Gumshoe.Lib.Json
import Gumshoe.ParseQuery
import Gumshoe.Filters
import Gumshoe.Query
import Gumshoe.Stats
import Gumshoe.Grouping
import Gumshoe.Lib.LockedMap
import Gumshoe.Router
import Gumshoe.Lib.WaitGroup
import Gumshoe.Handlers
import Gumshoe.Ungrouped
import Gumshoe.Lib.GracePeriod
import Gumshoe.FlushFiles
import Gumshoe.Requests
