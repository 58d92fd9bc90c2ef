import DuckdbMl.Transition.System
import DuckdbMl.SchemaEpoch.Soundness
import DuckdbMl.Resource.Database
import DuckdbMl.Resource.Custody
import DuckdbMl.Request.Cache
import DuckdbMl.Sql.OuterRows
import DuckdbMl.Schema.IndexColumn
import DuckdbMl.Schema.Renaming
import DuckdbMl.Decode.Cache
import DuckdbMl.Decode.Fold
import DuckdbMl.Migration.History
import DuckdbMl.Migration.RoundTrip
import DuckdbMl.Native.Runs
import DuckdbMl.Appender.Pool
import DuckdbMl.Appender.Session
import DuckdbMl.Parquet.Export
import DuckdbMl.Crossing.Codecs
import DuckdbMl.Pool.Creation
import DuckdbMl.Interruption.Retry
import DuckdbMl.AsyncPool.Progress
import DuckdbMl.Delivery.Progress
