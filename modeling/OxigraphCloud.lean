import OxigraphCloud.Primitives.Bytes
import OxigraphCloud.Primitives.KeyValue
import OxigraphCloud.Primitives.Iterator
import OxigraphCloud.Primitives.Proc
import OxigraphCloud.Objects.Rdf
import OxigraphCloud.Objects.Values
import OxigraphCloud.Objects.EncodedTerm
import OxigraphCloud.Objects.BinaryEncoder
import OxigraphCloud.Objects.Theorems.EncodedTerm
import OxigraphCloud.Objects.Theorems.BinaryEncoder
import OxigraphCloud.Primitives.Delta
import OxigraphCloud.Storage.Dataset
import OxigraphCloud.Storage.Layout
import OxigraphCloud.Storage.Theorems.Layout
import OxigraphCloud.Primitives.Versioned
import OxigraphCloud.Storage.TiKv.Client
import OxigraphCloud.Storage.TiKv.Reader
import OxigraphCloud.Storage.TiKv.Theorems.Iterator
import OxigraphCloud.Storage.TiKv.Theorems.Reader
import OxigraphCloud.Storage.Theorems.Pattern
import OxigraphCloud.Storage.TiKv.Transaction
import OxigraphCloud.Storage.TiKv.Theorems.Transaction
import OxigraphCloud.Storage.Readable
import OxigraphCloud.Storage.Theorems.Readable
import OxigraphCloud.Storage.Theorems.Registration
import OxigraphCloud.Storage.TiKv.Theorems.Readable
import OxigraphCloud.Storage.TiKv.Theorems.History
import OxigraphCloud.Storage.TiKv.Theorems.Snapshot
import OxigraphCloud.Sparql.Update
import OxigraphCloud.Sparql.Theorems.DeleteInsert
import OxigraphCloud.Server.Store
import OxigraphCloud.Server.Transactions
import OxigraphCloud.Server.Changelog
import OxigraphCloud.Server.Http
import OxigraphCloud.Server.Routes
import OxigraphCloud.Primitives.Run
import OxigraphCloud.Server.Theorems.Store
import OxigraphCloud.Server.Theorems.Transactions
import OxigraphCloud.Server.Cleanup
import OxigraphCloud.Server.Theorems.Cleanup
import OxigraphCloud.Server.Theorems.Changelog
import OxigraphCloud.Server.Theorems.Undo
import OxigraphCloud.Server.Processes
import OxigraphCloud.Server.Theorems.Processes
import OxigraphCloud.Server.Theorems.Validation
import OxigraphCloud.Server.Theorems.Conformance
import OxigraphCloud.Server.Interleaving
import OxigraphCloud.Server.Theorems.Interleaving
import OxigraphCloud.Storage.RocksDb.Wrapper
import OxigraphCloud.Storage.RocksDb.Transaction
import OxigraphCloud.Storage.Semantics
import OxigraphCloud.Storage.Theorems.Semantics
import OxigraphCloud.Storage.RocksDb.Theorems.Transaction
import OxigraphCloud.Storage.RocksDb.Theorems.Readable
import OxigraphCloud.Primitives.Chain
import OxigraphCloud.Primitives.Toggles
import OxigraphCloud.Storage.Memory.Content
import OxigraphCloud.Storage.Memory.Transaction
import OxigraphCloud.Storage.Memory.Theorems.Content
import OxigraphCloud.Server.Theorems.Authorization
import OxigraphCloud.Server.Theorems.Query
import OxigraphCloud.Primitives.Bits
import OxigraphCloud.Coprocessor.Scan
import OxigraphCloud.Coprocessor.Plugin
import OxigraphCloud.Coprocessor.Theorems.Navigation
import OxigraphCloud.Coprocessor.Theorems.SemiJoin
import OxigraphCloud.Cdc.Connection
import OxigraphCloud.Cdc.Theorems.Connection
import OxigraphCloud.Storage.RocksDb.BulkLoader
import OxigraphCloud.Storage.RocksDb.Theorems.BulkLoader
import OxigraphCloud.Objects.Decoder
import OxigraphCloud.Storage.RocksDb.Migration
import OxigraphCloud.Storage.RocksDb.Theorems.Migration
import OxigraphCloud.Primitives.Digits
import OxigraphCloud.Datatypes.Numeric
import OxigraphCloud.Datatypes.Theorems.Numeric
import OxigraphCloud.Datatypes.DateTime
import OxigraphCloud.Datatypes.Theorems.Calendar
import OxigraphCloud.Datatypes.Theorems.DateTime
import OxigraphCloud.Coprocessor.Theorems.Aggregate
import OxigraphCloud.Coprocessor.Regions
import OxigraphCloud.Coprocessor.Theorems.MinMax
import OxigraphCloud.Coprocessor.Theorems.Regions
import OxigraphCloud.Objects.Theorems.Decoder
import OxigraphCloud.Sparql.ExpressionTerm
import OxigraphCloud.Sparql.Theorems.ExpressionTerm
import OxigraphCloud.Primitives.Comparison
import OxigraphCloud.Sparql.Ordering
import OxigraphCloud.Sparql.Theorems.Ordering
import OxigraphCloud.Primitives.Worklist
import OxigraphCloud.Sparql.PropertyPath
import OxigraphCloud.Sparql.Theorems.PropertyPath
import OxigraphCloud.Sparql.Theorems.NamedPath
import OxigraphCloud.Primitives.PartialMap
import OxigraphCloud.Sparql.Algebra
import OxigraphCloud.Sparql.TypeInference
import OxigraphCloud.Sparql.SimpleEvaluator
import OxigraphCloud.Sparql.Theorems.SimpleEvaluator
import OxigraphCloud.Sparql.Theorems.TypeInference
import OxigraphCloud.Primitives.FixedPoint
import OxigraphCloud.Datatypes.Theorems.Decimal
import OxigraphCloud.Datatypes.Theorems.Numeral
import OxigraphCloud.Datatypes.Theorems.Timestamp
import OxigraphCloud.Datatypes.Duration
import OxigraphCloud.Datatypes.Theorems.Duration
import OxigraphCloud.Datatypes.Theorems.Addition
import OxigraphCloud.Sparql.Theorems.DurationOrder
import OxigraphCloud.Sparql.SizeEstimate
import OxigraphCloud.Sparql.Theorems.SizeEstimate
import OxigraphCloud.Primitives.Join
import OxigraphCloud.Primitives.Buffered
import OxigraphCloud.Sparql.HashJoin
import OxigraphCloud.Sparql.Theorems.HashJoin
import OxigraphCloud.Coprocessor.Filter
import OxigraphCloud.Coprocessor.Theorems.Filter
import OxigraphCloud.Server.Gauge
import OxigraphCloud.Server.Theorems.Gauge
import OxigraphCloud.Server.Retention
import OxigraphCloud.Server.Theorems.Retention
import OxigraphCloud.Server.Recorders
import OxigraphCloud.Server.Theorems.Recorders
import OxigraphCloud.Storage.TiKv.Theorems.Validate
import OxigraphCloud.Primitives.Lexical
import OxigraphCloud.Datatypes.Grammar
import OxigraphCloud.Datatypes.Theorems.Fragments
import OxigraphCloud.Datatypes.Theorems.DecimalFrag
import OxigraphCloud.Datatypes.Theorems.DateTimeFields
import OxigraphCloud.Datatypes.Theorems.DateTimeGrammar
import OxigraphCloud.Coprocessor.Theorems.BloomFilter
import OxigraphCloud.Primitives.Except
import OxigraphCloud.Coprocessor.Theorems.Protocol
import OxigraphCloud.Objects.TermLayout
import OxigraphCloud.Coprocessor.Theorems.Bounds
import OxigraphCloud.Objects.Theorems.TermFields
import OxigraphCloud.Objects.Theorems.Corruption
import OxigraphCloud.Objects.Theorems.Canonical
import OxigraphCloud.Primitives.Gregorian
import OxigraphCloud.Server.Timestamp
import OxigraphCloud.Server.Theorems.Timestamp
import OxigraphCloud.Server.Theorems.Body
import OxigraphCloud.Server.Streaming
import OxigraphCloud.Server.Theorems.Streaming
import OxigraphCloud.Primitives.Json
import OxigraphCloud.Objects.NQuads
import OxigraphCloud.Server.Theorems.ChangelogJson
import OxigraphCloud.Storage.Memory.Validate
import OxigraphCloud.Storage.Memory.Theorems.Validate
import OxigraphCloud.Storage.Memory.Interleaving
import OxigraphCloud.Storage.Memory.Theorems.Operations
import OxigraphCloud.Storage.Memory.Theorems.Isolation
import OxigraphCloud.Storage.Memory.Theorems.Iterator
import OxigraphCloud.Storage.Theorems.Agreement
import OxigraphCloud.Storage.Theorems.Termination
import OxigraphCloud.Storage.TiKv.Theorems.Registration
import OxigraphCloud.Storage.RocksDb.Theorems.Interleaving
