import SqlalchemyCubrid.Lib.Machine
import SqlalchemyCubrid.Python.Exception
import SqlalchemyCubrid.Dialect.Isolation
import SqlalchemyCubrid.Trace
import SqlalchemyCubrid.Compiler.TypeCompiler
import SqlalchemyCubrid.Lib.Regex
import SqlalchemyCubrid.Dialect.ResolveType
import SqlalchemyCubrid.Alembic
import SqlalchemyCubrid.Dialect.RecreateType
import SqlalchemyCubrid.Dialect.Catalog
import SqlalchemyCubrid.Lib.Dict
import SqlalchemyCubrid.Dialect.Indexes
import SqlalchemyCubrid.Compiler.CreateIndex
import SqlalchemyCubrid.Dialect.HasIndex
import SqlalchemyCubrid.Compiler.CreateTable
import SqlalchemyCubrid.Lib.Bytes
import SqlalchemyCubrid.Types.CollectionBytes
import SqlalchemyCubrid.Dialect.ForeignKeyClause
import SqlalchemyCubrid.Dialect.ForeignKeys
import SqlalchemyCubrid.Compiler.CustomDdl
import SqlalchemyCubrid.Dialect.EnumLabels
import SqlalchemyCubrid.Dialect.Existence
import SqlalchemyCubrid.Compiler.OnDuplicateKey
import SqlalchemyCubrid.Types.CollectionScan
import SqlalchemyCubrid.Types.BrokerBytes
import SqlalchemyCubrid.Types.Containers
import SqlalchemyCubrid.Dialect.LiteralText
import SqlalchemyCubrid.Compiler.Merge
import SqlalchemyCubrid.Alembic.Spelling
import SqlalchemyCubrid.Dialect.Version
import SqlalchemyCubrid.Types.CollectionBounds
import SqlalchemyCubrid.Compiler.AutoIncrement
import SqlalchemyCubrid.Compiler.Names
import SqlalchemyCubrid.Compiler.OidPath
import SqlalchemyCubrid.Compiler.TextClause
import SqlalchemyCubrid.Compiler.DbLink
import SqlalchemyCubrid.Dialect.Columns
import SqlalchemyCubrid.Dialect.MissingTable
import SqlalchemyCubrid.Compiler.StringDefaults
import SqlalchemyCubrid.Lib.SqlFragment
import SqlalchemyCubrid.Lib.SqlLayout
import SqlalchemyCubrid.Dialect.SettledType
import SqlalchemyCubrid.Dialect.Comments
import SqlalchemyCubrid.Dialect.Reflection
import SqlalchemyCubrid.Dialect.CreatedTables
import SqlalchemyCubrid.Python.Repr
import SqlalchemyCubrid.Alembic.RenderType
import SqlalchemyCubrid.Compiler.Serial
import SqlalchemyCubrid.Compiler.Hierarchical
import SqlalchemyCubrid.Compiler.TableStatement
import SqlalchemyCubrid.Compiler.IndexStatement
import SqlalchemyCubrid.Dialect.IndexLifecycle
import SqlalchemyCubrid.Compiler.Query
import SqlalchemyCubrid.Compiler.SelectStatement
