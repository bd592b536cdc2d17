import EntityQuery.Compile.Statement
import EntityQuery.Provider.Config
import EntityQuery.Schema.Plan

/-!
A provider compiles queries and plans schemas for the dialect of one server.
-/

namespace EntityQuery

namespace Provider

/-- What a provider cannot do. -/
inductive Error where
  | dialectMismatch (expected actual : Dialect)
  | compile (e : CompileError)
  | schema (e : Schema.SchemaError)

def Error.message : Error → String
  | .dialectMismatch expected actual =>
    "Dialect mismatch: expected " ++ expected.code ++ ", got " ++ actual.code
  | .compile e => "Translation failed: " ++ e.message
  | .schema e => "DDL generation failed: " ++ e.message

end Provider

/-- A provider for one dialect. -/
structure Provider where
  dialect : Dialect
  deriving DecidableEq, Repr

namespace Provider

/-- The provider of a dialect, for connections to a server of that dialect. -/
def connect (dialect server : Dialect) : Except Error Provider :=
  if server = dialect then .ok ⟨dialect⟩ else .error (.dialectMismatch dialect server)

/-- A provider of a configuration, for connections to a PostgreSQL server. -/
def postgres (c : Config) : Except Error Provider := connect c.dialect .postgres

/-- Compiles a query; also gives the mapping with the members that the query has registered. -/
def compile (_ : Provider) (m : Mapping) (e : Expr) : Except Error Statement × Mapping :=
  let (result, m) := m.compile e
  (result.mapError .compile, m)

/-- Plans the tables of all entities of a catalog. -/
def plan (p : Provider) (c : Catalog) : Except Error Schema.Script :=
  (Schema.plan p.dialect c (c.entities.map EntityMapping.name)).mapError .schema

end Provider

end EntityQuery
