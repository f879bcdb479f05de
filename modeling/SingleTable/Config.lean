import SingleTable.Binary64.Text
import SingleTable.TableDefinition

set_option autoImplicit false

/-!
# Configuration

The settings of the table and of the connection to a remote store, as they are read from environment
variables and overridden by the caller.
-/

namespace SingleTable

/-- The values of environment variables by name. -/
abbrev Environment := Dict String

/-- The value of a variable, where an empty one counts as unset. -/
def Environment.nonempty? (env : Environment) (name : String) : Option String :=
  (env.get? name).filter (fun v => !v.isEmpty)

/-- The value of a variable as a 64-bit integer, or a default if it is none. -/
def Environment.int64 (env : Environment) (name : String) (default : Int64) : Int64 :=
  match (env.get? name).bind (readIntegerIn? Int64.minValue.toInt Int64.maxValue.toInt) with
  | some n => Int64.ofInt n
  | none => default

/-- The configuration of a table in an environment; `fallback` is its name unless another is set. -/
def TableConfig.ofEnvironment (env : Environment) (fallback : String) : TableConfig :=
  let defaults : Throughput := {}
  { name := (env.nonempty? "DYNASCHEMA_TABLE_NAME").getD fallback
    throughput := {
      reads := env.int64 "DYNASCHEMA_READ_CAPACITY" defaults.reads
      writes := env.int64 "DYNASCHEMA_WRITE_CAPACITY" defaults.writes } }

/-- A pair of keys that proves who makes a call. -/
structure Credentials where
  accessKey : String
  secretKey : String
  deriving DecidableEq, Repr

/-- The connection to a remote store. What is unset is left to the provider chain. -/
structure StoreConfig where
  endpoint : Option String := none
  region : Option String := none
  credentials : Option Credentials := none
  deriving DecidableEq, Repr

namespace StoreConfig

/-- The configuration of the connection in an environment, which never holds credentials. -/
def ofEnvironment (env : Environment) : StoreConfig where
  endpoint := env.nonempty? "DYNAMODB_ENDPOINT_URL"
  region := (env.nonempty? "AWS_REGION").or (env.nonempty? "DEFAULT_REGION")

/-- The configuration with settings that are given replaced. -/
def override (c : StoreConfig) (endpoint region : Option String)
    (credentials : Option Credentials) : StoreConfig where
  endpoint := endpoint.or c.endpoint
  region := region.or c.region
  credentials := credentials.or c.credentials

/-- An endpoint as it is used: without slashes at its end. -/
def trimEndpoint (endpoint : String) : String :=
  String.ofList (endpoint.toList.reverse.dropWhile (· = '/')).reverse

/-- The number of attempts at each exchange: it is never repeated. -/
def attempts : Nat := 1

end StoreConfig

end SingleTable
