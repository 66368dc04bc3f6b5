import ContractDrift.Json.Basic
import ContractDrift.Text.Blank

/-!
# Servers

Where the data of a contract is offered. The type of a server is one of the known platforms or any
other tag, kept as it is written; its parameters are compared and nothing else.
-/

namespace ContractDrift

/-- The platform of a server. -/
inductive ServerType where
  | s3
  | gcs
  | azure
  | bigquery
  | snowflake
  | databricks
  | redshift
  | postgres
  | sqlserver
  | oracle
  | trino
  | kafka
  | pubsub
  | kinesis
  | local
  | other (tag : String)
  deriving DecidableEq, Repr, Inhabited

namespace ServerType

/-- The tag shown. -/
def name : ServerType → String
  | .s3 => "s3"
  | .gcs => "gcs"
  | .azure => "azure"
  | .bigquery => "bigquery"
  | .snowflake => "snowflake"
  | .databricks => "databricks"
  | .redshift => "redshift"
  | .postgres => "postgres"
  | .sqlserver => "sqlserver"
  | .oracle => "oracle"
  | .trino => "trino"
  | .kafka => "kafka"
  | .pubsub => "pubsub"
  | .kinesis => "kinesis"
  | .local => "local"
  | .other tag => tag

/-- The platform that a tag names, in any letter case and with blanks around it. -/
def parse (tag : String) : ServerType :=
  match Text.canonical tag with
  | "s3" => .s3
  | "gcs" => .gcs
  | "azure" => .azure
  | "bigquery" => .bigquery
  | "snowflake" => .snowflake
  | "databricks" => .databricks
  | "redshift" => .redshift
  | "postgres" => .postgres
  | "postgresql" => .postgres
  | "sqlserver" => .sqlserver
  | "oracle" => .oracle
  | "trino" => .trino
  | "kafka" => .kafka
  | "pubsub" => .pubsub
  | "kinesis" => .kinesis
  | "local" => .local
  | _ => .other (Text.trim tag)

end ServerType

/-- A server of a contract. -/
structure Server where
  name : String
  type : ServerType
  description : Option String := none
  /-- What the platform needs: host, location, format. -/
  parameters : Parameters := .empty
  deriving Inhabited

namespace Server

/-- The server with one more parameter. -/
def withParameter (server : Server) (name value : String) : Server :=
  { server with parameters := server.parameters.insert name (.text value) }

end Server

end ContractDrift
