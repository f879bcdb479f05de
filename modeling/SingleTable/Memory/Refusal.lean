import SingleTable.KeyCondition
import SingleTable.StoreError

set_option autoImplicit false

/-!
# Why the memory store refuses a call
-/

namespace SingleTable

/-- Why the memory store refuses a call. -/
inductive Refusal where
  | emptyTableName
  | keyRoles
  | undefinedKey (name : String)
  | notKeyType (name : String) (type : AttributeType)
  | duplicateIndex (name : String)
  | localIndexKeys (name : String)
  | unusedDefinition (name : String)
  | tableExists (name : String)
  | noTable (name : String)
  | noIndex (name : String)
  | noCondition
  | keyShape
  | key (cause : KeyError)
  | condition (cause : ConditionError)
  | batchSize (total : Nat)
  | batchRequest
  deriving DecidableEq, Repr

namespace Refusal

/-- The greatest number of writes in one batch. -/
def maxBatch : Nat := 25

/-- The text of a refusal. -/
def message : Refusal → String
  | .emptyTableName => "TableName must not be empty"
  | .keyRoles => "Key schema must have exactly one HASH key and at most one RANGE key"
  | .undefinedKey name =>
      "One or more parameter values were invalid: Some index key attributes are not defined in "
        ++ "AttributeDefinitions. Keys: [" ++ name ++ "]"
  | .notKeyType name type =>
      "Member must satisfy enum value set: [B, N, S] for key attribute " ++ name ++ " (got "
        ++ type.name ++ ")"
  | .duplicateIndex name => "Duplicate index name: " ++ name
  | .localIndexKeys name =>
      "Local secondary index " ++ name ++ " must use the table partition key and a sort key"
  | .unusedDefinition name =>
      "One or more parameter values were invalid: Some AttributeDefinitions are not used. "
        ++ "AttributeDefinitions: " ++ name
  | .tableExists name => "Table already exists: " ++ name
  | .noTable name => "Requested resource not found: Table: " ++ name ++ " not found"
  | .noIndex name => "The table does not have the specified index: " ++ name
  | .noCondition =>
      "Either the KeyConditions or KeyConditionExpression parameter must be specified in the "
        ++ "request"
  | .keyShape => "The provided key element does not match the schema"
  | .key cause => cause.message
  | .condition cause => cause.message
  | .batchSize total =>
      "Too many items requested for the BatchWriteItem call: " ++ toString total
        ++ " (must be 1 to " ++ toString maxBatch ++ ")"
  | .batchRequest =>
      "Each WriteRequest must contain exactly one of PutRequest or DeleteRequest"

/-- The code under which a refusal is reported. -/
def code : Refusal → ErrorCode
  | .tableExists _ => .resourceInUse
  | .noTable _ => .resourceNotFound
  | _ => .validation

/-- The text of the error behind a refusal, if there is one. -/
def source? : Refusal → Option String
  | .key cause => some cause.message
  | .condition cause => some cause.message
  | _ => none

/-- A refusal as an error of the store. -/
def toStoreError (r : Refusal) : StoreError :=
  { StoreError.ofCode r.code r.message with source := r.source? }

end Refusal

end SingleTable
