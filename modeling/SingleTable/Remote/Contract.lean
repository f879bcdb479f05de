import SingleTable.Remote.Form
import SingleTable.Request

set_option autoImplicit false

/-!
# The contract of the service

What the service declares for each operation: the form of its reply (`Operation.replyForm`) and the
errors it can report, each with a form of its own (`Operation.errorForm?`). The forms cover all
members of a reply, also those of which this library makes no use.
-/

namespace SingleTable

namespace ServiceForm

/-! ## Items -/

/-- An item or a key. -/
def item : ServiceForm := .dictionary .value

/-- A part of the capacity that an operation has used. -/
def capacity : ServiceForm :=
  .record
    [("ReadCapacityUnits", .double), ("WriteCapacityUnits", .double), ("CapacityUnits", .double)]

/-- The capacity that an operation has used, for a table and its indexes. -/
def consumedCapacity : ServiceForm :=
  .record
    [("TableName", .text), ("CapacityUnits", .double), ("ReadCapacityUnits", .double),
     ("WriteCapacityUnits", .double), ("Table", capacity),
     ("LocalSecondaryIndexes", .dictionary capacity),
     ("GlobalSecondaryIndexes", .dictionary capacity), ("VectorIndexes", .dictionary capacity)]

/-- The size of a collection of items. -/
def collectionMetrics : ServiceForm :=
  .record [("ItemCollectionKey", item), ("SizeEstimateRangeGB", .list .double)]

/-- One write of a batch. -/
def write : ServiceForm :=
  .record [("PutRequest", .record [("Item", item)]), ("DeleteRequest", .record [("Key", item)])]

/-! ## Tables -/

/-- The key elements of a table or index. -/
def keys : ServiceForm := .list (.record [("AttributeName", .text), ("KeyType", .text)])

/-- The attribute definitions of a table. -/
def definitions : ServiceForm :=
  .list (.record [("AttributeName", .text), ("AttributeType", .text)])

/-- The projection of an index. -/
def projection : ServiceForm :=
  .record [("ProjectionType", .text), ("NonKeyAttributes", .list .text)]

/-- A provisioned throughput with the times of its changes. -/
def throughput : ServiceForm :=
  .record
    [("LastIncreaseDateTime", .time), ("LastDecreaseDateTime", .time),
     ("NumberOfDecreasesToday", .int64), ("ReadCapacityUnits", .int64),
     ("WriteCapacityUnits", .int64)]

/-- The limits of a throughput on demand. -/
def onDemandThroughput : ServiceForm :=
  .record [("MaxReadRequestUnits", .int64), ("MaxWriteRequestUnits", .int64)]

/-- A throughput that is kept ready. -/
def warmThroughput : ServiceForm :=
  .record
    [("ReadUnitsPerSecond", .int64), ("WriteUnitsPerSecond", .int64), ("Status", .text)]

/-- What the descriptions of all kinds of indexes share. -/
def indexMembers : List (String × ServiceForm) :=
  [("IndexName", .text), ("KeySchema", keys), ("Projection", projection),
   ("IndexSizeBytes", .int64), ("ItemCount", .int64), ("IndexArn", .text)]

/-- A local index. -/
def localIndex : ServiceForm := .record indexMembers

/-- A global index. -/
def globalIndex : ServiceForm :=
  .record
    (indexMembers ++
      [("IndexStatus", .text), ("Backfilling", .flag), ("ProvisionedThroughput", throughput),
       ("OnDemandThroughput", onDemandThroughput), ("WarmThroughput", warmThroughput)])

/-- An index of vectors. -/
def vectorIndex : ServiceForm :=
  .record (indexMembers ++ [("IndexStatus", .text), ("Backfilling", .flag)])

/-- The limit of reads that a replica sets for itself. -/
def readOverride : ServiceForm := .record [("ReadCapacityUnits", .int64)]

/-- The limit of reads on demand that a replica sets for itself. -/
def onDemandOverride : ServiceForm := .record [("MaxReadRequestUnits", .int64)]

/-- The class of a table. -/
def tableClass : ServiceForm := .record [("TableClass", .text), ("LastUpdateDateTime", .time)]

/-- An index of a replica. -/
def replicaIndex : ServiceForm :=
  .record
    [("IndexName", .text), ("ProvisionedThroughputOverride", readOverride),
     ("OnDemandThroughputOverride", onDemandOverride), ("WarmThroughput", warmThroughput)]

/-- A replica of a table in another region. -/
def replica : ServiceForm :=
  .record
    [("RegionName", .text), ("ReplicaStatus", .text), ("ReplicaArn", .text),
     ("ReplicaStatusDescription", .text), ("ReplicaStatusPercentProgress", .text),
     ("KMSMasterKeyId", .text), ("ProvisionedThroughputOverride", readOverride),
     ("OnDemandThroughputOverride", onDemandOverride), ("WarmThroughput", warmThroughput),
     ("GlobalSecondaryIndexes", .list replicaIndex), ("ReplicaInaccessibleDateTime", .time),
     ("ReplicaTableClassSummary", tableClass), ("GlobalTableSettingsReplicationMode", .text)]

/-- The description of a table. -/
def tableDescription : ServiceForm :=
  .record
    [("AttributeDefinitions", definitions), ("TableName", .text), ("KeySchema", keys),
     ("TableStatus", .text), ("CreationDateTime", .time), ("ProvisionedThroughput", throughput),
     ("TableSizeBytes", .int64), ("ItemCount", .int64), ("TableArn", .text), ("TableId", .text),
     ("BillingModeSummary",
       .record [("BillingMode", .text), ("LastUpdateToPayPerRequestDateTime", .time)]),
     ("LocalSecondaryIndexes", .list localIndex), ("GlobalSecondaryIndexes", .list globalIndex),
     ("VectorIndexes", .list vectorIndex),
     ("StreamSpecification", .record [("StreamEnabled", .flag), ("StreamViewType", .text)]),
     ("LatestStreamLabel", .text), ("LatestStreamArn", .text), ("GlobalTableVersion", .text),
     ("Replicas", .list replica),
     ("GlobalTableWitnesses",
       .list (.record [("RegionName", .text), ("WitnessStatus", .text)])),
     ("GlobalTableSettingsReplicationMode", .text),
     ("RestoreSummary",
       .record
         [("SourceBackupArn", .text), ("SourceTableArn", .text), ("RestoreDateTime", .time),
          ("RestoreInProgress", .flag)]),
     ("SSEDescription",
       .record
         [("Status", .text), ("SSEType", .text), ("KMSMasterKeyArn", .text),
          ("InaccessibleEncryptionDateTime", .time)]),
     ("ArchivalSummary",
       .record
         [("ArchivalDateTime", .time), ("ArchivalReason", .text), ("ArchivalBackupArn", .text)]),
     ("TableClassSummary", tableClass), ("DeletionProtectionEnabled", .flag),
     ("OnDemandThroughput", onDemandThroughput), ("WarmThroughput", warmThroughput),
     ("MultiRegionConsistency", .text)]

/-! ## Errors -/

/-- Why a request was held back. -/
def throttlingReasons : ServiceForm := .list (.record [("reason", .text), ("resource", .text)])

/-- The form of a declared error, by its code. -/
def ofError (code : String) : ServiceForm :=
  if code = "InvalidEndpointException" then .record [("Message", .text)]
  else if code = "ConditionalCheckFailedException" then
    .record [("message", .text), ("Item", item)]
  else if code = "ProvisionedThroughputExceededException" ∨ code = "RequestLimitExceeded" then
    .record [("message", .text), ("ThrottlingReasons", throttlingReasons)]
  else if code = "ThrottlingException" then
    .record [("message", .text), ("throttlingReasons", throttlingReasons)]
  else .record [("message", .text)]

end ServiceForm

namespace Operation

/-! ## Operations -/

/-- The form of the reply to an operation. -/
def replyForm : Operation → ServiceForm
  | .createTable | .deleteTable => .record [("TableDescription", .tableDescription)]
  | .putItem | .deleteItem =>
      .record
        [("Attributes", .item), ("ConsumedCapacity", .consumedCapacity),
         ("ItemCollectionMetrics", .collectionMetrics)]
  | .getItem => .record [("Item", .item), ("ConsumedCapacity", .consumedCapacity)]
  | .query | .scan =>
      .record
        [("Items", .list .item), ("Count", .int32), ("ScannedCount", .int32),
         ("LastEvaluatedKey", .item), ("ConsumedCapacity", .consumedCapacity)]
  | .batchWriteItem =>
      .record
        [("UnprocessedItems", .dictionary (.list .write)),
         ("ItemCollectionMetrics", .dictionary (.list .collectionMetrics)),
         ("ConsumedCapacity", .list .consumedCapacity)]

/-- The errors that every operation declares. -/
def commonErrors : List String := ["InternalServerError", "InvalidEndpointException"]

/-- The errors that the changes of a table declare. -/
def tableErrors : List String := ["LimitExceededException", "ResourceInUseException"]

/-- The errors that all uses of a table declare. -/
def itemErrors : List String :=
  ["ProvisionedThroughputExceededException", "RequestLimitExceeded", "ResourceNotFoundException",
   "ThrottlingException"]

/-- The errors that all writes declare. -/
def writeErrors : List String :=
  ["ItemCollectionSizeLimitExceededException", "ReplicatedWriteConflictException"]

/-- The errors that single writes declare. -/
def singleWriteErrors : List String :=
  ["ConditionalCheckFailedException", "TransactionConflictException"]

/-- The codes of the errors that an operation declares. -/
def errorCodes : Operation → List String
  | .createTable => commonErrors ++ tableErrors
  | .deleteTable => commonErrors ++ tableErrors ++ ["ResourceNotFoundException"]
  | .putItem | .deleteItem => commonErrors ++ itemErrors ++ writeErrors ++ singleWriteErrors
  | .getItem | .query | .scan => commonErrors ++ itemErrors
  | .batchWriteItem => commonErrors ++ itemErrors ++ writeErrors

/-- The form of an error that an operation declares. -/
def errorForm? (operation : Operation) (code : String) : Option ServiceForm :=
  if operation.errorCodes.contains code then some (.ofError code) else none

end Operation

end SingleTable
