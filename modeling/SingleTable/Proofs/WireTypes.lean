import SingleTable.Proofs.WireTables

set_option autoImplicit false

/-!
# Everything that travels is read back

Every type whose values travel, with the way in which they are written and read (`WireType.codec`): the
requests and replies of all operations, and the types of their parts. Whatever is left out when it is
absent or empty, exactly the legible values are read back as they were written (`WireType.reads_back_iff`).
-/

namespace SingleTable

open Wire

/-! ## Requests -/

theorem Wire.decodeWrites_encodeWrites (writes : List WriteRequest) :
    decodeWrites (encodeWrites writes) = .ok writes := by
  show sequence WriteRequest.decode (.array (writes.map WriteRequest.encode)) = .ok writes
  rw [sequence_array WriteRequest.decode_encode, List.map_id']

namespace CreateTableRequest

/-- What comes back of the definition of a table. -/
def asRead (r : CreateTableRequest) : CreateTableRequest :=
  { r with definitions := r.definitions.map AttributeDefinition.asRead }

theorem decode_encode (r : CreateTableRequest) : decode r.encode = .ok r.asRead := by
  have hkeys := readMember_encodeList KeyElement.decode_encode r.keys
  have hdefinitions := readMember_encodeList AttributeDefinition.decode_encode r.definitions
  have hthroughput := readMember_optional Throughput.decode_encode nofun r.throughput
  have hglobals := readMember_unlessEmpty GlobalIndexDefinition.decode_encode r.globalIndexes
  have hlocals := readMember_unlessEmpty LocalIndexDefinition.decode_encode r.localIndexes
  simp [decode, encode, encodeText, lookup_cons_eq_ite, Functor.map, hkeys, hdefinitions, hthroughput,
    hglobals, hlocals, asRead]

/-- The definition of a table is legible if its attribute definitions are. -/
def Legible (r : CreateTableRequest) : Prop := ∀ d ∈ r.definitions, d.Legible

theorem decode_encode_iff {r : CreateTableRequest} : decode r.encode = .ok r ↔ r.Legible := by
  rw [decode_encode, Except.ok.injEq, Legible, ← AttributeDefinition.map_asRead_eq_self_iff]
  constructor
  · intro h
    exact congrArg definitions h
  · intro h
    rw [asRead, h]

end CreateTableRequest

theorem TableRequest.decode_encode (typeName : String) (r : TableRequest) :
    decode typeName r.encode = .ok r := by
  simp [decode, encode, encodeText, Functor.map]

theorem PutRequest.decode_encode (r : PutRequest) : decode r.encode = .ok r := by
  simp [decode, encode, encodeText, lookup_cons_eq_ite, Functor.map]

theorem KeyRequest.decode_encode (typeName : String) (r : KeyRequest) :
    decode typeName r.encode = .ok r := by
  simp [decode, encode, encodeText, lookup_cons_eq_ite, Functor.map]

theorem QueryRequest.decode_encode (r : QueryRequest) : decode r.encode = .ok r := by
  have hindex := readMember_optional text_string nofun r.index
  have hcondition := readMember_optional text_string nofun r.condition
  have hvalues := readMember_unlessEmptyDict AttributeValue.decode_encode r.values
  have hforward := readMember_optional flag_bool nofun r.forward
  simp [decode, encode, encodeText, lookup_cons_eq_ite, Functor.map, hindex, hcondition, hvalues, hforward]

theorem BatchRequest.decode_encode (r : BatchRequest) : decode r.encode = .ok r := by
  have hwrites := readMember_encodeDict decodeWrites_encodeWrites r.writes
  simp [decode, encode, Functor.map, hwrites]

/-! ## Replies -/

namespace TableReply

/-- What comes back of a reply about a table. -/
def asRead (r : TableReply) : TableReply := ⟨r.description.map TableDescription.asRead⟩

theorem decode_encode (typeName : String) (r : TableReply) :
    decode typeName r.encode = .ok r.asRead := by
  have hdescription := readMember_optional TableDescription.decode_encode nofun r.description
  simp [decode, encode, Functor.map, -Option.map_map, hdescription, asRead]

/-- A reply about a table is legible if its description is. -/
def Legible (r : TableReply) : Prop := ∀ d ∈ r.description, d.Legible

theorem decode_encode_iff {typeName : String} {r : TableReply} :
    decode typeName r.encode = .ok r ↔ r.Legible := by
  obtain ⟨description⟩ := r
  rw [decode_encode, Except.ok.injEq]
  cases description with
  | none => simp [asRead, Legible]
  | some d => simp [asRead, Legible, TableDescription.asRead_eq_self_iff]

end TableReply

theorem GetReply.decode_encode (r : GetReply) : decode r.encode = .ok r := by
  have hitem := readMember_optional decodeItem_encodeItem nofun r.item
  simp [decode, encode, Functor.map, hitem]

theorem ItemsReply.decode_encode (typeName : String) (r : ItemsReply) :
    decode typeName r.encode = .ok r := by
  have hitems := readMember_encodeList decodeItem_encodeItem r.items
  have hlastKey : readMember decodeItem (unlessEmptyDict AttributeValue.encode r.lastKey)
      = .ok (if r.lastKey.isEmpty then none else some r.lastKey) :=
    readMember_unlessEmptyDict AttributeValue.decode_encode r.lastKey
  simp [decode, encode, lookup_cons_eq_ite, Functor.map, hitems, hlastKey]

theorem BatchReply.decode_encode (r : BatchReply) : decode r.encode = .ok r := by
  have hwrites := readMember_encodeDict decodeWrites_encodeWrites r.unprocessed
  simp [decode, encode, Functor.map, hwrites]

theorem Wire.decodeNothing_encodeNothing (typeName : String) (u : Unit) :
    decodeNothing typeName encodeNothing = .ok u := rfl

/-! ## All types -/

/-- How the values of a type travel: how they are written, how they are read, and which of them are
legible. -/
structure Codec where
  Value : Type
  encode : Value → Json
  decode : Json → Decoded Value
  Legible : Value → Prop

namespace Codec

/-- The codec of a type all of whose values are legible. -/
def ofLegible {α : Type} (encode : α → Json) (decode : Json → Decoded α) : Codec :=
  ⟨α, encode, decode, fun _ => True⟩

/-- Of the values of the type, exactly the legible ones are read back as they were written. -/
def ReadsBack (c : Codec) : Prop := ∀ x : c.Value, c.decode (c.encode x) = .ok x ↔ c.Legible x

theorem readsBack_ofLegible {α : Type} {encode : α → Json} {decode : Json → Decoded α}
    (h : ∀ x, decode (encode x) = .ok x) : (ofLegible encode decode).ReadsBack :=
  fun x => ⟨fun _ => trivial, fun _ => h x⟩

end Codec

/-- How the requests for an operation travel. -/
def Operation.requestCodec : Operation → Codec
  | .createTable =>
      ⟨_, CreateTableRequest.encode, CreateTableRequest.decode, CreateTableRequest.Legible⟩
  | .deleteTable => .ofLegible TableRequest.encode (TableRequest.decode "DeleteTableInput")
  | .putItem => .ofLegible PutRequest.encode PutRequest.decode
  | .getItem => .ofLegible KeyRequest.encode (KeyRequest.decode "GetItemInput")
  | .deleteItem => .ofLegible KeyRequest.encode (KeyRequest.decode "DeleteItemInput")
  | .query => .ofLegible QueryRequest.encode QueryRequest.decode
  | .scan => .ofLegible TableRequest.encode (TableRequest.decode "ScanInput")
  | .batchWriteItem => .ofLegible BatchRequest.encode BatchRequest.decode

/-- How the replies to an operation travel. -/
def Operation.replyCodec : Operation → Codec
  | .createTable => ⟨_, TableReply.encode, TableReply.decode "CreateTableOutput", TableReply.Legible⟩
  | .deleteTable => ⟨_, TableReply.encode, TableReply.decode "DeleteTableOutput", TableReply.Legible⟩
  | .putItem => .ofLegible (fun _ => encodeNothing) (decodeNothing "PutItemOutput")
  | .getItem => .ofLegible GetReply.encode GetReply.decode
  | .deleteItem => .ofLegible (fun _ => encodeNothing) (decodeNothing "DeleteItemOutput")
  | .query => .ofLegible ItemsReply.encode (ItemsReply.decode "QueryOutput")
  | .scan => .ofLegible ItemsReply.encode (ItemsReply.decode "ScanOutput")
  | .batchWriteItem => .ofLegible BatchReply.encode BatchReply.decode

/-- The types whose values travel: requests and replies, and what these are made of. -/
inductive WireType where
  | request (operation : Operation)
  | reply (operation : Operation)
  | attributeValue
  | item
  | attributeType
  | keyRole
  | keyElement
  | attributeDefinition
  | throughput
  | projectionKind
  | projection
  | globalIndex
  | localIndex
  | tableStatus
  | tableDescription
  | put
  | deletion
  | write
  deriving DecidableEq, Repr

/-- How the values of a type travel. -/
def WireType.codec : WireType → Codec
  | .request operation => operation.requestCodec
  | .reply operation => operation.replyCodec
  | .attributeValue => .ofLegible AttributeValue.encode AttributeValue.decode
  | .item => .ofLegible encodeItem decodeItem
  | .attributeType => ⟨_, AttributeType.encode, AttributeType.decode, AttributeType.Legible⟩
  | .keyRole => .ofLegible KeyRole.encode KeyRole.decode
  | .keyElement => .ofLegible KeyElement.encode KeyElement.decode
  | .attributeDefinition =>
      ⟨_, AttributeDefinition.encode, AttributeDefinition.decode, AttributeDefinition.Legible⟩
  | .throughput => .ofLegible Throughput.encode Throughput.decode
  | .projectionKind => .ofLegible ProjectionKind.encode ProjectionKind.decode
  | .projection => .ofLegible Projection.encode Projection.decode
  | .globalIndex => .ofLegible GlobalIndexDefinition.encode GlobalIndexDefinition.decode
  | .localIndex => .ofLegible LocalIndexDefinition.encode LocalIndexDefinition.decode
  | .tableStatus => .ofLegible TableStatus.encode TableStatus.decode
  | .tableDescription =>
      ⟨_, TableDescription.encode, TableDescription.decode, TableDescription.Legible⟩
  | .put => .ofLegible WriteRequest.encodePut WriteRequest.decodePut
  | .deletion => .ofLegible WriteRequest.encodeDelete WriteRequest.decodeDelete
  | .write => .ofLegible WriteRequest.encode WriteRequest.decode

namespace Operation

open Codec

theorem readsBack_requestCodec (operation : Operation) : operation.requestCodec.ReadsBack := by
  cases operation with
  | createTable => exact fun _ => CreateTableRequest.decode_encode_iff
  | deleteTable => exact readsBack_ofLegible (TableRequest.decode_encode _)
  | putItem => exact readsBack_ofLegible PutRequest.decode_encode
  | getItem => exact readsBack_ofLegible (KeyRequest.decode_encode _)
  | deleteItem => exact readsBack_ofLegible (KeyRequest.decode_encode _)
  | query => exact readsBack_ofLegible QueryRequest.decode_encode
  | scan => exact readsBack_ofLegible (TableRequest.decode_encode _)
  | batchWriteItem => exact readsBack_ofLegible BatchRequest.decode_encode

theorem readsBack_replyCodec (operation : Operation) : operation.replyCodec.ReadsBack := by
  cases operation with
  | createTable => exact fun _ => TableReply.decode_encode_iff
  | deleteTable => exact fun _ => TableReply.decode_encode_iff
  | putItem => exact readsBack_ofLegible (decodeNothing_encodeNothing _)
  | getItem => exact readsBack_ofLegible GetReply.decode_encode
  | deleteItem => exact readsBack_ofLegible (decodeNothing_encodeNothing _)
  | query => exact readsBack_ofLegible (ItemsReply.decode_encode _)
  | scan => exact readsBack_ofLegible (ItemsReply.decode_encode _)
  | batchWriteItem => exact readsBack_ofLegible BatchReply.decode_encode

end Operation

/-- A value of any type that travels is read back as it was written exactly if it is legible: if no
attribute type in it is unknown under the name of a known one, and no time in it is infinite or no number. -/
theorem WireType.reads_back_iff (t : WireType) (x : t.codec.Value) :
    t.codec.decode (t.codec.encode x) = .ok x ↔ t.codec.Legible x := by
  cases t with
  | request operation => exact operation.readsBack_requestCodec x
  | reply operation => exact operation.readsBack_replyCodec x
  | attributeValue => exact Codec.readsBack_ofLegible AttributeValue.decode_encode x
  | item => exact Codec.readsBack_ofLegible decodeItem_encodeItem x
  | attributeType => exact AttributeType.decode_encode_iff
  | keyRole => exact Codec.readsBack_ofLegible KeyRole.decode_encode x
  | keyElement => exact Codec.readsBack_ofLegible KeyElement.decode_encode x
  | attributeDefinition => exact AttributeDefinition.decode_encode_iff
  | throughput => exact Codec.readsBack_ofLegible Throughput.decode_encode x
  | projectionKind => exact Codec.readsBack_ofLegible ProjectionKind.decode_encode x
  | projection => exact Codec.readsBack_ofLegible Projection.decode_encode x
  | globalIndex => exact Codec.readsBack_ofLegible GlobalIndexDefinition.decode_encode x
  | localIndex => exact Codec.readsBack_ofLegible LocalIndexDefinition.decode_encode x
  | tableStatus => exact Codec.readsBack_ofLegible TableStatus.decode_encode x
  | tableDescription => exact TableDescription.decode_encode_iff
  | put => exact Codec.readsBack_ofLegible WriteRequest.decodePut_encodePut x
  | deletion => exact Codec.readsBack_ofLegible WriteRequest.decodeDelete_encodeDelete x
  | write => exact Codec.readsBack_ofLegible WriteRequest.decode_encode x

end SingleTable
