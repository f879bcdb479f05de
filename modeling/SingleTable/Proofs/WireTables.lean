import SingleTable.Proofs.Records
import SingleTable.Proofs.WireForm

set_option autoImplicit false

/-!
# Table definitions that were written

What comes back of items, of the parts of table definitions and of writes when they are written and read.
Two things are not read as they were written: a type that is unknown although it has the name of a known
one, and a time that is no number of JSON (`AttributeType.asRead`, `TableDescription.asRead`). The values
without either are legible, and they are the ones that are read back (`TableDescription.decode_encode_iff`).
-/

namespace SingleTable

open Wire

/-! ## Items and types -/

@[simp] theorem Wire.decodeItem_encodeItem (item : Item) : decodeItem (encodeItem item) = .ok item :=
  dictionary_object AttributeValue.decode_encode item

namespace AttributeType

/-- What comes back of a type: the type of its name. -/
def asRead (t : AttributeType) : AttributeType := ofName t.name

@[simp] theorem decode_encode (t : AttributeType) : decode t.encode = .ok t.asRead := rfl

/-- An unknown type is legible if its name is not that of a known type. -/
def Legible : AttributeType → Prop
  | .unknown name => name ∉ AttributeValue.typeNames
  | _ => True

theorem asRead_eq_self_iff {t : AttributeType} : t.asRead = t ↔ t.Legible := by
  cases t with
  | unknown name =>
      show ofName name = .unknown name ↔ name ∉ AttributeValue.typeNames
      simp only [ofName, AttributeValue.typeNames, List.mem_cons, List.not_mem_nil, or_false]
      grind
  | _ => exact ⟨fun _ => trivial, fun _ => rfl⟩

theorem decode_encode_iff {t : AttributeType} : decode t.encode = .ok t ↔ t.Legible := by
  rw [decode_encode, Except.ok.injEq, asRead_eq_self_iff]

example : decode (unknown "N").encode = .ok .number := rfl

end AttributeType

/-! ## Keys -/

@[simp] theorem KeyRole.decode_encode (r : KeyRole) : decode r.encode = .ok r := by
  cases r <;> rfl

@[simp] theorem KeyElement.decode_encode (e : KeyElement) : decode e.encode = .ok e := by
  simp [decode, encode, encodeText, lookup_cons_eq_ite, Functor.map]

namespace AttributeDefinition

/-- What comes back of a definition. -/
def asRead (d : AttributeDefinition) : AttributeDefinition := { d with type := d.type.asRead }

@[simp] theorem decode_encode (d : AttributeDefinition) : decode d.encode = .ok d.asRead := by
  simp [decode, encode, encodeText, lookup_cons_eq_ite, Functor.map, asRead]

/-- A definition is legible if its type is. -/
def Legible (d : AttributeDefinition) : Prop := d.type.Legible

theorem asRead_eq_self_iff {d : AttributeDefinition} : d.asRead = d ↔ d.Legible := by
  rw [Legible, ← AttributeType.asRead_eq_self_iff]
  constructor
  · intro h
    exact congrArg type h
  · intro h
    rw [asRead, h]

theorem map_asRead_eq_self_iff {ds : List AttributeDefinition} :
    ds.map asRead = ds ↔ ∀ d ∈ ds, d.Legible := by
  calc ds.map asRead = ds ↔ ds.map asRead = ds.map id := by rw [List.map_id]
    _ ↔ ∀ d ∈ ds, d.asRead = d := List.map_inj_left
    _ ↔ ∀ d ∈ ds, d.Legible := by simp only [asRead_eq_self_iff]

theorem decode_encode_iff {d : AttributeDefinition} : decode d.encode = .ok d ↔ d.Legible := by
  rw [decode_encode, Except.ok.injEq, asRead_eq_self_iff]

end AttributeDefinition

/-! ## Indexes -/

@[simp] theorem Throughput.decode_encode (t : Throughput) : decode t.encode = .ok t := by
  simp [decode, encode, lookup_cons_eq_ite, Functor.map]

@[simp] theorem ProjectionKind.decode_encode (k : ProjectionKind) : decode k.encode = .ok k := by
  cases k <;> rfl

@[simp] theorem Projection.decode_encode (p : Projection) : decode p.encode = .ok p := by
  have hkind := readMember_optional ProjectionKind.decode_encode nofun p.kind
  have hattributes := readMember_unlessEmpty text_string p.attributes
  simp [decode, encode, lookup_cons_eq_ite, Functor.map, hkind, hattributes]

@[simp] theorem GlobalIndexDefinition.decode_encode (i : GlobalIndexDefinition) :
    decode i.encode = .ok i := by
  have hkeys := readMember_encodeList KeyElement.decode_encode i.keys
  have hthroughput := readMember_optional Throughput.decode_encode nofun i.throughput
  simp [decode, encode, encodeText, lookup_cons_eq_ite, Functor.map, hkeys, hthroughput]

@[simp] theorem LocalIndexDefinition.decode_encode (i : LocalIndexDefinition) :
    decode i.encode = .ok i := by
  have hkeys := readMember_encodeList KeyElement.decode_encode i.keys
  simp [decode, encode, encodeText, lookup_cons_eq_ite, Functor.map, hkeys]

/-! ## Descriptions -/

@[simp] theorem TableStatus.decode_encode (s : TableStatus) : decode s.encode = .ok s := by
  cases s <;> rfl

namespace Wire

/-- A number that JSON cannot write is written as null. -/
theorem readMember_encodeDouble (o : Option Binary64) :
    readMember (optional double) (o.map encodeDouble)
      = .ok (o.map fun x => if x.isFinite then some x else none) := by
  cases o with
  | none => rfl
  | some x =>
      rw [Option.map_some, Option.map_some, readMember_some, encodeDouble]
      split <;> rfl

/-- A number that was written as null is read as none. -/
theorem optional_encodeDouble {typeName : String} {declared : List String}
    {members : List (String × Option Json)} (name : String) (o : Option Binary64) :
    (Record.ofMembers typeName declared members).optional
        ⟨name, .ok (o.map fun x => if x.isFinite then some x else none)⟩
      = .ok (o.filter Binary64.isFinite) := by
  cases o with
  | none => rfl
  | some x =>
      rw [Option.map_some, Option.filter_some]
      split <;> rfl

end Wire

namespace TableDescription

/-- What comes back of a description. -/
def asRead (d : TableDescription) : TableDescription :=
  { d with
    definitions := d.definitions.map AttributeDefinition.asRead
    created := d.created.filter Binary64.isFinite }

@[simp] theorem decode_encode (d : TableDescription) : decode d.encode = .ok d.asRead := by
  have hname := readMember_optional text_string nofun d.name
  have hstatus := readMember_optional TableStatus.decode_encode nofun d.status
  have hkeys := readMember_unlessEmpty KeyElement.decode_encode d.keys
  have hdefinitions := readMember_unlessEmpty AttributeDefinition.decode_encode d.definitions
  have hcreated := readMember_encodeDouble d.created
  have hcount := readMember_optional int64_toInt nofun d.itemCount
  have hthroughput := readMember_optional Throughput.decode_encode nofun d.throughput
  have hglobals := readMember_unlessEmpty GlobalIndexDefinition.decode_encode d.globalIndexes
  have hlocals := readMember_unlessEmpty LocalIndexDefinition.decode_encode d.localIndexes
  simp [decode, encode, lookup_cons_eq_ite, Functor.map, hname, hstatus, hkeys, hdefinitions, hcreated,
    hcount, hthroughput, hglobals, hlocals, optional_encodeDouble, asRead]

/-- A description is legible if its definitions are and its time is a number of JSON. -/
def Legible (d : TableDescription) : Prop :=
  (∀ e ∈ d.definitions, e.Legible) ∧ ∀ x ∈ d.created, x.isFinite = true

theorem asRead_eq_self_iff {d : TableDescription} : d.asRead = d ↔ d.Legible := by
  have hcreated : d.created.filter Binary64.isFinite = d.created
      ↔ ∀ x ∈ d.created, x.isFinite = true := by
    cases d.created <;> simp
  rw [Legible, ← AttributeDefinition.map_asRead_eq_self_iff, ← hcreated]
  constructor
  · intro h
    exact ⟨congrArg definitions h, congrArg created h⟩
  · rintro ⟨hdefinitions, hcreated⟩
    rw [asRead, hdefinitions, hcreated]

theorem decode_encode_iff {d : TableDescription} : decode d.encode = .ok d ↔ d.Legible := by
  rw [decode_encode, Except.ok.injEq, asRead_eq_self_iff]

end TableDescription

/-! ## Writes -/

namespace WriteRequest

@[simp] theorem decodePut_encodePut (item : Item) : decodePut (encodePut item) = .ok item := by
  simp [decodePut, encodePut]

@[simp] theorem decodeDelete_encodeDelete (key : Item) :
    decodeDelete (encodeDelete key) = .ok key := by
  simp [decodeDelete, encodeDelete]

@[simp] theorem decode_encode (w : WriteRequest) : decode w.encode = .ok w := by
  have hput := readMember_optional decodePut_encodePut nofun w.put
  have hdelete := readMember_optional decodeDelete_encodeDelete nofun w.delete
  simp [decode, encode, lookup_cons_eq_ite, Functor.map, hput, hdelete]

end WriteRequest

end SingleTable
