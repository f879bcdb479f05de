import SingleTable.StoreError
import SingleTable.Table

set_option autoImplicit false

/-!
# Values of the remote service

The service knows more types of values than items hold: sets of strings, numbers and binary values,
and types that it may add later. Main parts: `ServiceValue.ofAttribute` and
`ServiceValue.toAttribute`, by which values go to the service and come back.
-/

namespace SingleTable

/-- A value as the service holds it. -/
inductive ServiceValue where
  | string (s : String)
  | number (text : String)
  | binary (bytes : Bytes)
  | bool (b : Bool)
  | null (flag : Bool)
  | list (items : List ServiceValue)
  | map (entries : List (String × ServiceValue))
  | stringSet (members : List String)
  | numberSet (members : List String)
  | binarySet (members : List Bytes)
  | unknown
  deriving Repr

/-- An item as the service holds it. -/
abbrev ServiceItem := Dict ServiceValue

/-- One write of a batch in the form of the service. -/
structure ServiceWrite where
  put : Option ServiceItem := none
  delete : Option ServiceItem := none

/-! ## Conversion -/

namespace ServiceValue

mutual

/-- The value of the service for an attribute value. -/
def ofAttribute : AttributeValue → ServiceValue
  | .string s => .string s
  | .number text => .number text
  | .binary bytes => .binary bytes
  | .bool b => .bool b
  | .null flag => .null flag
  | .list items => .list (ofAttributes items)
  | .map entries => .map (ofEntries entries)

/-- The values of the service for a list of attribute values. -/
def ofAttributes : List AttributeValue → List ServiceValue
  | [] => []
  | v :: vs => ofAttribute v :: ofAttributes vs

/-- The entries of the service for the entries of a map. -/
def ofEntries : List (String × AttributeValue) → List (String × ServiceValue)
  | [] => []
  | (k, v) :: es => (k, ofAttribute v) :: ofEntries es

end

/-- The refusal of a value of an unknown type. -/
def unsupported : StoreError := .validation "unsupported attribute value: Unknown"

mutual

/-- The attribute value for a value of the service; a set becomes the list of its members. -/
def toAttribute : ServiceValue → Except StoreError AttributeValue
  | .string s => .ok (.string s)
  | .number text => .ok (.number text)
  | .binary bytes => .ok (.binary bytes)
  | .bool b => .ok (.bool b)
  | .null flag => .ok (.null flag)
  | .list items => (toAttributes items).map .list
  | .map entries => (toEntries entries).map .map
  | .stringSet members => .ok (.list (members.map .string))
  | .numberSet members => .ok (.list (members.map .number))
  | .binarySet members => .ok (.list (members.map .binary))
  | .unknown => .error unsupported

/-- The attribute values for a list of values of the service. -/
def toAttributes : List ServiceValue → Except StoreError (List AttributeValue)
  | [] => .ok []
  | v :: vs => do
      let a ← toAttribute v
      let as ← toAttributes vs
      return a :: as

/-- The entries of a map for entries of the service. -/
def toEntries : List (String × ServiceValue) → Except StoreError (List (String × AttributeValue))
  | [] => .ok []
  | (k, v) :: es => do
      let a ← toAttribute v
      let as ← toEntries es
      return (k, a) :: as

end

end ServiceValue

/-- The item of the service for an item. -/
def ServiceItem.ofItem (item : Item) : ServiceItem := item.map ServiceValue.ofAttribute

/-- The item for an item of the service. -/
def ServiceItem.toItem (item : ServiceItem) : Except StoreError Item :=
  item.mapM? ServiceValue.toAttribute

/-! ## JSON form -/

namespace ServiceValue

mutual

/-- The JSON form of a value. -/
def encode : ServiceValue → Json
  | .string s => .object [("S", .string s)]
  | .number text => .object [("N", .string text)]
  | .binary bytes => .object [("B", .string (Base64.encode bytes))]
  | .bool b => .object [("BOOL", .bool b)]
  | .null flag => .object [("NULL", .bool flag)]
  | .list items => .object [("L", .array (encodeItems items))]
  | .map entries => .object [("M", .object (encodeEntries entries))]
  | .stringSet members => .object [("SS", .array (members.map .string))]
  | .numberSet members => .object [("NS", .array (members.map .string))]
  | .binarySet members =>
    .object [("BS", .array (members.map (fun b => .string (Base64.encode b))))]
  | .unknown => .object []

/-- The JSON forms of the values of a list. -/
def encodeItems : List ServiceValue → List Json
  | [] => []
  | v :: vs => encode v :: encodeItems vs

/-- The JSON forms of the entries of a map. -/
def encodeEntries : List (String × ServiceValue) → List (String × Json)
  | [] => []
  | (k, v) :: es => (k, encode v) :: encodeEntries es

end

/-- The texts of an array of strings. -/
def readTexts? : Json → Option (List String)
  | .array items => items.mapM Json.asString?
  | _ => none

/-- The bytes of a string in base64. -/
def readBytes? (j : Json) : Option Bytes :=
  j.asString?.bind (fun s => (Base64.decode s).toOption)

mutual

/-- The value of a JSON form: an object with one member that is not null. A member whose name is not
the name of a type stands for an unknown value, except `__type`, which stands for nothing. -/
def read? : Json → Option ServiceValue
  | .object members =>
      match readMembers? members with
      | some [v] => some v
      | _ => none
  | _ => none

/-- The values that the members of an object stand for; null members stand for nothing. -/
def readMembers? : List (String × Json) → Option (List ServiceValue)
  | [] => some []
  | (_, .null) :: ms => readMembers? ms
  | (key, content) :: ms =>
      if key = "__type" then readMembers? ms
      else do
        let v ← readContent? key content
        let vs ← readMembers? ms
        return v :: vs

/-- The value of a member with the given name. -/
def readContent? (key : String) (content : Json) : Option ServiceValue :=
  if key = "S" then content.asString?.map .string
  else if key = "N" then content.asString?.map .number
  else if key = "B" then (readBytes? content).map .binary
  else if key = "BOOL" then
    match content with
    | .bool b => some (.bool b)
    | _ => none
  else if key = "NULL" then
    match content with
    | .bool b => some (.null b)
    | _ => none
  else if key = "L" then
    match content with
    | .array items => (readItems? items).map .list
    | _ => none
  else if key = "M" then
    match content with
    | .object members => (readEntries? members).map .map
    | _ => none
  else if key = "SS" then (readTexts? content).map .stringSet
  else if key = "NS" then (readTexts? content).map .numberSet
  else if key = "BS" then
    match content with
    | .array items => (items.mapM readBytes?).map .binarySet
    | _ => none
  else some .unknown

/-- The values of the items of an array. -/
def readItems? : List Json → Option (List ServiceValue)
  | [] => some []
  | j :: js => do
      let v ← read? j
      let vs ← readItems? js
      return v :: vs

/-- The values of the members of a map. -/
def readEntries? : List (String × Json) → Option (List (String × ServiceValue))
  | [] => some []
  | (k, j) :: ms => do
      let v ← read? j
      let vs ← readEntries? ms
      return (k, v) :: vs

end

end ServiceValue

/-- The JSON form of an item. -/
def ServiceItem.encode (item : ServiceItem) : Json :=
  .object (item.map ServiceValue.encode).entries

/-- The item of a JSON form. -/
def ServiceItem.read? : Json → Option ServiceItem
  | .object members => (ServiceValue.readEntries? members).map Dict.ofList
  | _ => none

/-- The value of a member that may be absent or null. -/
def readOptional? {α : Type} (read : Json → Option α) (j : Json) (name : String) :
    Option (Option α) :=
  match j.member? name with
  | none => some none
  | some .null => some none
  | some content => (read content).map some

/-! ## Writes -/

namespace ServiceWrite

/-- A write in the form of the service. -/
def ofRequest (w : WriteRequest) : ServiceWrite where
  put := w.put.map ServiceItem.ofItem
  delete := w.delete.map ServiceItem.ofItem

/-- An optional item from the form of the service. -/
def optionalItem : Option ServiceItem → Except StoreError (Option Item)
  | none => .ok none
  | some item => item.toItem.map some

/-- The write for a write of the service. -/
def toRequest (w : ServiceWrite) : Except StoreError WriteRequest := do
  let put ← optionalItem w.put
  let delete ← optionalItem w.delete
  return ⟨put, delete⟩

/-- The writes to each table in the form of the service. -/
def ofRequests (writes : Dict (List WriteRequest)) : Dict (List ServiceWrite) :=
  writes.map (List.map ofRequest)

/-- The writes to each table from the form of the service. -/
def toRequests (writes : Dict (List ServiceWrite)) : Except StoreError (Dict (List WriteRequest)) :=
  writes.mapM? (List.mapM toRequest)

/-- The JSON form of a write. -/
def encode (w : ServiceWrite) : Json :=
  Json.ofMembers
    [("DeleteRequest", w.delete.map (fun key => .object [("Key", key.encode)])),
     ("PutRequest", w.put.map (fun item => .object [("Item", item.encode)]))]

/-- The item under a name in the member of a write; it is empty if there is none. -/
def readPart? (name : String) : Json → Option ServiceItem
  | .object members =>
      match members.lookup name with
      | none => some {}
      | some .null => some {}
      | some j => ServiceItem.read? j
  | _ => none

/-- The write of a JSON form. -/
def read? (j : Json) : Option ServiceWrite :=
  match j with
  | .object _ => do
      let put ← readOptional? (readPart? "Item") j "PutRequest"
      let delete ← readOptional? (readPart? "Key") j "DeleteRequest"
      return ⟨put, delete⟩
  | _ => none

end ServiceWrite

end SingleTable
