import FreeSwarm.Foundation.Json
import FreeSwarm.Foundation.Markers

/-!
# The wire format of messages

The messages between the server's processes are objects of known classes. Each is sent as a dict
of plain values that says its class under a key of its own, and is built again from that dict. The
dicts of a client travel inside messages and may use that key too: such a dict is wrapped, so that it
is not taken for a message, and so is one that looks like a wrapped dict.

What is sent passes through msgpack, which gives back the value with its tuples as lists.
-/

namespace FreeSwarm.Message

open FreeSwarm.Foundation

structure Tensor where
  shape : List Nat
  dtype : List Char
  buffer : List UInt8
  deriving DecidableEq

/-- A value in a field of a message, or in what is sent for one. -/
inductive Value where
  | none
  | bool (value : Bool)
  | int (value : Int)
  | float (bits : UInt64)
  | str (text : List Char)
  | bytes (data : List UInt8)
  | list (items : List Value)
  | tuple (items : List Value)
  | dict (members : List (List Char × Value))
  | tensor (tensor : Tensor)
  | object (className : List Char) (fields : List (List Char × Value))

/-- The key that says the class of a message. -/
def typeKey : List Char := "__type__".toList

def rawDictKey : List Char := "__raw_dict__".toList

def tensorName : List Char := "Tensor".toList

/-- What the name of an element type of the tensor library starts with. -/
def torchPrefix : List Char := "torch.".toList

/-- The element types that NumPy has. -/
structure NumpyTypes where
  itemSize : List Char → Option Nat
  pos : ∀ {name size}, itemSize name = some size → 0 < size
  plain : ∀ {name size}, itemSize name = some size → ¬ torchPrefix <:+: name

structure MessageClass where
  fields : List (List Char × Option Value)
  nodup : (fields.map Prod.fst).Nodup
  untagged : typeKey ∉ fields.map Prod.fst

structure ClassMap where
  find : List Char → Option MessageClass
  noTensor : find tensorName = none

/-! ## Sending -/

/-- What is sent for a tensor. NumPy cannot hold the elements of every type. -/
def serializeTensor (np : NumpyTypes) (t : Tensor) : Option Value :=
  if t.shape.length = 1 then
    (np.itemSize t.dtype).map fun _ =>
      .dict [(typeKey, .str tensorName), ("buffer".toList, .bytes t.buffer),
        ("dtype".toList, .str (torchPrefix ++ t.dtype))]
  else none

/-- A dict as it is, or wrapped when it uses one of the two keys. -/
def guardDict (encoded : List (List Char × Value)) : Value :=
  if typeKey ∈ encoded.map Prod.fst ∨ rawDictKey ∈ encoded.map Prod.fst then
    .dict [(rawDictKey, .dict encoded)]
  else .dict encoded

mutual

def serializeAny (np : NumpyTypes) : Value → Option Value
  | .dict members => (serializeMembers np members).map guardDict
  | .list items => (serializeItems np items).map .list
  | .tuple items => (serializeItems np items).map .tuple
  | .tensor t => serializeTensor np t
  | .object className fields =>
    (serializeMembers np fields).map fun fields =>
      .dict (dictOf ((typeKey, .str className) :: fields))
  | v => some v

def serializeItems (np : NumpyTypes) : List Value → Option (List Value)
  | [] => some []
  | v :: rest =>
    (serializeAny np v).bind fun v => (serializeItems np rest).map fun rest => v :: rest

def serializeMembers (np : NumpyTypes) :
    List (List Char × Value) → Option (List (List Char × Value))
  | [] => some []
  | (key, v) :: rest =>
    (serializeAny np v).bind fun v => (serializeMembers np rest).map fun rest => (key, v) :: rest

end

variable (np : NumpyTypes)

/-- What is sent for a message. -/
def serializeType : Value → Option Value
  | .tensor t => serializeTensor np t
  | .object className fields => serializeAny np (.object className fields)
  | _ => none

/-! ## Receiving -/

def MessageClass.construct (cls : MessageClass) (className : List Char)
    (kwargs : List (List Char × Value)) : Option Value :=
  if ∀ key ∈ kwargs.map Prod.fst, key ∈ cls.fields.map Prod.fst then
    (cls.fields.mapM fun field =>
      ((kwargs.lookup field.1).or field.2).map fun v => (field.1, v)).map (.object className)
  else none

def deserializeTensor (data : List (List Char × Value)) : Option Value :=
  match data.lookup "buffer".toList, data.lookup "dtype".toList with
  | some (.bytes buffer), some (.str dtypeStr) =>
    let dtype := removeAll torchPrefix dtypeStr
    (np.itemSize dtype).bind fun size =>
      if size ∣ buffer.length then some (.tensor ⟨[buffer.length / size], dtype, buffer⟩) else none
  | _, _ => none

/-- The message that was sent as the given dict, with its fields read already. -/
def deserializeTyped (classes : ClassMap) (data : List (List Char × Value))
    (kwargs : Option (List (List Char × Value))) : Option Value :=
  match data.lookup typeKey with
  | some (.str typeName) =>
    if typeName = tensorName then deserializeTensor np data
    else (classes.find typeName).bind fun cls => kwargs.bind (cls.construct typeName)
  | _ => none

mutual

/-- The value that was sent. A dict of one member is looked at first, as it may be a wrapper. -/
def deserializeAny (np : NumpyTypes) (classes : ClassMap) : Value → Option Value
  | .dict [(key, inner)] =>
    if key = rawDictKey then
      match inner with
      | .dict inner => (deserializeMembers np classes inner).map .dict
      | _ => none
    else if key = typeKey then deserializeTyped np classes [(key, inner)] (some [])
    else (deserializeAny np classes inner).map fun v => .dict [(key, v)]
  | .dict members =>
    if typeKey ∈ members.map Prod.fst then
      deserializeTyped np classes members (deserializeFields np classes members)
    else (deserializeMembers np classes members).map .dict
  | .list items => (deserializeItems np classes items).map .list
  | .tuple items => (deserializeItems np classes items).map .tuple
  | .tensor _ => none
  | .object _ _ => none
  | v => some v

def deserializeItems (np : NumpyTypes) (classes : ClassMap) : List Value → Option (List Value)
  | [] => some []
  | v :: rest =>
    (deserializeAny np classes v).bind fun v =>
      (deserializeItems np classes rest).map fun rest => v :: rest

def deserializeMembers (np : NumpyTypes) (classes : ClassMap) :
    List (List Char × Value) → Option (List (List Char × Value))
  | [] => some []
  | (key, v) :: rest =>
    (deserializeAny np classes v).bind fun v =>
      (deserializeMembers np classes rest).map fun rest => (key, v) :: rest

def deserializeFields (np : NumpyTypes) (classes : ClassMap) :
    List (List Char × Value) → Option (List (List Char × Value))
  | [] => some []
  | (key, v) :: rest =>
    if key = typeKey then deserializeFields np classes rest
    else
      (deserializeAny np classes v).bind fun v =>
        (deserializeFields np classes rest).map fun rest => (key, v) :: rest

end

/-- The message that was sent. -/
def deserializeType (np : NumpyTypes) (classes : ClassMap) : Value → Option Value
  | .dict members => deserializeTyped np classes members (deserializeFields np classes members)
  | _ => none

end FreeSwarm.Message
