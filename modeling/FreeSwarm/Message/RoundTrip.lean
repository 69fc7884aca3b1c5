import FreeSwarm.Message.Classes

/-!
# What is sent is what is received

Every message whose fields can be sent is received as it was, its tuples as lists, whatever keys the
dicts in it use. The wrapping of a dict is undone where it was made, at each depth, so no dict of a
client is received as a message or a tensor.
-/

namespace FreeSwarm.Message

open FreeSwarm.Foundation

/-! ## What msgpack gives back -/

mutual

def Value.listed : Value → Value
  | .list items => .list (listedItems items)
  | .tuple items => .list (listedItems items)
  | .dict members => .dict (listedMembers members)
  | .object className fields => .object className (listedMembers fields)
  | v => v

def listedItems : List Value → List Value
  | [] => []
  | v :: rest => v.listed :: listedItems rest

def listedMembers : List (List Char × Value) → List (List Char × Value)
  | [] => []
  | (key, v) :: rest => (key, v.listed) :: listedMembers rest

end

@[simp] theorem map_fst_listedMembers (members : List (List Char × Value)) :
    (listedMembers members).map Prod.fst = members.map Prod.fst := by
  induction members with
  | nil => rfl
  | cons member rest ih => simp [listedMembers, ih]

theorem map_fst_serializeMembers {np : NumpyTypes} {members sent : List (List Char × Value)}
    (sends : serializeMembers np members = some sent) :
    sent.map Prod.fst = members.map Prod.fst := by
  induction members generalizing sent with
  | nil =>
    simp only [serializeMembers, Option.some.injEq] at sends
    simp [← sends]
  | cons member rest ih =>
    simp only [serializeMembers, Option.bind_eq_some_iff, Option.map_eq_some_iff] at sends
    obtain ⟨v, -, rest', sendsRest, rfl⟩ := sends
    simp [ih sendsRest]

/-! ## What can be sent -/

/-- A tensor that can be sent: of one dimension, of a type that NumPy has, with all its bytes. -/
def Tensor.Held (np : NumpyTypes) (t : Tensor) : Prop :=
  ∃ count size, np.itemSize t.dtype = some size ∧ t.shape = [count] ∧
    t.buffer.length = count * size

def ClassMap.Fits (classes : ClassMap) (className : List Char)
    (fields : List (List Char × Value)) : Prop :=
  ∃ cls, classes.find className = some cls ∧ fields.map Prod.fst = cls.fields.map Prod.fst

mutual

/-- A value that can be sent: no dict has a key twice, the objects are messages of the classes, and
the tensors can be sent. -/
def Value.Sendable (np : NumpyTypes) (classes : ClassMap) : Value → Prop
  | .dict members => (members.map Prod.fst).Nodup ∧ SendableMembers np classes members
  | .list items => SendableItems np classes items
  | .tuple items => SendableItems np classes items
  | .tensor t => t.Held np
  | .object className fields => classes.Fits className fields ∧ SendableMembers np classes fields
  | _ => True

def SendableItems (np : NumpyTypes) (classes : ClassMap) : List Value → Prop
  | [] => True
  | v :: rest => v.Sendable np classes ∧ SendableItems np classes rest

def SendableMembers (np : NumpyTypes) (classes : ClassMap) : List (List Char × Value) → Prop
  | [] => True
  | (_, v) :: rest => v.Sendable np classes ∧ SendableMembers np classes rest

end

/-! ## Reading what was sent -/

section

variable {np : NumpyTypes} {classes : ClassMap}

variable {members : List (List Char × Value)}

theorem deserializeFields_of_untagged
    (untagged : typeKey ∉ members.map Prod.fst) :
    deserializeFields np classes members = deserializeMembers np classes members := by
  induction members with
  | nil => rfl
  | cons member rest ih =>
    rw [List.map_cons, List.mem_cons, not_or] at untagged
    rw [deserializeFields, deserializeMembers, if_neg (Ne.symm untagged.1), ih untagged.2]

attribute [local grind =] deserializeAny

theorem deserializeAny_single {key : List Char} (unwrapped : key ≠ rawDictKey) (v : Value) :
    deserializeAny np classes (.dict [(key, v)]) =
      if key = typeKey then deserializeTyped np classes [(key, v)] (some [])
      else (deserializeAny np classes v).map fun v => .dict [(key, v)] := by
  cases v <;> simp only [deserializeAny, if_neg unwrapped]

theorem deserializeAny_plain
    (untagged : typeKey ∉ members.map Prod.fst) (unwrapped : rawDictKey ∉ members.map Prod.fst) :
    deserializeAny np classes (.dict members) =
      (deserializeMembers np classes members).map .dict := by
  match members with
  | [] => simp [deserializeAny, deserializeMembers]
  | [(key, v)] =>
    simp only [List.map_cons, List.map_nil, List.mem_singleton] at untagged unwrapped
    rw [deserializeAny_single (Ne.symm unwrapped), if_neg (Ne.symm untagged)]
    simp only [deserializeMembers, Option.map_some]
    cases deserializeAny np classes v <;> rfl
  | first :: second :: rest =>
    rw [deserializeAny, if_neg untagged]
    simp

variable {fields : List (List Char × Value)}

theorem deserializeAny_typed (name : Value)
    (untagged : typeKey ∉ fields.map Prod.fst) :
    deserializeAny np classes (.dict ((typeKey, name) :: fields)) =
      deserializeTyped np classes ((typeKey, name) :: fields)
        (deserializeMembers np classes fields) := by
  match fields with
  | [] => rw [deserializeAny_single (by decide), if_pos rfl, deserializeMembers]
  | first :: rest =>
    rw [deserializeAny, if_pos (by simp), deserializeFields, if_pos rfl,
      deserializeFields_of_untagged untagged]
    simp

/-! ## Tensors and messages -/

theorem Tensor.Held.received {t : Tensor} (held : t.Held np) (classes : ClassMap) :
    ∃ sent, serializeTensor np t = some sent ∧
      deserializeAny np classes sent.listed = some (.tensor t) := by
  obtain ⟨count, size, sized, shape, bytes⟩ := held
  have pos : 0 < size := np.pos sized
  refine ⟨_, by rw [serializeTensor, if_pos (by simp [shape]), sized]; rfl, ?_⟩
  have name : removeAll torchPrefix (torchPrefix ++ t.dtype) = t.dtype := by
    have split : removeAll torchPrefix ([] ++ torchPrefix ++ t.dtype) =
        [] ++ removeAll torchPrefix t.dtype := removeAll_split (by decide) (by simp [ClearBelow])
    simpa [removeAll_of_free (np.plain sized)] using split
  simp only [Value.listed, listedMembers]
  have untagged : typeKey ∉ ["buffer".toList, "dtype".toList] := by decide
  rw [deserializeAny_typed _ (by simpa using untagged), deserializeTyped]
  simp only [List.lookup_cons_self, if_true]
  have readBuffer : List.lookup "buffer".toList [(typeKey, Value.str tensorName),
      ("buffer".toList, .bytes t.buffer), ("dtype".toList, .str (torchPrefix ++ t.dtype))] =
      some (.bytes t.buffer) := rfl
  have readDtype : List.lookup "dtype".toList [(typeKey, Value.str tensorName),
      ("buffer".toList, .bytes t.buffer), ("dtype".toList, .str (torchPrefix ++ t.dtype))] =
      some (.str (torchPrefix ++ t.dtype)) := rfl
  have whole : t.buffer.length / size = count := by
    rw [bytes, Nat.mul_div_cancel _ pos]
  rw [deserializeTensor, readBuffer, readDtype]
  simp only [name, sized, Option.bind_some, whole]
  rw [if_pos ⟨count, by rw [bytes, Nat.mul_comm]⟩, ← shape]

/-- What a list of pairs without a repeated key holds is found under its key. -/
theorem lookup_of_mem {β : Type*} {pairs : List (List Char × β)} {pair : List Char × β}
    (nodup : (pairs.map Prod.fst).Nodup) (mem : pair ∈ pairs) :
    pairs.lookup pair.1 = some pair.2 := by
  induction pairs with
  | nil => exact absurd mem List.not_mem_nil
  | cons first rest ih =>
    rw [List.map_cons, List.nodup_cons] at nodup
    rcases List.mem_cons.mp mem with rfl | later
    · exact List.lookup_cons_self
    · have apart : pair.1 ≠ first.1 := by
        intro same
        exact nodup.1 (same ▸ List.mem_map_of_mem later)
      rw [List.lookup_cons, show (pair.1 == first.1) = false by simpa using apart]
      exact ih nodup.2 later

theorem MessageClass.construct_fields (cls : MessageClass) (className : List Char)
    (named : fields.map Prod.fst = cls.fields.map Prod.fst) :
    cls.construct className fields = some (.object className fields) := by
  have found : ∀ (params : List (List Char × Option Value)) (args : List (List Char × Value)),
      args.map Prod.fst = params.map Prod.fst →
      (∀ arg ∈ args, fields.lookup arg.1 = some arg.2) →
      (params.mapM fun param =>
        ((fields.lookup param.1).or param.2).map fun v => (param.1, v)) = some args := by
    intro params
    induction params with
    | nil =>
      intro args same _
      obtain rfl : args = [] := by simpa using same
      rfl
    | cons param params ih =>
      intro args same look
      cases args with
      | nil => simp at same
      | cons arg args =>
        rw [List.map_cons, List.map_cons, List.cons.injEq] at same
        have first := look arg List.mem_cons_self
        have others := ih args same.2 fun arg mem => look arg (List.mem_cons_of_mem _ mem)
        rw [List.mapM_cons, others, ← same.1, first]
        rfl
  have nodup : (fields.map Prod.fst).Nodup := named ▸ cls.nodup
  rw [construct, if_pos (by rw [named]; exact fun _ mem => mem),
    found cls.fields fields named fun arg mem => lookup_of_mem nodup mem]
  rfl

theorem ClassMap.Fits.tagged {className : List Char} {fields sent : List (List Char × Value)}
    (fits : classes.Fits className fields) (sends : serializeMembers np fields = some sent) :
    typeKey ∉ sent.map Prod.fst ∧
      dictOf ((typeKey, .str className) :: sent) = (typeKey, .str className) :: sent := by
  obtain ⟨cls, -, named⟩ := fits
  have keys : sent.map Prod.fst = cls.fields.map Prod.fst :=
    (map_fst_serializeMembers sends).trans named
  constructor
  · rw [keys]
    exact cls.untagged
  · apply dictOf_of_nodup
    rw [List.map_cons, List.nodup_cons, keys]
    exact ⟨cls.untagged, cls.nodup⟩

end

/-! ## The round trip -/

section

variable (np : NumpyTypes) (classes : ClassMap)

mutual

theorem received_sent : ∀ v : Value, v.Sendable np classes →
    ∃ sent, serializeAny np v = some sent ∧
      deserializeAny np classes sent.listed = some v.listed
  | .none, _ => ⟨.none, rfl, rfl⟩
  | .bool _, _ => ⟨_, rfl, rfl⟩
  | .int _, _ => ⟨_, rfl, rfl⟩
  | .float _, _ => ⟨_, rfl, rfl⟩
  | .str _, _ => ⟨_, rfl, rfl⟩
  | .bytes _, _ => ⟨_, rfl, rfl⟩
  | .list items, sendable => by
    obtain ⟨sent, sends, receives⟩ := receivedItems_sent items sendable
    refine ⟨.list sent, by rw [serializeAny, sends]; rfl, ?_⟩
    rw [Value.listed, Value.listed, deserializeAny, receives, Option.map_some]
  | .tuple items, sendable => by
    obtain ⟨sent, sends, receives⟩ := receivedItems_sent items sendable
    refine ⟨.tuple sent, by rw [serializeAny, sends]; rfl, ?_⟩
    rw [Value.listed, Value.listed, deserializeAny, receives, Option.map_some]
  | .tensor t, sendable => by
    simpa [serializeAny, Value.listed] using Tensor.Held.received sendable classes
  | .dict members, sendable => by
    obtain ⟨sent, sends, receives⟩ := receivedMembers_sent members sendable.2
    refine ⟨guardDict sent, by rw [serializeAny, sends]; rfl, ?_⟩
    rw [Value.listed, guardDict]
    split_ifs with guarded
    · -- the wrapper has one member, whose key is looked at before that of a message
      rw [Value.listed, listedMembers, listedMembers, Value.listed, deserializeAny, if_pos rfl,
        receives, Option.map_some]
    · rw [not_or] at guarded
      rw [Value.listed, deserializeAny_plain (by simpa using guarded.1) (by simpa using guarded.2),
        receives, Option.map_some]
  | .object className fields, sendable => by
    obtain ⟨⟨cls, found, named⟩, members⟩ := sendable
    obtain ⟨sent, sends, receives⟩ := receivedMembers_sent fields members
    obtain ⟨untagged, tagged⟩ := ClassMap.Fits.tagged ⟨cls, found, named⟩ sends
    have other : className ≠ tensorName := by
      rintro rfl
      simp [classes.noTensor] at found
    refine ⟨.dict ((typeKey, .str className) :: sent), ?_, ?_⟩
    · rw [serializeAny, sends, Option.map_some, tagged]
    · have name : (Value.str className).listed = .str className := rfl
      rw [Value.listed, listedMembers, name, deserializeAny_typed _ (by simpa using untagged),
        receives, deserializeTyped, List.lookup_cons_self]
      simp only [if_neg other, found, Option.bind_some]
      rw [cls.construct_fields className (by simpa using named), Value.listed]

theorem receivedItems_sent : ∀ items : List Value, SendableItems np classes items →
    ∃ sent, serializeItems np items = some sent ∧
      deserializeItems np classes (listedItems sent) = some (listedItems items)
  | [], _ => ⟨[], rfl, rfl⟩
  | v :: rest, sendable => by
    obtain ⟨sent, sends, receives⟩ := received_sent v sendable.1
    obtain ⟨sentRest, sendsRest, receivesRest⟩ := receivedItems_sent rest sendable.2
    refine ⟨sent :: sentRest, by rw [serializeItems, sends, sendsRest]; rfl, ?_⟩
    rw [listedItems, deserializeItems, receives, receivesRest]
    rfl

theorem receivedMembers_sent : ∀ members : List (List Char × Value),
    SendableMembers np classes members →
    ∃ sent, serializeMembers np members = some sent ∧
      deserializeMembers np classes (listedMembers sent) = some (listedMembers members)
  | [], _ => ⟨[], rfl, rfl⟩
  | (key, v) :: rest, sendable => by
    obtain ⟨sent, sends, receives⟩ := received_sent v sendable.1
    obtain ⟨sentRest, sendsRest, receivesRest⟩ := receivedMembers_sent rest sendable.2
    refine ⟨(key, sent) :: sentRest, by rw [serializeMembers, sends, sendsRest]; rfl, ?_⟩
    rw [listedMembers, deserializeMembers, receives, receivesRest]
    rfl

end

end

/-- What is received for a message that is sent. -/
def transmitType (np : NumpyTypes) (classes : ClassMap) (v : Value) : Option Value :=
  ((serializeType np v).map Value.listed).bind (deserializeType np classes)

/-- What is received for a value inside a message that is sent. -/
def transmitAny (np : NumpyTypes) (classes : ClassMap) (v : Value) : Option Value :=
  ((serializeAny np v).map Value.listed).bind (deserializeAny np classes)

theorem transmitAny_eq {np : NumpyTypes} {classes : ClassMap} {v : Value}
    (sendable : v.Sendable np classes) : transmitAny np classes v = some v.listed := by
  obtain ⟨sent, sends, receives⟩ := received_sent np classes v sendable
  rw [transmitAny, sends, Option.map_some, Option.bind_some, receives]

theorem transmitType_eq {np : NumpyTypes} {classes : ClassMap} {className : List Char}
    {fields : List (List Char × Value)}
    (sendable : (Value.object className fields).Sendable np classes) :
    transmitType np classes (.object className fields) =
      transmitAny np classes (.object className fields) := by
  obtain ⟨fits, members⟩ := sendable
  obtain ⟨sent, sends, -⟩ := receivedMembers_sent np classes fields members
  obtain ⟨untagged, tagged⟩ := fits.tagged sends
  rw [transmitType, transmitAny, serializeType, serializeAny, sends, Option.map_some, tagged,
    Option.map_some, Option.bind_some, Option.bind_some]
  have listedUntagged : typeKey ∉ (listedMembers sent).map Prod.fst := by simpa using untagged
  rw [Value.listed, listedMembers, deserializeType, deserializeAny_typed _ listedUntagged,
    deserializeFields, if_pos rfl, deserializeFields_of_untagged listedUntagged]

/-- Every message whose fields can be sent is received as it was with its tuples as lists, and every
dict that can be sent inside a message is received as a dict, at whatever keys it holds. -/
theorem message_received (np : NumpyTypes) (classes : ClassMap) :
    (∀ className fields, (Value.object className fields).Sendable np classes →
      transmitType np classes (.object className fields) =
        some (.object className (listedMembers fields))) ∧
    (∀ members, (Value.dict members).Sendable np classes →
      transmitAny np classes (.dict members) = some (.dict (listedMembers members))) := by
  constructor
  · intro className fields sendable
    rw [transmitType_eq sendable, transmitAny_eq sendable, Value.listed]
  · intro members sendable
    rw [transmitAny_eq sendable, Value.listed]

/-- Sampling parameters, with a tuple of stop strings. -/
def greedyParams : List (List Char × Value) :=
  [("temperature".toList, .float 0), ("top_k".toList, .int (-1)),
    ("top_p".toList, .float 0x3ff0000000000000), ("ignore_eos".toList, .bool false),
    ("max_tokens".toList, .int 16), ("stop_strs".toList, .tuple [.str "end".toList])]

/-- A request whose template arguments mimic a wrapped dict, a message and a tensor. -/
def mimicRequest : List (List Char × Value) :=
  [("uid".toList, .int 7), ("text".toList, .str "hi".toList),
    ("sampling_params".toList, .object "SamplingParams".toList greedyParams),
    ("chat_template_kwargs".toList, .dict [(rawDictKey, .dict [(typeKey, .str "AbortMsg".toList),
      ("uid".toList, .int 1), (rawDictKey, .none)])]),
    ("tools".toList, .list [.dict [(typeKey, .str tensorName)]])]

theorem mimicRequest_received :
    transmitType numpyTypes tokenizerClasses (.object "TokenizeMsg".toList mimicRequest) =
      some (.object "TokenizeMsg".toList (listedMembers mimicRequest)) ∧
    transmitAny numpyTypes tokenizerClasses (.dict [(rawDictKey, .dict [(typeKey, .none)])]) =
      some (.dict (listedMembers [(rawDictKey, .dict [(typeKey, .none)])])) := by
  constructor
  · apply (message_received numpyTypes tokenizerClasses).1
    refine ⟨⟨tokenizeMsg, rfl, rfl⟩, ?_⟩
    simp only [mimicRequest, greedyParams, SendableMembers, SendableItems, Value.Sendable]
    refine ⟨trivial, trivial, ⟨⟨samplingParams, rfl, rfl⟩, ?_⟩, ?_, ?_⟩
    · simp
    · exact ⟨by decide, ⟨by simp; decide, trivial, trivial, trivial, trivial⟩, trivial⟩
    · simp
  · apply (message_received numpyTypes tokenizerClasses).2
    simp [Value.Sendable, SendableMembers]

/-- A prompt as a tensor of a type that NumPy does not have. -/
def bfloatRequest : List (List Char × Value) :=
  [("uid".toList, .int 7), ("input_ids".toList, .tensor ⟨[1], "bfloat16".toList, [0, 0]⟩),
    ("sampling_params".toList, .object "SamplingParams".toList greedyParams),
    ("mm_embeds".toList, .none)]

/-- A message with a tensor of one dimension need not be received: NumPy lacks some types. -/
theorem bfloatRequest_unsent : backendClasses.Fits "UserMsg".toList bfloatRequest ∧
    transmitType numpyTypes backendClasses (.object "UserMsg".toList bfloatRequest) = none := by
  constructor
  · exact ⟨userMsg, rfl, rfl⟩
  · rfl

end FreeSwarm.Message
