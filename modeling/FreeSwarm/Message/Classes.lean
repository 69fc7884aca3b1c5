import FreeSwarm.Message.Wire

/-!
# The message classes

The classes of the three kinds of messages, with their fields and the defaults of these, and the
element types that NumPy has.
-/

namespace FreeSwarm.Message

/-- A field without a default. -/
def required (name : String) : List Char × Option Value := (name.toList, none)

def optional (name : String) (default : Value) : List Char × Option Value :=
  (name.toList, some default)

def ClassMap.ofList (classes : List (List Char × MessageClass))
    (noTensor : tensorName ∉ classes.map Prod.fst) : ClassMap where
  find := fun name => classes.lookup name
  noTensor := by
    rw [List.lookup_eq_none_iff]
    intro pair mem
    simpa using fun same : tensorName = pair.1 => noTensor (same ▸ List.mem_map_of_mem mem)

/-! ## Fields that several classes share -/

def rebuildFields : List (List Char × Option Value) :=
  [required "request_id", optional "moe_cache_size" .none, optional "num_pages" .none,
    optional "num_mamba_slots" .none, optional "num_swa_pages" .none,
    optional "mode" (.str "if_idle".toList)]

/-- The fields of the answer to such a request. -/
def rebuildReplyFields : List (List Char × Option Value) :=
  [required "request_id", required "status", optional "moe_cache_size" (.int 0),
    optional "num_pages" (.int 0), optional "mamba_slots" (.int 0),
    optional "num_swa_pages" (.int 0), optional "error" .none]

/-- The use of the pools, as each step reports it. -/
def poolFields : List (List Char × Option Value) :=
  [optional "kv_used_pages" (.int 0), optional "kv_total_pages" (.int 0),
    optional "mamba_used_slots" (.int 0), optional "mamba_total_slots" (.int 0),
    optional "swa_used_tokens" (.int 0), optional "swa_total_tokens" (.int 0),
    optional "gpu_mem_bytes" (.int 0)]

def emptyClass : MessageClass := ⟨[], by decide, by decide⟩

def batchClass : MessageClass := ⟨[required "data"], by decide, by decide⟩

def abortClass : MessageClass := ⟨[required "uid"], by decide, by decide⟩

def rebuildClass : MessageClass := ⟨rebuildFields, by decide, by decide⟩

def rebuildReplyClass : MessageClass := ⟨rebuildReplyFields, by decide, by decide⟩

/-- How the tokens of a request are sampled. The temperature and the top share are 0 and 1. -/
def samplingParams : MessageClass where
  fields := [optional "temperature" (.float 0), optional "top_k" (.int (-1)),
    optional "top_p" (.float 0x3ff0000000000000), optional "ignore_eos" (.bool false),
    optional "max_tokens" (.int 1024), optional "stop_strs" (.list [])]
  nodup := by decide
  untagged := by decide

/-! ## Messages to the scheduler -/

/-- A request with its prompt. -/
def userMsg : MessageClass where
  fields := [required "uid", required "input_ids", required "sampling_params",
    optional "mm_embeds" .none]
  nodup := by decide
  untagged := by decide

def backendClasses : ClassMap :=
  .ofList [("SamplingParams".toList, samplingParams), ("BaseBackendMsg".toList, emptyClass),
    ("BatchBackendMsg".toList, batchClass), ("ExitMsg".toList, emptyClass),
    ("UserMsg".toList, userMsg), ("AbortBackendMsg".toList, abortClass),
    ("CacheRebuildBackendMsg".toList, rebuildClass)] (by decide)

/-! ## Messages to the frontend -/

/-- A part of the answer to a request. -/
def userReply : MessageClass where
  fields := [required "uid", required "incremental_output", required "finished",
    optional "prompt_tokens_delta" (.int 0), optional "completion_tokens_delta" (.int 0),
    optional "cached_tokens" (.int 0)] ++ poolFields ++
    [optional "error" .none, optional "error_code" .none, optional "finish_reason" .none,
      optional "matched_stop" .none]
  nodup := by decide
  untagged := by decide

def frontendClasses : ClassMap :=
  .ofList [("BaseFrontendMsg".toList, emptyClass), ("BatchFrontendMsg".toList, batchClass),
    ("UserReply".toList, userReply), ("CacheRebuildReply".toList, rebuildReplyClass)] (by decide)

/-! ## Messages to the tokenizer -/

/-- A token to be decoded. -/
def detokenizeMsg : MessageClass where
  fields := [required "uid", required "next_token", required "finished",
    optional "finish_reason" .none, optional "matched_stop" .none, optional "stop_strs" .none] ++
    poolFields
  nodup := by decide
  untagged := by decide

def promptAdmittedMsg : MessageClass where
  fields := [required "uid", required "prompt_tokens", optional "cached_tokens" (.int 0)]
  nodup := by decide
  untagged := by decide

/-- A prompt to be encoded, with the dicts that the client supplies. -/
def tokenizeMsg : MessageClass where
  fields := [required "uid", required "text", required "sampling_params",
    optional "chat_template_kwargs" .none, optional "tools" .none]
  nodup := by decide
  untagged := by decide

/-- A request that cannot be served. -/
def errorReplyMsg : MessageClass where
  fields := [required "uid", required "error", optional "code" .none]
  nodup := by decide
  untagged := by decide

def tokenizerClasses : ClassMap :=
  .ofList [("SamplingParams".toList, samplingParams), ("BaseTokenizerMsg".toList, emptyClass),
    ("BatchTokenizerMsg".toList, batchClass), ("DetokenizeMsg".toList, detokenizeMsg),
    ("PromptAdmittedMsg".toList, promptAdmittedMsg), ("TokenizeMsg".toList, tokenizeMsg),
    ("AbortMsg".toList, abortClass), ("CacheRebuildMsg".toList, rebuildClass),
    ("CacheRebuildResultMsg".toList, rebuildReplyClass), ("ErrorReplyMsg".toList, errorReplyMsg)]
    (by decide)

/-! ## NumPy -/

/-- The element types that NumPy and the tensor library share. -/
def sharedTypes : List (List Char × Nat) :=
  [("bool".toList, 1), ("uint8".toList, 1), ("int8".toList, 1), ("int16".toList, 2),
    ("uint16".toList, 2), ("int32".toList, 4), ("uint32".toList, 4), ("int64".toList, 8),
    ("uint64".toList, 8), ("float16".toList, 2), ("float32".toList, 4), ("float64".toList, 8),
    ("complex64".toList, 8), ("complex128".toList, 16)]

theorem sharedTypes_sound : ∀ entry ∈ sharedTypes, 0 < entry.2 ∧ ¬ torchPrefix <:+: entry.1 := by
  decide

theorem mem_sharedTypes {name : List Char} {size : Nat}
    (found : sharedTypes.lookup name = some size) : (name, size) ∈ sharedTypes := by
  obtain ⟨before, after, split, -⟩ := List.lookup_eq_some_iff.mp found
  simp [split]

/-- The element types that NumPy has. -/
def numpyTypes : NumpyTypes where
  itemSize := fun name => sharedTypes.lookup name
  pos := fun found => (sharedTypes_sound _ (mem_sharedTypes found)).1
  plain := fun found => (sharedTypes_sound _ (mem_sharedTypes found)).2

end FreeSwarm.Message
