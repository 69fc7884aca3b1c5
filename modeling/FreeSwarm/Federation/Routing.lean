import FreeSwarm.Federation.Grants
import Mathlib.Data.List.DropRight

/-!
# The names of the models of other computers

A model of another computer is published under its own name and the slug of the computer's name, with an
at sign between them. A request for such a name is routed to the computer that published it first.
-/

namespace FreeSwarm.Federation

open FreeSwarm.Foundation

/-! ## Slugs -/

/-- `str.lower`, as far as a slug shows it. No other character outside ASCII has a letter of ASCII in its
small form. -/
def lowerChar (c : Char) : List Char :=
  if c = 'K' then ['k'] else if c = 'İ' then ['i', '\u0307'] else [c.toLower]

def lower (text : Text) : Text := text.flatMap lowerChar

def SlugChar (c : Char) : Prop := ('a' ≤ c ∧ c ≤ 'z') ∨ ('0' ≤ c ∧ c ≤ '9') ∨ c = '-'

instance : DecidablePred SlugChar := fun _ => inferInstanceAs (Decidable (_ ∨ _))

/-- `re.sub(r"[^a-z0-9-]+", "-", text)`: each run of other characters becomes a dash. It is known whether
the character before is one of a run. -/
def dashRuns (inRun : Bool) : Text → Text
  | [] => []
  | c :: rest =>
    if SlugChar c then c :: dashRuns false rest
    else if inRun then dashRuns true rest
    else '-' :: dashRuns true rest

/-- `strip("-")`. -/
def stripDashes (text : Text) : Text := (text.dropWhile (· = '-')).rdropWhile (· = '-')

def nodeSlug (name : Text) : Text :=
  let slug := (stripDashes (dashRuns false (lower name))).take 32
  if slug = [] then "node".toList else slug

example : nodeSlug "Lab  PC (2)".toList = "lab-pc-2".toList := by decide

theorem slugChar_dashRuns {text : Text} {inRun : Bool} {c : Char} (mem : c ∈ dashRuns inRun text) :
    SlugChar c := by
  induction text generalizing inRun with
  | nil => nomatch mem
  | cons first rest ih =>
    rw [dashRuns] at mem
    split_ifs at mem with kept run
    · rcases List.mem_cons.mp mem with rfl | later
      · exact kept
      · exact ih later
    · exact ih mem
    · rcases List.mem_cons.mp mem with rfl | later
      · exact .inr (.inr rfl)
      · exact ih later

theorem slugChar_nodeSlug {name : Text} {c : Char} (mem : c ∈ nodeSlug name) : SlugChar c := by
  rw [nodeSlug] at mem
  split_ifs at mem with empty
  · have kept : "node".toList.all (fun c => decide (SlugChar c)) = true := by decide
    exact of_decide_eq_true (List.all_eq_true.mp kept c mem)
  · have stripped := List.mem_of_mem_take mem
    have inner := (List.rdropWhile_prefix _ _).subset stripped
    exact slugChar_dashRuns ((List.dropWhile_suffix _).subset inner)

theorem at_not_mem_nodeSlug (name : Text) : '@' ∉ nodeSlug name := fun mem =>
  absurd (slugChar_nodeSlug mem) (by decide)

/-! ## Names -/

def publishedName (model node : Text) : Text := model ++ '@' :: nodeSlug node

/-- `rsplit("@", 1)[0]`: the text before the last at sign. -/
def beforeLastAt (text : Text) : Text :=
  if '@' ∈ text then ((text.reverse.dropWhile (· ≠ '@')).drop 1).reverse else text

theorem at_mem_publishedName (model node : Text) : '@' ∈ publishedName model node := by
  simp [publishedName]

theorem beforeLastAt_publishedName (model node : Text) :
    beforeLastAt (publishedName model node) = model := by
  have slug : ∀ c ∈ (nodeSlug node).reverse, decide (c ≠ '@') = true := by
    intro c mem
    refine decide_eq_true fun same => at_not_mem_nodeSlug node ?_
    rw [← same]
    exact List.mem_reverse.mp mem
  rw [beforeLastAt, if_pos (at_mem_publishedName model node), publishedName, List.reverse_append,
    List.reverse_cons, List.append_assoc, List.dropWhile_append_of_pos slug]
  simp

theorem publishedName_inj {model node model' node' : Text} :
    publishedName model node = publishedName model' node' ↔
      model = model' ∧ nodeSlug node = nodeSlug node' := by
  constructor
  · intro same
    have models := congrArg beforeLastAt same
    rw [beforeLastAt_publishedName, beforeLastAt_publishedName] at models
    subst models
    exact ⟨rfl, (List.cons.inj (List.append_cancel_left same)).2⟩
  · rintro ⟨rfl, slugs⟩
    rw [publishedName, publishedName, slugs]

/-! ## What other computers list -/

/-- `status`: how the last look at a computer went. -/
inductive SyncStatus where
  | ok
  | unreachable
  | revoked
  /-- `incompatible version`. -/
  | incompatible
  /-- `certificate changed`. -/
  | certificateChanged
  deriving DecidableEq

variable (V : Type)

/-- A model that a computer lists, with values that are passed on. -/
structure RemoteModel where
  name : Text
  ready : Bool
  /-- `error`: why it crashed, empty if it did not. -/
  error : Text
  context : V
  decodeTps : V
  active : V
  deriving DecidableEq

/-- What is known of the models of a computer. -/
structure Sync where
  models : List (RemoteModel V)
  status : SyncStatus
  /-- `last_ok`: when it answered last. -/
  lastOk : Option Time

/-- A paired computer. -/
structure Peer where
  name : Text
  address : Text
  enabled : Bool
  deriving DecidableEq

/-- What `remote_loaded` reads. -/
structure Paired where
  /-- `peers`: the computers, by their node id. -/
  peers : Dict Text Peer
  remoteModels : Dict Text (Sync V)

/-- A row of `remote_loaded`, apart from the fields that are always empty. -/
structure Loaded where
  instanceId : Text
  /-- `model`, which is also `served_name`. -/
  model : Text
  state : Text
  ready : Bool
  context : V
  nodeId : Text
  node : Text
  address : Text
  decodeTps : V
  active : V

structure Listed where
  nodeId : Text
  peer : Peer
  model : RemoteModel V
  deriving DecidableEq

variable {V : Type}

/-- The models of the computer are served: it answered, or did so not long ago. -/
def Sync.served (grace now : Time) (sync : Sync V) : Bool :=
  match sync.status with
  | .ok => true
  | .unreachable =>
    let lastOk := sync.lastOk.getD 0
    decide (lastOk ≠ 0) && !decide (grace < now - lastOk)
  | _ => false

def Listed.row (entry : Listed V) : Loaded V where
  instanceId := "remote:".toList ++ entry.nodeId ++ ":".toList ++ entry.model.name
  model := publishedName entry.model.name entry.peer.name
  state := if entry.model.ready then "running".toList else "starting".toList
  ready := entry.model.ready
  context := entry.model.context
  nodeId := entry.nodeId
  node := entry.peer.name
  address := entry.peer.address
  decodeTps := entry.model.decodeTps
  active := entry.model.active

def Listed.key (entry : Listed V) : Text × Text := (entry.model.name, nodeSlug entry.peer.name)

namespace Paired

variable (p : Paired V) (grace now : Time)

/-- The models that are served, in the order of the loops: those of the computers that are enabled and
answered, except the ones that crashed. -/
def listed : List (Listed V) :=
  p.peers.entries.flatMap fun (nodeId, peer) =>
    if peer.enabled then
      match p.remoteModels.get? nodeId with
      | none => []
      | some sync =>
        if sync.served grace now then
          (sync.models.filter fun m => m.error = []).map (Listed.mk nodeId peer)
        else []
    else []

def remoteLoaded : List (Loaded V) := (p.listed grace now).map Listed.row

/-- `route`: the computer of a name, and the name of the model there. -/
def route (model : Text) : Option (Text × Text) :=
  if '@' ∈ model then
    ((p.remoteLoaded grace now).find? fun m => m.model = model).map fun m =>
      (m.nodeId, beforeLastAt model)
  else none

/-- Each model that is served is published once, and its name is routed back to it. -/
structure RoutesBack : Prop where
  once : ∀ entry ∈ p.listed grace now,
    ((p.remoteLoaded grace now).map Loaded.model).count entry.row.model = 1
  back : ∀ entry ∈ p.listed grace now,
    p.route grace now entry.row.model = some (entry.nodeId, entry.model.name)

end Paired

/-- Where no two elements have the same image, the first one with an image is the one that has it. -/
theorem find?_of_nodup_map {α β : Type} [DecidableEq β] {f : α → β} {rows : List α} {row : α}
    (nodup : (rows.map f).Nodup) (mem : row ∈ rows) :
    rows.find? (fun other => f other = f row) = some row := by
  induction rows with
  | nil => nomatch mem
  | cons first rest ih =>
    obtain ⟨missing, later⟩ := List.nodup_cons.mp nodup
    rcases List.mem_cons.mp mem with rfl | mem
    · simp
    · have apart : f first ≠ f row := fun same => missing (same ▸ List.mem_map_of_mem mem)
      rw [List.find?_cons_of_neg (by simpa using apart)]
      exact ih later mem

namespace Paired
variable {p : Paired V} {grace now : Time}

theorem names_remoteLoaded : (p.remoteLoaded grace now).map Loaded.model =
    (p.listed grace now).map fun entry => entry.row.model := by
  rw [remoteLoaded, List.map_map]
  rfl

theorem nodup_names_iff : ((p.remoteLoaded grace now).map Loaded.model).Nodup ↔
    ((p.listed grace now).map Listed.key).Nodup := by
  rw [names_remoteLoaded, List.Nodup, List.Nodup, List.pairwise_map, List.pairwise_map]
  refine List.Pairwise.iff fun entry entry' => not_congr ?_
  exact publishedName_inj.trans Prod.mk_inj.symm

theorem once_iff : (∀ entry ∈ p.listed grace now,
    ((p.remoteLoaded grace now).map Loaded.model).count entry.row.model = 1) ↔
      ((p.remoteLoaded grace now).map Loaded.model).Nodup := by
  rw [names_remoteLoaded, List.nodup_iff_count_eq_one]
  simp only [List.mem_map, forall_exists_index, and_imp, forall_apply_eq_imp_iff₂]

theorem route_of_nodup (nodup : ((p.remoteLoaded grace now).map Loaded.model).Nodup)
    {entry : Listed V} (mem : entry ∈ p.listed grace now) :
    p.route grace now entry.row.model = some (entry.nodeId, entry.model.name) := by
  have first := find?_of_nodup_map nodup (List.mem_map_of_mem mem : entry.row ∈ _)
  have name : beforeLastAt entry.row.model = entry.model.name := beforeLastAt_publishedName _ _
  have marked : '@' ∈ entry.row.model := at_mem_publishedName _ _
  rw [route, if_pos marked, first, Option.map_some, name]
  rfl

/-- The names are routed back exactly if no two models that are served share their name and the slug of
their computer. -/
theorem routesBack_iff (p : Paired V) (grace now : Time) :
    p.RoutesBack grace now ↔ ((p.listed grace now).map Listed.key).Nodup := by
  rw [← nodup_names_iff]
  constructor
  · intro routes
    exact once_iff.mp routes.once
  · intro nodup
    exact ⟨once_iff.mpr nodup, fun entry mem => route_of_nodup nodup mem⟩

/-- Two computers whose names have the same slug, with a model of the same name. -/
def twins : Paired Unit where
  peers := ⟨[("a1".toList, ⟨"Lab 1".toList, "10.0.0.2".toList, true⟩),
    ("b2".toList, ⟨"lab-1".toList, "10.0.0.3".toList, true⟩)], by decide⟩
  remoteModels := ⟨[("a1".toList, ⟨[⟨"m".toList, true, [], (), (), ()⟩], .ok, some 1⟩),
    ("b2".toList, ⟨[⟨"m".toList, true, [], (), (), ()⟩], .ok, some 1⟩)], by decide⟩

/-- The name is published twice, and the second computer gets no request. -/
theorem twins_astray : ¬twins.RoutesBack 60 2 := fun routes =>
  absurd (routes.once ⟨"a1".toList, ⟨"Lab 1".toList, "10.0.0.2".toList, true⟩,
    ⟨"m".toList, true, [], (), (), ()⟩⟩ (by decide)) (by decide)

end Paired
end FreeSwarm.Federation
