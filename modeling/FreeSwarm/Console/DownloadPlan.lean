import FreeSwarm.Foundation.Dict
import FreeSwarm.Foundation.Text
import Mathlib.Algebra.Order.Ring.Nat
import Mathlib.Data.List.TakeDrop

/-!
# What a download fetches

A model is a list of files in a repository. A plan chooses the files that the engine loads, looks which of
them are on the disk with the size that is published, and says whether the model is installed.
-/

namespace FreeSwarm.Console

open FreeSwarm.Foundation

/-- A name of a file, a repository or a folder, or a pattern. -/
abbrev Name : Type := List Char

/-! ## Patterns -/

/-- `fnmatch.fnmatch`: a star stands for any text and a question mark for any character. No pattern has
sets of characters. -/
def fnmatch : Name → Name → Bool
  | [], name => name.isEmpty
  | '*' :: pattern, name => name.tails.any (fnmatch pattern)
  | '?' :: pattern, _ :: name => fnmatch pattern name
  | letter :: pattern, first :: name => letter == first && fnmatch pattern name
  | _ :: _, [] => false

example : fnmatch "original/*".toList "original/model.bin".toList = true := by decide

def lower (name : Name) : Name := name.map Char.toLower

/-- The name of a file without its folders. -/
def baseName (name : Name) : Name := (name.reverse.takeWhile (· ≠ '/')).reverse

/-- `PICKLE`: formats that can execute code when they are loaded. -/
def pickle : List Name :=
  ["*.bin", "*.pt", "*.pth", "*.pkl", "*.pickle", "*.ckpt", "*.h5", "*.keras"].map String.toList

/-- `OTHER_FORMATS`: the weights in the formats of other frameworks. -/
def otherFormats : List Name :=
  ["*.msgpack", "*.onnx", "*.onnx_data", "*.ot", "*.gguf", "*.mlmodel", "*.tflite",
    "*.mlpackage/*"].map String.toList

/-- `EXTRAS`: documentation and optional extras. -/
def extras : List Name :=
  ["readme*", "license*", "usage_policy*", "notice*", "*.md", "*.png", "*.jpg", "*.jpeg", "*.gif",
    "generation_config.json", "*test*.py", "inference/*"].map String.toList

/-- `_is_extra`: the engine loads the model without the file. -/
def isExtra (name : Name) : Bool :=
  extras.any fun pattern => fnmatch pattern (lower name) || fnmatch pattern (baseName (lower name))

/-! ## Repositories -/

structure RepoFile (Digest : Type) where
  name : Name
  /-- `size`: the size that is published. -/
  size : Nat
  /-- `sha256`: the hash that is published, if there is one. -/
  sha256 : Option Digest

/-- `_repo_files`: the files of a revision of a repository, and its commit. -/
structure Listing (Digest : Type) where
  files : List (RepoFile Digest)
  commit : Name
  nodup : (files.map RepoFile.name).Nodup

/-- `dest`: where a model lands. -/
inductive Dest where
  /-- `models`: in the folder of the models. -/
  | models
  /-- `hf-cache`: in the cache. -/
  | hfCache
  deriving DecidableEq

/-- A model that may be downloaded. -/
structure Entry where
  repo : Name
  dest : Dest
  /-- `local`: its folder among the models. -/
  localName : Name
  /-- `include`. -/
  includes : List Name
  /-- `exclude`. -/
  excludes : List Name
  codeOk : Bool
  rootOnly : Bool
  deriving DecidableEq

/-- A folder that a model is in. -/
inductive Target where
  | models (localName : Name)
  | snapshot (repo commit : Name)
  deriving DecidableEq

/-- `_target`: where the files end up. -/
def target (entry : Entry) (commit : Name) : Target :=
  match entry.dest with
  | .models => .models entry.localName
  | .hfCache => .snapshot entry.repo commit

/-- A file on the disk. -/
abbrev Path : Type := Target × Name

variable {Digest : Type}

/-- `_select`: the file is one of those that are asked for, and is in no format of another framework. -/
def considers (includes excludes : List Name) (rootOnly : Bool) (name : Name) : Bool :=
  !(name = ".gitattributes".toList || ".md".toList.isSuffixOf name && name.contains '/') &&
  !(rootOnly && name.contains '/') &&
  includes.any (fnmatch · name) && !excludes.any (fnmatch · name) &&
  !otherFormats.any (fnmatch · (lower name))

/-- `_select`: the file could execute code. -/
def isUnsafe (allowCode : Bool) (name : Name) : Bool :=
  pickle.any (fnmatch · (lower name)) || ".py".toList.isSuffixOf name && !allowCode

/-- `_select`: the chosen files. -/
def select (files : List (RepoFile Digest)) (includes excludes : List Name) (allowCode rootOnly : Bool) :
    List (RepoFile Digest) :=
  files.filter fun file =>
    considers includes excludes rootOnly file.name && !isUnsafe allowCode file.name

/-! ## Plans -/

structure DiskFile (Digest : Type) where
  content : List UInt8
  writer : Option Nat
  verified : List Digest
  deriving DecidableEq

abbrev Disk (Digest : Type) : Type := Dict Path (DiskFile Digest)

def isPresent (disk : Disk Digest) (folder : Target) (file : RepoFile Digest) : Bool :=
  (disk.get? (folder, file.name)).any fun there => there.content.length = file.size

/-- `_present`: the bytes of the files that are there, and how many files are. -/
def present (disk : Disk Digest) (folder : Target) (files : List (RepoFile Digest)) : Nat × Nat :=
  let complete := files.filter (isPresent disk folder)
  ((complete.map RepoFile.size).sum, complete.length)

def diskFloor : Nat := 2 * 2 ^ 30

/-- A plan, as far as a download uses it. -/
structure Plan (Digest : Type) where
  /-- `target`. -/
  folder : Target
  bytes : Nat
  presentBytes : Nat
  /-- `fits`: there is space for it on the disk, with a margin of 2%. -/
  fits : Bool
  /-- `installed`: what the engine loads is there. -/
  installed : Bool
  chosen : List (RepoFile Digest)
  completeNames : List Name
  nodup : (chosen.map RepoFile.name).Nodup

def required (files : List (RepoFile Digest)) : List (RepoFile Digest) :=
  files.filter fun file => !isExtra file.name

/-- `entry.get("include") or ["*"]`. -/
def Entry.included (entry : Entry) : List Name :=
  if entry.includes = [] then ["*".toList] else entry.includes

def chosenOf (entry : Entry) (listing : Listing Digest) : List (RepoFile Digest) :=
  select listing.files entry.included entry.excludes entry.codeOk entry.rootOnly

theorem nodup_chosenOf {entry : Entry} {listing : Listing Digest} :
    ((chosenOf entry listing).map RepoFile.name).Nodup :=
  (List.filter_sublist.map RepoFile.name).nodup listing.nodup

/-- `plan`: with the disk as it is and some free space on it. -/
def plan (disk : Disk Digest) (free : Nat) (entry : Entry) (listing : Listing Digest) : Plan Digest :=
  let chosen := chosenOf entry listing
  let folder := target entry listing.commit
  let total := (chosen.map RepoFile.size).sum
  let have_ := (present disk folder chosen).1
  { folder := folder
    bytes := total
    presentBytes := have_
    fits := (total - have_) * 102 + diskFloor * 100 ≤ free * 100
    installed := (present disk folder (required chosen)).2 = (required chosen).length ∧
      0 < (required chosen).length
    chosen := chosen
    completeNames := (chosen.filter fun file => (present disk folder [file]).2 = 1).map RepoFile.name
    nodup := nodup_chosenOf }

/-- `checksums`: the files that a run hashes, with the hashes that are published. -/
def Plan.checksums (p : Plan Digest) : List (Name × Digest) :=
  p.chosen.filterMap fun file =>
    if file.name ∈ p.completeNames then none else file.sha256.map fun digest => (file.name, digest)

/-- A file that the engine loads, with the hash that is published for it. -/
def Plan.Publishes (p : Plan Digest) (name : Name) (digest : Digest) : Prop :=
  ∃ file ∈ required p.chosen, file.name = name ∧ file.sha256 = some digest

/-! ## What a plan finds -/

section

variable {disk : Disk Digest} {free : Nat} {entry : Entry} {listing : Listing Digest}

theorem mem_required {files : List (RepoFile Digest)} {file : RepoFile Digest} (mem : file ∈ required files) :
    file ∈ files := (List.mem_filter.mp mem).1

variable {p : Plan Digest}

theorem mem_completeNames (planned : p = plan disk free entry listing) {name : Name} :
    name ∈ p.completeNames ↔
      ∃ file ∈ p.chosen, file.name = name ∧ isPresent disk p.folder file = true := by
  subst planned
  rw [plan, List.mem_map]
  simp only [List.mem_filter, decide_eq_true_iff]
  refine exists_congr fun file => ?_
  have counted : (present disk (target entry listing.commit) [file]).2 = 1 ↔
      isPresent disk (target entry listing.commit) file = true := by
    rw [present, List.filter_singleton]
    cases isPresent disk (target entry listing.commit) file <;> simp
  rw [counted]
  tauto

theorem isPresent_of_installed (planned : p = plan disk free entry listing)
    (installed : p.installed = true) {file : RepoFile Digest} (mem : file ∈ required p.chosen) :
    isPresent disk p.folder file = true := by
  subst planned
  have counted := (of_decide_eq_true installed).1
  exact List.length_filter_eq_length_iff.mp counted file mem

theorem sublist_checksums (p : Plan Digest) :
    (p.checksums.map Prod.fst).Sublist (p.chosen.map RepoFile.name) := by
  rw [Plan.checksums]
  induction p.chosen with
  | nil => exact .slnil
  | cons file files ih =>
    rw [List.filterMap_cons, List.map_cons]
    split
    · exact .cons _ ih
    · next pair found =>
      obtain ⟨-, found⟩ := Option.ite_none_left_eq_some.mp found
      obtain ⟨digest, -, rfl⟩ := Option.map_eq_some_iff.mp found
      exact .cons_cons _ ih

theorem mem_checksums {file : RepoFile Digest} {digest : Digest}
    (mem : file ∈ p.chosen) (published : file.sha256 = some digest)
    (missing : file.name ∉ p.completeNames) : (file.name, digest) ∈ p.checksums := by
  refine List.mem_filterMap.mpr ⟨file, mem, ?_⟩
  rw [if_neg missing, published]
  rfl

end

end FreeSwarm.Console
