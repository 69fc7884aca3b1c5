import FreeSwarm.Sql.DataFolder
import Mathlib.Algebra.GroupWithZero.Nat
import Mathlib.Data.List.Nodup

/-!
# Views of a data folder

Every file of a data folder, and every folder with a manifest, has a view named by its path without the extension, in
small letters, with other characters than letters and digits made one underscore. A view that is created replaces one
of its name, and its path is read as a pattern.
-/

namespace FreeSwarm.Sql.Views

open FreeSwarm.Sql.DataFolder (READERS)

abbrev Text := List Char

/-! ## Model -/

/-- What `rglob` finds, in order. -/
structure Entry where
  parts : List Text
  isFile : Bool
  bytes : Nat
  /-- `rows` and `source` of a manifest. -/
  info : Option Nat × Option Text
  deriving DecidableEq

def Entry.name (e : Entry) : Text := e.parts.getLastD []

structure Item where
  rel : List Text
  bytes : Nat
  dataset : Bool
  rows : Option Nat
  source : Option Text
  deriving DecidableEq

/-- `as_posix`. -/
def joined : List Text → Text
  | [] => []
  | [part] => part
  | part :: rest => part ++ '/' :: joined rest

def suffixOf (name : Text) : Text :=
  let ext := (name.reverse.takeWhile (· ≠ '.')).reverse
  if '.' ∈ name ∧ ext ≠ [] ∧ ext.length + 1 < name.length then '.' :: ext else []

variable (rel : List Text)

/-- `str(rel.with_suffix(""))`. -/
def stem : Text :=
  let name := rel.getLastD []
  joined (rel.dropLast ++ [name.take (name.length - (suffixOf name).length)])

def isWord (c : Char) : Bool := c.isAlphanum || c = '_'

/-- `re.sub(r"[^A-Za-z0-9_]+", "_", ..)`, within a run or not. -/
def collapse : Bool → Text → Text
  | _, [] => []
  | within, c :: rest =>
    if isWord c then c :: collapse false rest
    else if within then collapse true rest
    else '_' :: collapse true rest

def stripBars (text : Text) : Text := ((text.dropWhile (· = '_')).reverse.dropWhile (· = '_')).reverse

/-- The name of a view before it is tagged. -/
def plain : Text :=
  (stripBars (collapse false ((stem rel).map fun c => if c = '\\' then '/' else c))).map Char.toLower

def unnamed (name : Text) : Bool := name.head?.all Char.isDigit

/-- `_view_name`. -/
def viewName : Text := if unnamed (plain rel) then 't' :: '_' :: plain rel else plain rel

def Item.view (item : Item) : Text := viewName item.rel

def Item.path (item : Item) : Text := joined item.rel ++ if item.dataset then "/*.parquet".toList else []

def readerOf (name : Text) : Option Text := READERS.lookup ((suffixOf name).map Char.toLower)

def Item.format (item : Item) : Text :=
  if item.dataset then "parquet".toList else ((suffixOf (item.rel.getLastD [])).map Char.toLower).drop 1

def dotted (parts : List Text) : Bool := parts.any fun part => part.head? = some '.'

def inFolder (folder : List Text) (e : Entry) : Bool :=
  e.parts.dropLast = folder && ".parquet".toList.isSuffixOf e.name

def manifests (entries : List Entry) : List Entry :=
  entries.filter fun e => e.name = ".export.json".toList ∧ ¬ dotted e.parts.dropLast

def datasetItem (entries : List Entry) (manifest : Entry) : Item :=
  let folder := manifest.parts.dropLast
  ⟨folder, ((entries.filter (inFolder folder)).map Entry.bytes).sum, true, manifest.info.1, manifest.info.2⟩

def listed (datasets : List (List Text)) (e : Entry) : Bool :=
  (readerOf e.name).isSome && e.isFile && !dotted e.parts && !datasets.contains e.parts.dropLast

def fileItem (e : Entry) : Item := ⟨e.parts, e.bytes, false, none, none⟩

/-- The second loop. -/
def addFiles (limit : Nat) (datasets : List (List Text)) : List Item → List Entry → List Item
  | out, [] => out
  | out, e :: rest =>
    if listed datasets e then
      let out' := out ++ [fileItem e]
      if limit ≤ out'.length then out' else addFiles limit datasets out' rest
    else addFiles limit datasets out rest

def catalog (limit : Nat) (entries : List Entry) : Except Text (List Item) :=
  let datasets := (manifests entries).map fun e => e.parts.dropLast
  if [] ∈ datasets then .error "PosixPath('.') has an empty name".toList
  else .ok (addFiles limit datasets ((manifests entries).map (datasetItem entries)) entries)

structure View where
  name : Text
  reader : Text
  pattern : Text

def viewOf (root : Text) (item : Item) : View :=
  let reader := if item.dataset then READERS.lookup ".parquet".toList else readerOf (item.rel.getLastD [])
  ⟨item.view, reader.getD [], root ++ '/' :: item.path⟩

/-- The views that `_connect` creates. -/
def connect (root : Text) (items : List Item) : List View :=
  items.foldl (fun views item => views.filter (·.name ≠ item.view) ++ [viewOf root item]) []

section Reading

variable (globs : Text → Text → Bool) (root : Text) (entries : List Entry)

/-- The files that a path names, where DuckDB takes it as a pattern. -/
def matching (pattern : Text) : List Entry :=
  entries.filter fun e => e.isFile && globs pattern (root ++ '/' :: joined e.parts)

variable (items : List Item)

def readView (name : Text) : Option (List Entry) :=
  ((connect root items).find? (·.name = name)).map fun view => matching globs root entries view.pattern

/-- `describe`: the item, and the files that its rows are of. -/
def describe (view : Text) : Option (Item × List Entry) :=
  (items.find? fun i => i.view = view ∨ i.path = view).bind fun item =>
    (readView globs root entries items item.view).map fun files => (item, files)

def Item.files (item : Item) : List Entry :=
  entries.filter fun e => e.isFile && if item.dataset then inFolder item.rel e else e.parts = item.rel

/-- Every entry has a view of its own, that reads its files and is described by them. -/
def OwnViews : Prop :=
  (items.map Item.view).Nodup ∧ ∀ item ∈ items,
    readView globs root entries items item.view = some (item.files entries) ∧
      describe globs root entries items item.view = some (item, item.files entries)

/-- The view of an entry, read as a pattern, names its files and no others. -/
def Names (item : Item) : Prop :=
  ∀ e ∈ entries, e.isFile → (globs (root ++ '/' :: item.path) (root ++ '/' :: joined e.parts) ↔
    if item.dataset then inFolder item.rel e else e.parts = item.rel)

/-- The names of two paths are the same, or one is the other with a tag. -/
def Clash (rel rel' : List Text) : Prop :=
  plain rel = plain rel' ∨ unnamed (plain rel) ∧ plain rel' = 't' :: '_' :: plain rel ∨
    unnamed (plain rel') ∧ plain rel = 't' :: '_' :: plain rel'

end Reading

/-! ## Results -/

theorem viewName_eq_iff (rel rel' : List Text) : viewName rel = viewName rel' ↔ Clash rel rel' := by
  rw [viewName, viewName, Clash]
  generalize plain rel = a
  generalize plain rel' = b
  have tagged : ∀ name : Text, ¬ unnamed ('t' :: '_' :: name) := fun name => by simp [unnamed]
  split <;> split
  next numbered numbered' =>
    simp only [List.cons.injEq, true_and]
    refine ⟨.inl, fun clash => ?_⟩
    rcases clash with same | ⟨_, rfl⟩ | ⟨_, rfl⟩
    · exact same
    · exact absurd numbered' (tagged a)
    · exact absurd numbered (tagged b)
  next numbered typed =>
    refine ⟨fun eq => .inr (.inl ⟨numbered, eq.symm⟩), fun clash => ?_⟩
    rcases clash with rfl | ⟨_, eq⟩ | ⟨numbered', _⟩
    · exact absurd numbered typed
    · exact eq.symm
    · exact absurd numbered' typed
  next typed numbered =>
    refine ⟨fun eq => .inr (.inr ⟨numbered, eq⟩), fun clash => ?_⟩
    rcases clash with rfl | ⟨numbered', _⟩ | ⟨_, eq⟩
    · exact absurd numbered typed
    · exact absurd numbered' typed
    · exact eq
  next typed typed' =>
    refine ⟨.inl, fun clash => ?_⟩
    rcases clash with same | ⟨numbered, _⟩ | ⟨numbered, _⟩
    · exact same
    · exact absurd numbered typed
    · exact absurd numbered typed'

theorem find_filter {name name' : Text} (ne : name' ≠ name) (views : List View) :
    (views.filter (·.name ≠ name)).find? (·.name = name') = views.find? (·.name = name') := by
  induction views with
  | nil => rfl
  | cons v views ih =>
    by_cases eq : v.name = name
    · rw [List.filter_cons_of_neg (by simpa using eq), List.find?_cons_of_neg (by simpa [eq] using ne.symm), ih]
    · rw [List.filter_cons_of_pos (by simpa using eq), List.find?_cons, List.find?_cons, ih]

variable {items : List Item}

theorem find_connect (root : Text) (nodup : (items.map Item.view).Nodup) :
    ∀ item ∈ items, (connect root items).find? (·.name = item.view) = some (viewOf root item) := by
  induction items using List.reverseRecOn with
  | nil => exact fun _ mem => absurd mem List.not_mem_nil
  | append_singleton front last ih =>
    intro item mem
    rw [List.map_append, List.nodup_append] at nodup
    rw [connect, List.foldl_append, ← connect, List.foldl_cons, List.foldl_nil, List.find?_append]
    rcases List.mem_append.mp mem with old | new
    · rw [find_filter (nodup.2.2 _ (List.mem_map_of_mem old) _ (List.mem_singleton_self _)), ih nodup.1 item old]
      rfl
    · rw [List.mem_singleton.mp new, List.find?_eq_none.mpr (by simp)]
      rw [Option.none_or, List.find?_cons_of_pos (by exact decide_eq_true rfl)]

theorem readView_eq (globs : Text → Text → Bool) (root : Text) (entries : List Entry)
    (nodup : (items.map Item.view).Nodup) {item : Item} (mem : item ∈ items) :
    readView globs root entries items item.view = some (item.files entries) ↔ Names globs root entries item := by
  rw [readView, find_connect root nodup item mem, Option.map_some, Option.some_inj, matching, Item.files, Names]
  refine ⟨fun same e there file => ?_, fun names => List.filter_congr fun e there => ?_⟩
  · have member := congrArg (e ∈ ·) same
    simp only [List.mem_filter, there, file, Bool.true_and, true_and, eq_iff_iff] at member
    exact member.trans (by split <;> simp only [decide_eq_true_eq])
  · cases file : e.isFile with
    | false => rfl
    | true =>
      rw [Bool.true_and, Bool.true_and, Bool.eq_iff_iff]
      exact (names e there file).trans (by split <;> simp only [decide_eq_true_eq])

theorem isWord_collapse (within : Bool) (text : Text) : ∀ c ∈ collapse within text, isWord c := by
  induction text generalizing within with
  | nil => exact fun c mem => absurd mem List.not_mem_nil
  | cons c rest ih =>
    rw [collapse]
    split
    next word => exact List.forall_mem_cons.mpr ⟨word, ih false⟩
    next =>
      split
      · exact ih true
      · exact List.forall_mem_cons.mpr ⟨by decide, ih true⟩

theorem toLower_ne_dot {c : Char} (word : isWord c) : c.toLower ≠ '.' := by
  intro eq
  delta Char.toLower at eq
  split at eq
  next upper =>
    have val := congrArg (fun c => c.val.toNat) eq
    simp only [UInt32.toNat_add, UInt32.le_iff_toNat_le] at val upper
    have : ('A').val.toNat = 65 := rfl
    have : ('Z').val.toNat = 90 := rfl
    have : (('a').val - ('A').val).toNat = 32 := rfl
    have : ('.').val.toNat = 46 := rfl
    omega
  next =>
    rw [eq] at word
    exact absurd word (by decide)

theorem dot_not_mem_view (rel : List Text) : '.' ∉ viewName rel := by
  have bare : '.' ∉ plain rel := by
    intro mem
    obtain ⟨c, inside, eq⟩ := List.mem_map.mp mem
    have within := List.mem_reverse.mp (List.dropWhile_subset _ (List.mem_reverse.mp inside))
    exact toLower_ne_dot (isWord_collapse false _ c (List.dropWhile_subset _ within)) eq
  rw [viewName]
  split
  · simpa using bare
  · exact bare

theorem dot_mem_joined {parts : List Text} (dot : '.' ∈ parts.getLastD []) : '.' ∈ joined parts := by
  induction parts using joined.induct with
  | case1 => exact dot
  | case2 part => exact dot
  | case3 part rest some_ ih =>
    obtain ⟨p, rest, rfl⟩ := List.exists_cons_of_ne_nil some_
    rw [joined.eq_3 _ _ some_]
    exact List.mem_append_right _ (List.mem_cons_of_mem _ (ih dot))

theorem addFiles_forall {P : Item → Prop} {limit : Nat} {datasets : List (List Text)}
    (files : ∀ e, listed datasets e → P (fileItem e)) (entries : List Entry) :
    ∀ out : List Item, (∀ item ∈ out, P item) → ∀ item ∈ addFiles limit datasets out entries, P item := by
  induction entries with
  | nil => exact fun _ all => all
  | cons e rest ih =>
    intro out all
    rw [addFiles]
    split
    next here =>
      have more : ∀ item ∈ out ++ [fileItem e], P item := by
        simpa [or_imp, forall_and] using ⟨all, files e here⟩
      dsimp only
      split
      · exact more
      · exact ih _ more
    next => exact ih out all

theorem dot_mem_path {limit : Nat} {entries : List Entry} (read : catalog limit entries = .ok items) :
    ∀ item ∈ items, '.' ∈ item.path := by
  rw [catalog] at read
  split at read
  · cases read
  · rw [← Except.ok.inj read]
    refine addFiles_forall (fun e here => ?_) entries _ fun item mem => ?_
    · have dot : '.' ∈ e.name := by
        by_contra none_
        have := (Bool.and_eq_true_iff.mp (Bool.and_eq_true_iff.mp (Bool.and_eq_true_iff.mp here).1).1).1
        rw [readerOf, suffixOf, if_neg fun inside => none_ inside.1] at this
        revert this
        decide
      exact List.mem_append_left _ (dot_mem_joined dot)
    · obtain ⟨manifest, _, rfl⟩ := List.mem_map.mp mem
      exact List.mem_append_right _ (by rw [datasetItem, if_pos rfl]; decide)

variable {limit : Nat} {entries : List Entry} {items : List Item}

variable (globs : Text → Text → Bool)

theorem describe_eq (root : Text) (read : catalog limit entries = .ok items)
    (nodup : (items.map Item.view).Nodup) {item : Item} (mem : item ∈ items) :
    describe globs root entries items item.view =
      (readView globs root entries items item.view).map fun files => (item, files) := by
  have found : (items.find? fun i => i.view = item.view ∨ i.path = item.view) = some item := by
    obtain ⟨other, here⟩ : ∃ other, items.find? (fun i => i.view = item.view ∨ i.path = item.view) = some other :=
      Option.isSome_iff_exists.mp (List.find?_isSome.mpr ⟨item, mem, decide_eq_true (.inl rfl)⟩)
    have there := List.mem_of_find?_eq_some here
    have matches_ : other.view = item.view ∨ other.path = item.view := by simpa using List.find?_some here
    rcases matches_ with same | same
    · rw [here, List.inj_on_of_nodup_map nodup there mem same]
    · exact absurd (same ▸ dot_mem_path read other there) (dot_not_mem_view _)
  rw [describe, found]
  rfl

/-- Each listed entry has a view of its own exactly when no two names clash, and no path, read as a pattern, names
another file or misses its own. -/
theorem ownViews_iff (root : Text) (read : catalog limit entries = .ok items) :
    OwnViews globs root entries items ↔
      items.Pairwise (fun a b => ¬ Clash a.rel b.rel) ∧ ∀ item ∈ items, Names globs root entries item := by
  have distinct : (items.map Item.view).Nodup ↔ items.Pairwise fun a b => ¬ Clash a.rel b.rel := by
    rw [List.Nodup, List.pairwise_map]
    simp only [Item.view, ne_eq, viewName_eq_iff]
  rw [OwnViews, ← distinct]
  refine and_congr_right fun nodup => forall₂_congr fun item mem => ?_
  rw [describe_eq globs root read nodup mem, ← readView_eq globs root entries nodup mem]
  exact ⟨And.left, fun here => ⟨here, by rw [here]; rfl⟩⟩

/-- The same name with two extensions. -/
def prices : List Entry :=
  [⟨["prices.csv".toList], true, 10, none, none⟩, ⟨["prices.parquet".toList], true, 20, none, none⟩]

theorem ownViews_iff_prices : OwnViews (fun p q => p = q) [] prices [fileItem prices[0]] :=
  (ownViews_iff (fun p q => p = q) []
    (show catalog 1 prices = .ok [fileItem prices[0]] by with_unfolding_all decide)).mpr
    ⟨List.pairwise_singleton _ _, by unfold Names; with_unfolding_all decide⟩

/-- The view of `prices.csv` reads `prices.parquet`. -/
theorem views_clash : ∃ items, catalog 400 prices = .ok items ∧ items = prices.map fileItem ∧
    ¬ OwnViews (fun p q => p = q) [] prices items ∧
    describe (fun p q => p = q) [] prices items "prices".toList =
      (items.head?.map fun item => (item, prices.drop 1)) := by
  refine ⟨prices.map fileItem, by with_unfolding_all decide, rfl, fun own => ?_,
    by with_unfolding_all decide⟩
  exact absurd own.1 (by with_unfolding_all decide)

end FreeSwarm.Sql.Views
