import FreeSwarm.Board.Tasks
import FreeSwarm.Foundation.Cursor
import FreeSwarm.Foundation.Machine
import Mathlib.Data.List.Sort

/-!
# The messages of the message board

Messages are appended to a log and numbered. A client reads them behind a cursor, page by page, and may
wait for the next one; each answer names the cursor for the next request.
-/

namespace FreeSwarm.Board

open FreeSwarm.Foundation

inductive MessageKind where
  | chat
  | directive
  | result
  | error
  | thought
  | system
  deriving DecidableEq

structure Message where
  seq : Nat
  channel : Text
  author : Text
  authorId : Option Text
  kind : MessageKind
  content : Text
  meta_ : Text
  replyTo : Option Int
  ts : Time
  sessionId : Text
  projectId : Text
  deriving DecidableEq

structure PostMessage where
  channel : Text := "general".toList
  author : Text
  authorId : Option Text := none
  kind : MessageKind := .chat
  content : Text
  meta_ : Text := ['{', '}']
  replyTo : Option Int := none

structure MessageTable where
  messages : List Message
  lastSeq : Nat

def postMessage (req : PostMessage) (projectId sessionId : Text) (now : Time) (t : MessageTable) :
    MessageTable :=
  { messages := t.messages ++ [{
      seq := t.lastSeq + 1, channel := req.channel, author := req.author, authorId := req.authorId
      kind := req.kind, content := req.content, meta_ := req.meta_, replyTo := req.replyTo, ts := now
      sessionId := sessionId, projectId := projectId }]
    lastSeq := t.lastSeq + 1 }

/-- What a client asks for. A text that is missing or empty asks for anything. -/
structure Filters where
  channel : Option Text
  sessionId : Option Text
  projectId : Option Text
  deriving DecidableEq

def Asked (wanted : Option Text) (text : Text) : Prop :=
  wanted = none ∨ wanted = some [] ∨ wanted = some text

instance decidableAsked (wanted : Option Text) (text : Text) : Decidable (Asked wanted text) :=
  inferInstanceAs (Decidable (_ ∨ _ ∨ _))

def Filters.Matches (filters : Filters) (m : Message) : Prop :=
  Asked filters.channel m.channel ∧ Asked filters.sessionId m.sessionId ∧
    Asked filters.projectId m.projectId

instance Filters.decidableMatches (filters : Filters) : DecidablePred filters.Matches :=
  fun _ => inferInstanceAs (Decidable (_ ∧ _ ∧ _))

def Message.cursor (m : Message) : Int := m.seq

/-- The messages behind a cursor, up to a limit; or the last few of them. -/
def readMessages (filters : Filters) (since : Int) (limit tail : Nat) (messages : List Message) :
    List Message :=
  let rows := messages.filter fun m => since < m.cursor ∧ filters.Matches m
  if tail = 0 then (rows.mergeSort fun a b => a.seq ≤ b.seq).take limit
  else ((rows.mergeSort fun a b => b.seq ≤ a.seq).take tail).reverse

/-! ## A client -/

/-- A client that reads behind the cursor of its last answer. -/
structure Reader where
  cursor : Int
  waiting : Option Nat
  entries : List Message

structure MessageBoard where
  table : MessageTable
  reader : Reader

/-- What happens on the board. -/
inductive MessageEvent where
  | post (req : PostMessage) (projectId sessionId : Text) (now : Time)
  | getMessages (limit : Nat) (wait : Bool)
  | readAgain
  | giveUp

namespace MessageBoard

variable (filters : Filters) (b : MessageBoard)

def answer (entries : List Message) : MessageBoard :=
  { b with reader := {
      cursor := moved Message.cursor b.reader.cursor entries, waiting := none
      entries := b.reader.entries ++ entries } }

def page (limit : Nat) : List Message :=
  readMessages filters b.reader.cursor limit 0 b.table.messages

def step : MessageEvent → Option MessageBoard
  | .post req projectId sessionId now =>
    some { b with table := postMessage req projectId sessionId now b.table }
  | .getMessages limit wait =>
    if b.reader.waiting.isSome then none
    else if b.page filters limit = [] ∧ wait then
      some { b with reader := { b.reader with waiting := some limit } }
    else some (b.answer (b.page filters limit))
  | .readAgain =>
    b.reader.waiting.map fun limit =>
      if b.page filters limit = [] then b else b.answer (b.page filters limit)
  | .giveUp => b.reader.waiting.map fun _ => b.answer []

/-- The messages are numbered in order, and the client was given nothing. -/
structure Begins (start : MessageBoard) : Prop where
  increasing : Increasing Message.cursor start.table.messages
  bounded : ∀ m ∈ start.table.messages, m.seq ≤ start.table.lastSeq
  unread : start.reader.entries = []

def matching (b : MessageBoard) : List Message := b.table.messages.filter fun m => filters.Matches m

/-! ## Reads -/

theorem page_eq {b : MessageBoard} (increasing : Increasing Message.cursor b.table.messages)
    (limit : Nat) :
    b.page filters limit =
      (behind Message.cursor b.reader.cursor (b.matching filters)).take limit := by
  have rows : b.table.messages.filter (fun m => b.reader.cursor < m.cursor ∧ filters.Matches m) =
      behind Message.cursor b.reader.cursor (b.matching filters) := by
    rw [behind, matching, List.filter_filter]
    apply List.filter_congr
    intro m _
    rw [Bool.decide_and]
  have sorted : (b.table.messages.filter fun m =>
      b.reader.cursor < m.cursor ∧ filters.Matches m).Pairwise fun a b => a.seq ≤ b.seq := by
    apply (increasing.filter _).imp
    intro m m' less
    exact Int.ofNat_le.mp (Int.le_of_lt less)
  rw [page, readMessages, if_pos rfl, List.mergeSort_of_pairwise (by simpa using sorted), rows]

/-- What the client was given lies between its first cursor and the present one. -/
structure Read (start b : MessageBoard) : Prop where
  increasing : Increasing Message.cursor b.table.messages
  bounded : ∀ m ∈ b.table.messages, m.seq ≤ b.table.lastSeq
  forward : start.reader.cursor ≤ b.reader.cursor
  reached : b.reader.cursor = start.reader.cursor ∨ b.reader.cursor ≤ b.table.lastSeq
  entries : b.reader.entries =
    window Message.cursor start.reader.cursor b.reader.cursor (b.matching filters)

variable {filters} {start b b' : MessageBoard}

theorem read_begins (begins : start.Begins) : Read filters start start where
  increasing := begins.increasing
  bounded := begins.bounded
  forward := Int.le_refl _
  reached := .inl rfl
  entries := by rw [begins.unread, window_self]

theorem read_post (read : Read filters start b) (req : PostMessage) (projectId sessionId : Text)
    (now : Time) :
    Read filters start { b with table := postMessage req projectId sessionId now b.table } where
  increasing := by
    apply List.pairwise_append.mpr
    refine ⟨read.increasing, List.pairwise_singleton _ _, fun m mem m' mem' => ?_⟩
    rw [List.mem_singleton.mp mem']
    have := read.bounded m mem
    show (m.seq : Int) < ((b.table.lastSeq + 1 : Nat) : Int)
    omega
  bounded := by
    intro m mem
    cases List.mem_append.mp mem with
    | inl old => exact Nat.le_succ_of_le (read.bounded m old)
    | inr new =>
      rw [List.mem_singleton.mp new]
      exact Nat.le_refl _
  forward := read.forward
  reached := by
    cases read.reached with
    | inl same => exact .inl same
    | inr below =>
      right
      show b.reader.cursor ≤ ((b.table.lastSeq + 1 : Nat) : Int)
      omega
  entries := by
    have later : ∀ new : List Message, (∀ m ∈ new, m.seq = b.table.lastSeq + 1) →
        window Message.cursor start.reader.cursor b.reader.cursor
          (new.filter fun m => filters.Matches m) = [] := by
      intro new numbered
      apply List.filter_eq_nil_iff.mpr
      intro m mem both
      obtain ⟨above, below⟩ := of_decide_eq_true both
      have number := numbered m (List.mem_of_mem_filter mem)
      have cursor : m.cursor = ((b.table.lastSeq + 1 : Nat) : Int) := congrArg Int.ofNat number
      cases read.reached with
      | inl same => omega
      | inr reached => omega
    have more : matching filters { b with table := postMessage req projectId sessionId now b.table } =
        b.matching filters ++ List.filter (fun m => filters.Matches m) [_] := List.filter_append _ _
    show b.reader.entries = _
    rw [more, window, List.filter_append]
    change _ = window _ _ _ _ ++ window _ _ _ _
    rw [later, List.append_nil, read.entries]
    intro m mem
    rw [List.mem_singleton.mp mem]

theorem read_answer (read : Read filters start b) (limit : Nat) :
    Read filters start (b.answer (b.page filters limit)) where
  increasing := read.increasing
  bounded := read.bounded
  forward := by
    rw [page_eq filters read.increasing]
    exact Int.le_trans read.forward (le_moved limit)
  reached := by
    show moved Message.cursor b.reader.cursor (b.page filters limit) = start.reader.cursor ∨
      moved Message.cursor b.reader.cursor (b.page filters limit) ≤ (b.table.lastSeq : Int)
    unfold moved
    cases last : (b.page filters limit).getLast? with
    | none => exact read.reached
    | some m =>
      right
      rw [page_eq filters read.increasing] at last
      have mem := List.mem_of_mem_take (List.mem_of_getLast? last)
      have posted := List.mem_of_mem_filter (List.mem_of_mem_filter mem)
      exact Int.ofNat_le.mpr (read.bounded m posted)
  entries := by
    have sorted : Increasing Message.cursor (b.matching filters) := read.increasing.filter _
    show b.reader.entries ++ b.page filters limit =
      window _ _ (moved Message.cursor b.reader.cursor (b.page filters limit)) (b.matching filters)
    rw [page_eq filters read.increasing, read.entries]
    rw [← window_append sorted read.forward (le_moved limit), ← take_behind sorted]

theorem read_step {ev : MessageEvent} (read : Read filters start b)
    (taken : step filters b ev = some b') : Read filters start b' := by
  cases ev with
  | post req projectId sessionId now =>
    cases taken
    exact read_post read req projectId sessionId now
  | getMessages limit wait =>
    obtain ⟨-, taken⟩ := Option.ite_none_left_eq_some.mp taken
    split at taken
    · cases taken
      exact ⟨read.increasing, read.bounded, read.forward, read.reached, read.entries⟩
    · cases taken
      exact read_answer read limit
  | readAgain =>
    obtain ⟨limit, -, taken⟩ := Option.map_eq_some_iff.mp taken
    split at taken
    · rw [← taken]
      exact read
    · rw [← taken]
      exact read_answer read limit
  | giveUp =>
    obtain ⟨limit, -, taken⟩ := Option.map_eq_some_iff.mp taken
    rw [← taken]
    exact ⟨read.increasing, read.bounded, read.forward, read.reached, by
      show b.reader.entries ++ [] = _
      rw [List.append_nil]
      exact read.entries⟩

/-- A client was given exactly the messages that it asks for behind its first cursor and up to the
present one, each once and in order. -/
structure ExactlyOnce (filters : Filters) (start b : MessageBoard) : Prop where
  entries : b.reader.entries = b.table.messages.filter fun m =>
    filters.Matches m ∧ start.reader.cursor < m.cursor ∧ m.cursor ≤ b.reader.cursor
  increasing : Increasing Message.cursor b.reader.entries
  forward : start.reader.cursor ≤ b.reader.cursor

/-- Whatever is posted between and during the requests of a client, it reads each message once. -/
theorem exactlyOnce (begins : start.Begins) (reached : Reaches (step filters) Always start b) :
    ExactlyOnce filters start b := by
  have read : Read filters start b := reached.invariant (Read filters start) (read_begins begins)
    fun _ _ _ read _ taken => read_step read taken
  constructor
  · rw [read.entries, window, matching, List.filter_filter]
    apply List.filter_congr
    intro m _
    rw [← Bool.decide_and, decide_eq_decide]
    exact and_comm
  · rw [read.entries]
    exact (read.increasing.filter _).filter _
  · exact read.forward

/-- An empty log, and a client from its beginning. -/
def silent : MessageBoard :=
  { table := { messages := [], lastSeq := 0 }, reader := { cursor := 0, waiting := none, entries := [] } }

theorem begins_silent : silent.Begins where
  increasing := .nil
  bounded _ mem := absurd mem List.not_mem_nil
  unread := rfl

/-- Messages on two channels, with a client that reads one of them one by one and waits. -/
def posts : List MessageEvent :=
  [.getMessages 1 true, .post ⟨['b'], ['x'], none, .chat, [], [], none⟩ ['p'] ['s'] 0, .readAgain,
    .post ⟨['a'], ['x'], none, .chat, [], [], none⟩ ['p'] ['s'] 1, .readAgain,
    .post ⟨['b'], ['x'], none, .chat, [], [], none⟩ ['p'] ['s'] 2,
    .post ⟨['a'], ['x'], none, .chat, [], [], none⟩ ['p'] ['s'] 3, .getMessages 1 false]

/-- The client gets the messages with the numbers 2 and 4. -/
theorem exactlyOnce_posts : ∃ b, posts.foldlM (step ⟨some ['a'], none, some ['p']⟩) silent = some b ∧
    b.reader.entries.map Message.seq = [2, 4] ∧
    ExactlyOnce ⟨some ['a'], none, some ['p']⟩ silent b := by
  have runs : (posts.foldlM (step ⟨some ['a'], none, some ['p']⟩) silent).map
      (fun b => b.reader.entries.map Message.seq) = some [2, 4] := by with_unfolding_all decide
  obtain ⟨b, last, seqs⟩ := Option.map_eq_some_iff.mp runs
  exact ⟨b, last, seqs, exactlyOnce begins_silent
    (Reaches.refl.run posts (fun _ _ _ => trivial) last)⟩

end MessageBoard

end FreeSwarm.Board
