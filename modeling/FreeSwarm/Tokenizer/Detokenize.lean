import Mathlib.Logic.Function.Basic
import Mathlib.Data.List.DropRight
import FreeSwarm.Foundation.Text

/-!
# Incremental detokenization

The detokenizer keeps one `DecodeStatus` for each request and turns every sampled token into the
text the client receives for it. A call first appends the tokens of all its messages, decodes, and
only then computes the increments; the two loops are kept apart here as in the source.
-/

namespace FreeSwarm.Tokenizer

open FreeSwarm.Foundation

structure TokenTable where
  text : Nat → List Char
  eosTokenIds : List Nat

def TokenTable.decode (t : TokenTable) (ids : List Nat) : List Char := ids.flatMap t.text

@[simp] theorem TokenTable.decode_nil (t : TokenTable) : t.decode [] = [] := rfl

@[simp] theorem TokenTable.decode_append (t : TokenTable) (ids ids' : List Nat) :
    t.decode (ids ++ ids') = t.decode ids ++ t.decode ids' := by
  simp [TokenTable.decode]

/-- Why a generation ended. -/
inductive FinishReason where
  | stop
  | length
  deriving DecidableEq, Repr

/-- One sampled token on its way to the client. -/
structure DetokenizeMsg where
  uid : Nat
  nextToken : Nat
  finished : Bool
  finishReason : Option FinishReason
  matchedStop : Option (List Char)
  stopStrs : Option (List (List Char))
  deriving DecidableEq, Repr

/-- A code point of the CJK ideograph blocks. -/
def isChineseChar (cp : Nat) : Bool :=
  (0x4E00 ≤ cp && cp ≤ 0x9FFF) || (0x3400 ≤ cp && cp ≤ 0x4DBF) ||
  (0x20000 ≤ cp && cp ≤ 0x2A6DF) || (0x2A700 ≤ cp && cp ≤ 0x2B73F) ||
  (0x2B740 ≤ cp && cp ≤ 0x2B81F) || (0x2B820 ≤ cp && cp ≤ 0x2CEAF) ||
  (0xF900 ≤ cp && cp ≤ 0xFAFF) || (0x2F800 ≤ cp && cp ≤ 0x2FA1F)

/-- The part of a text that holds whole words only. -/
def findPrintableText (text : List Char) : List Char :=
  match text.reverse with
  | [] => []
  | last :: rest =>
    if last = '\n' then text
    else if isChineseChar last.toNat then text
    else if (rest.head?.map fun c => isChineseChar c.toNat) = some true then text.dropLast
    else text.rdropWhile (· ≠ ' ')

/-- The longest proper prefix of a stop string, of at most `n` characters, that ends the text. -/
def longestHold (text stop : List Char) : Nat → Nat
  | 0 => 0
  | i + 1 => if stop.take (i + 1) <:+ text then i + 1 else longestHold text stop i

/-- How many trailing characters could still grow into a stop string. -/
def stopPrefixHoldback (text : List Char) (stopStrs : List (List Char)) : Nat :=
  stopStrs.foldl
    (fun hold stop => max hold (longestHold text stop (min (stop.length - 1) text.length))) 0

/-- What the detokenizer keeps for a request. -/
structure DecodeStatus where
  decodedIds : List Nat
  decodedStr : List Char
  readOffset : Nat
  surrOffset : Nat
  sentOffset : Nat
  deriving DecidableEq, Repr

/-- The status of a request before its first token. -/
def DecodeStatus.fresh : DecodeStatus :=
  { decodedIds := [], decodedStr := [], readOffset := 0, surrOffset := 0, sentOffset := 0 }

/-- The replacement character a text ends in when its last token holds part of a character. -/
def replacementChar : Char := '\uFFFD'

def DecodeStatus.append (t : TokenTable) (s : DecodeStatus) (msg : DetokenizeMsg) : DecodeStatus :=
  if msg.finished ∧ msg.nextToken ∈ t.eosTokenIds then s
  else { s with
    decodedIds := s.decodedIds ++ [msg.nextToken] }

/-- The tokens decoded for a message: from the context on, and the context alone. -/
def DecodeStatus.readIds (s : DecodeStatus) : List Nat × List Nat :=
  (s.decodedIds.drop s.surrOffset, (s.decodedIds.take s.readOffset).drop s.surrOffset)

/-- Where the text released for a message ends. -/
def emitEnd (msg : DetokenizeMsg) (output : List Char) : Nat :=
  if msg.finished then
    match msg.matchedStop with
    | some stop => if stop = [] then output.length else (findSub stop output).getD output.length
    | none => output.length
  else
    match msg.stopStrs with
    | some stops => output.length - stopPrefixHoldback output stops
    | none => output.length

/-- Take the decoded texts of a message into the status: the new status and the text so far. -/
def DecodeStatus.advance (s : DecodeStatus) (readStr surrStr : List Char) :
    DecodeStatus × List Char :=
  let newText := readStr.drop surrStr.length
  if 0 < newText.length ∧ newText.getLast? ≠ some replacementChar then
    ({ s with
        decodedStr := s.decodedStr ++ newText
        surrOffset := s.readOffset
        readOffset := s.decodedIds.length }, s.decodedStr ++ newText)
  else (s, s.decodedStr ++ findPrintableText newText)

/-- The increment of a message and the status after it. -/
def DecodeStatus.emit (s : DecodeStatus) (msg : DetokenizeMsg) (readStr surrStr : List Char) :
    DecodeStatus × List Char :=
  let (s, output) := s.advance readStr surrStr
  let stop := emitEnd msg output
  ({ s with
      sentOffset := max s.sentOffset stop },
    if s.sentOffset < stop then (output.take stop).drop s.sentOffset else [])

/-- The detokenizer: the tokenizer and the status of every request it knows. -/
structure DetokenizeManager where
  tokenizer : TokenTable
  decodeMap : Nat → Option DecodeStatus

namespace DetokenizeManager

/-- Forget a request that ended without a final token. -/
def discard (m : DetokenizeManager) (uid : Nat) : DetokenizeManager :=
  { m with
    decodeMap := Function.update m.decodeMap uid none }

/-- The first loop on one message: register the request, append its token, select what to decode. -/
def collect (m : DetokenizeManager) (msg : DetokenizeMsg) :
    DetokenizeManager × (List Nat × List Nat) :=
  let s := ((m.decodeMap msg.uid).getD DecodeStatus.fresh).append m.tokenizer msg
  ({ m with
      decodeMap := Function.update m.decodeMap msg.uid (some s) }, s.readIds)

/-- The first loop over the messages of a call. -/
def collectAll (m : DetokenizeManager) :
    List DetokenizeMsg → DetokenizeManager × List (List Nat × List Nat)
  | [] => (m, [])
  | msg :: msgs =>
    let (m₁, ids) := m.collect msg
    let (m₂, rest) := m₁.collectAll msgs
    (m₂, ids :: rest)

/-- The second loop on one message; a request no longer known is an error. -/
def release (m : DetokenizeManager) (msg : DetokenizeMsg) (readStr surrStr : List Char) :
    Option (DetokenizeManager × List Char) :=
  (m.decodeMap msg.uid).map fun s =>
    let (s, increment) := s.emit msg readStr surrStr
    ({ m with
        decodeMap := Function.update m.decodeMap msg.uid (if msg.finished then none else some s) },
      increment)

/-- The second loop over the messages of a call. -/
def releaseAll (m : DetokenizeManager) :
    List (DetokenizeMsg × List Char × List Char) → Option (DetokenizeManager × List (List Char))
  | [] => some (m, [])
  | (msg, readStr, surrStr) :: rest =>
    (m.release msg readStr surrStr).bind fun (m₁, increment) =>
      (m₁.releaseAll rest).map fun (m₂, increments) => (m₂, increment :: increments)

/-- The increments for the messages of one call. -/
def detokenize (m : DetokenizeManager) (msgs : List DetokenizeMsg) :
    Option (DetokenizeManager × List (List Char)) :=
  let (m₁, ids) := m.collectAll msgs
  let texts := ids.map fun r => (m.tokenizer.decode r.1, m.tokenizer.decode r.2)
  m₁.releaseAll (msgs.zip texts)

end DetokenizeManager

inductive Call where
  | detokenize (msgs : List DetokenizeMsg)
  | discard (uid : Nat)
  deriving DecidableEq, Repr

/-- A run of calls: the manager after it and the increments in order, each with its request. -/
def DetokenizeManager.serve (m : DetokenizeManager) :
    List Call → Option (DetokenizeManager × List (Nat × List Char))
  | [] => some (m, [])
  | .discard uid :: calls => (m.discard uid).serve calls
  | .detokenize msgs :: calls =>
    (m.detokenize msgs).bind fun (m₁, increments) =>
      (m₁.serve calls).map fun (m₂, replies) =>
        (m₂, (msgs.map (·.uid)).zip increments ++ replies)

def clientText (uid : Nat) (replies : List (Nat × List Char)) : List Char :=
  (replies.filter (·.1 = uid)).flatMap (·.2)

end FreeSwarm.Tokenizer
