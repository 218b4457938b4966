import MessageBroker.Storage.Files

namespace MessageBroker.Offsets

open Faulty Program BigEndian Crc32
open Storage (Operation overwrite)

def offsetPrefixSize : Nat := 9
def offsetMinRemainder : Nat := 32
def maxConsumerGroupBytes : Nat := 255
def maxTopicNameBytes : Nat := 255
def maxOffsetEntryBytes : Nat := 1024

/-- "OFFS". -/
def offsetMagic : Bytes := [0x4F, 0x46, 0x46, 0x53]

structure Key where
  group : Bytes
  topic : Bytes
  partition : UInt32
  deriving DecidableEq, Repr

structure Store where
  offsets : AList (fun _ : Key => UInt64)
  size : Nat
  closed : Bool
  writeFailed : Bool

inductive OffsetError where
  | storeClosed
  | storeUnavailable
  | invalidGroup
  | invalidTopic
  | io (operation : Operation)
  | notExist
  | endOfFile
  | invalidMagicOrVersion (position : Nat)
  | entryTooSmall (entryLength position : Nat)
  | entryTooLarge (entryLength position : Nat)
  | checksumMismatch (position : Nat)
  | noGroupLength (position : Nat)
  | invalidGroupLength (groupLen position : Nat)
  | groupPastPayload (position : Nat)
  | groupNotUtf8 (position : Nat)
  | noTopicLength (position : Nat)
  | invalidTopicLength (topicLen position : Nat)
  | topicPastPayload (position : Nat)
  | topicNotUtf8 (position : Nat)
  | entryLengthMismatch (entryLength expected position : Nat)
  | remainderMismatch (position : Nat)
  | closing (failed : List Operation)
  deriving DecidableEq, Repr

structure Disk where
  file : Option Bytes
  deriving DecidableEq, Repr

/-! ## Strings -/

def isContinuation (byte : UInt8) : Bool := 0x80 ≤ byte && byte ≤ 0xBF

/-- `utf8.ValidString`: no overlong form, no surrogate, nothing beyond U+10FFFF. -/
def validString : Bytes → Bool
  | [] => true
  | b0 :: rest =>
    if b0 < 0x80 then validString rest
    else if 0xC2 ≤ b0 && b0 ≤ 0xDF then
      match rest with
      | b1 :: rest => isContinuation b1 && validString rest
      | _ => false
    else if 0xE0 ≤ b0 && b0 ≤ 0xEF then
      match rest with
      | b1 :: b2 :: rest => isContinuation b1 && isContinuation b2 && !(b0 == 0xE0 && b1 < 0xA0) &&
          !(b0 == 0xED && 0x9F < b1) && validString rest
      | _ => false
    else if 0xF0 ≤ b0 && b0 ≤ 0xF4 then
      match rest with
      | b1 :: b2 :: b3 :: rest => isContinuation b1 && isContinuation b2 && isContinuation b3 &&
          !(b0 == 0xF0 && b1 < 0x90) && !(b0 == 0xF4 && 0x8F < b1) && validString rest
      | _ => false
    else false

example : validString [0x61, 0xC3, 0xA9, 0xE2, 0x82, 0xAC, 0xF0, 0x9F, 0x98, 0x80] = true := by
  decide

/-! ## Entries -/

def encodePayload (key : Key) (nextOffset : UInt64) (timestamp : Int) : Bytes :=
  put 4 key.group.length ++ key.group ++ put 4 key.topic.length ++ key.topic ++
    put 4 key.partition.toNat ++ put 8 nextOffset.toNat ++ put 8 (uint64 timestamp)

def encodeEntry (key : Key) (nextOffset : UInt64) (timestamp : Int) : Bytes :=
  let payload := encodePayload key nextOffset timestamp
  offsetMagic ++ [0x01] ++ put 4 (offsetMinRemainder + key.group.length + key.topic.length) ++
    put 4 (checksumIEEE payload) ++ payload

def parsePayload (position entryLength : Nat) (payload : Bytes) :
    Except OffsetError (Key × UInt64) :=
  if payload.length < 4 then .error (.noGroupLength position)
  else
    let groupLen := get (payload.take 4)
    let rest := payload.drop 4
    if groupLen = 0 ∨ maxConsumerGroupBytes < groupLen then
      .error (.invalidGroupLength groupLen position)
    else if rest.length < groupLen then .error (.groupPastPayload position)
    else if ¬ validString (rest.take groupLen) then .error (.groupNotUtf8 position)
    else
      let group := rest.take groupLen
      let rest := rest.drop groupLen
      if rest.length < 4 then .error (.noTopicLength position)
      else
        let topicLen := get (rest.take 4)
        let rest := rest.drop 4
        if topicLen = 0 ∨ maxTopicNameBytes < topicLen then
          .error (.invalidTopicLength topicLen position)
        else if rest.length < topicLen then .error (.topicPastPayload position)
        else if ¬ validString (rest.take topicLen) then .error (.topicNotUtf8 position)
        else
          let topic := rest.take topicLen
          let rest := rest.drop topicLen
          if entryLength ≠ offsetMinRemainder + groupLen + topicLen then
            .error (.entryLengthMismatch entryLength (offsetMinRemainder + groupLen + topicLen)
              position)
          else if rest.length ≠ 20 then .error (.remainderMismatch position)
          else .ok (⟨group, topic, UInt32.ofNat (get (rest.take 4))⟩,
            UInt64.ofNat (get ((rest.drop 4).take 8)))

/-! ## Operations on the file -/

section Operations

variable {μ α : Type}

/-- An operation that leaves the file as it was when it is interrupted. -/
def fileOperation (operation : Operation) (action : Disk → Except OffsetError α × Disk) :
    Program μ Disk OffsetError α :=
  Program.operate action (fun _ d => d) (fun _ d => d) (.io operation)

def mkdirAll : Program μ Disk OffsetError Unit := fileOperation .mkdirAll fun d => (.ok (), d)

def openFile : Program μ Disk OffsetError Unit :=
  fileOperation .open_ fun d => (.ok (), ⟨some (d.file.getD [])⟩)

def statFile : Program μ Disk OffsetError Nat :=
  fileOperation .stat fun d =>
    match d.file with
    | none => (.error .notExist, d)
    | some data => (.ok data.length, d)

def readAt (position count : Nat) : Program μ Disk OffsetError Bytes :=
  fileOperation .readAt fun d =>
    match d.file with
    | none => (.error .notExist, d)
    | some data =>
      if position + count ≤ data.length then (.ok ((data.drop position).take count), d)
      else (.error .endOfFile, d)

/-- A write that fails and one that the process dies in leave some prefix of the bytes. -/
def writeAt (position : Nat) (bytes : Bytes) : Program μ Disk OffsetError Unit :=
  let write (bytes : Bytes) (d : Disk) : Disk :=
    ⟨d.file.map fun data => overwrite data position bytes⟩
  Program.operate
    (fun d => match d.file with
      | none => (.error .notExist, d)
      | some _ => (.ok (), write bytes d))
    (fun written d => write (bytes.take written) d) (fun written d => write (bytes.take written) d)
    (.io .writeAt)

def truncateFile (size : Nat) : Program μ Disk OffsetError Unit :=
  fileOperation .truncate fun d =>
    match d.file with
    | none => (.error .notExist, d)
    | some data => (.ok (), ⟨some ((data ++ List.replicate (size - data.length) 0).take size)⟩)

def syncFile : Program μ Disk OffsetError Unit := fileOperation .sync fun d => (.ok (), d)

def closeFile : Program μ Disk OffsetError Unit := fileOperation .close fun d => (.ok (), d)

def truncateAndSync (size : Nat) : Program μ Disk OffsetError Unit := do
  truncateFile size
  syncFile

end Operations

/-! ## Recovery -/

section Recovery

variable {μ : Type}

/-- The scan from `pos` on. `pos` is also the source's `validSize` whenever the loop comes round. -/
def recoverFrom (fileSize pos : Nat) (offsets : AList (fun _ : Key => UInt64)) :
    Program μ Disk OffsetError (AList (fun _ : Key => UInt64) × Nat) :=
  if _inside : pos < fileSize then
    if fileSize - pos < offsetPrefixSize then do
      truncateAndSync pos
      pure (offsets, pos)
    else do
      let prefixBuf ← readAt pos offsetPrefixSize
      let entryLength := get ((prefixBuf.drop 5).take 4)
      if prefixBuf.take 4 ≠ offsetMagic ∨ (prefixBuf.drop 4).take 1 ≠ [0x01] then
        throw (.invalidMagicOrVersion pos)
      else if entryLength < offsetMinRemainder then throw (.entryTooSmall entryLength pos)
      else if maxOffsetEntryBytes < entryLength then throw (.entryTooLarge entryLength pos)
      else if fileSize < pos + offsetPrefixSize + entryLength then do
        truncateAndSync pos
        pure (offsets, pos)
      else do
        let frame ← readAt (pos + offsetPrefixSize) entryLength
        let payload := frame.drop 4
        if get (frame.take 4) ≠ checksumIEEE payload then throw (.checksumMismatch pos)
        else
          match parsePayload pos entryLength payload with
          | .error reason => throw reason
          | .ok (key, nextOffset) =>
            recoverFrom fileSize (pos + offsetPrefixSize + entryLength)
              (offsets.insert key nextOffset)
  else pure (offsets, pos)
termination_by fileSize - pos
decreasing_by
  simp only [offsetPrefixSize]
  omega

def recover : Program μ Disk OffsetError Store := do
  let fileSize ← statFile
  let (offsets, size) ← recoverFrom fileSize 0 ∅
  pure ⟨offsets, size, false, false⟩

def openStore : Program μ Disk OffsetError Store := do
  mkdirAll
  openFile
  onError recover closeFile

end Recovery

/-! ## The open store -/

def poison : Program Store Disk OffsetError Unit := modify fun s => { s with writeFailed := true }

def invalidName (name : Bytes) (limit : Nat) : Bool :=
  name.length == 0 || limit < name.length || !validString name

def commit (now : Instant) (key : Key) (nextOffset : UInt64) :
    Program Store Disk OffsetError Unit :=
  if invalidName key.group maxConsumerGroupBytes then throw .invalidGroup
  else if invalidName key.topic maxTopicNameBytes then throw .invalidTopic
  else do
    let s ← memory
    if s.closed then throw .storeClosed
    else if s.writeFailed then throw .storeUnavailable
    else do
      let encoded := encodeEntry key nextOffset (unixMilli now)
      onError (writeAt s.size encoded) poison
      onError syncFile poison
      modify fun s =>
        { s with size := s.size + encoded.length, offsets := s.offsets.insert key nextOffset }

/-- `none` for a key that nothing was committed for. -/
def Store.get (s : Store) (key : Key) : Except OffsetError (Option UInt64) :=
  if s.closed then .error .storeClosed
  else if s.writeFailed then .error .storeUnavailable
  else .ok (s.offsets.lookup key)

/-- A store whose last write failed is not flushed. -/
def flushHealthy (s : Store) : Program Store Disk OffsetError Unit :=
  if s.writeFailed then pure () else syncFile

def failedOperations (synced closed : Except OffsetError Unit) : List Operation :=
  (if synced.isOk then [] else [.sync]) ++ if closed.isOk then [] else [.close]

def closeStore : Program Store Disk OffsetError Unit := do
  let s ← memory
  if s.closed then pure ()
  else do
    modify fun s => { s with closed := true }
    let synced ← attempt (flushHealthy s)
    let closed ← attempt closeFile
    match failedOperations synced closed with
    | [] => pure ()
    | failed => throw (.closing failed)

end MessageBroker.Offsets
