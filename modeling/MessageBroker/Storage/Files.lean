import Mathlib.Data.List.AList
import MessageBroker.Lib.Program
import MessageBroker.Storage.Format

namespace MessageBroker.Storage

open Faulty

/-- The files of a partition directory by what their names say: `%020d.log`, `%020d.index` and
    `%020d.index.tmp` of a base offset. Twenty digits hold every `uint64`, so a name and its base
    offset determine each other. -/
inductive FileName where
  | log (baseOffset : Nat)
  | index (baseOffset : Nat)
  | indexTmp (baseOffset : Nat)
  deriving DecidableEq, Repr

/-- `synced` is the content at the file's last successful `Sync`. -/
structure File where
  data : Bytes
  synced : Bytes
  deriving DecidableEq, Repr

/-- `durableNames` are the names that were in the directory when it was last fsynced. -/
structure Directory where
  present : Bool
  files : AList (fun _ : FileName => File)
  durableNames : List FileName

def Directory.empty : Directory := ⟨false, ∅, []⟩

def Directory.file? (d : Directory) (name : FileName) : Option File := d.files.lookup name

def Directory.put (d : Directory) (name : FileName) (file : File) : Directory :=
  { d with files := d.files.insert name file }

def Directory.erase (d : Directory) (name : FileName) : Directory :=
  { d with files := d.files.erase name }

inductive Operation where
  | mkdirAll
  | readDir
  | open_
  | stat
  | readAt
  | writeAt
  | truncate
  | sync
  | close
  | rename
  | remove
  | openDirectory
  | syncDirectory
  deriving DecidableEq, Repr

inductive StoreError where
  | emptyBatch
  | storeClosed
  | offsetOutOfRange
  | batchTooLarge
  | storeCorrupt
  | indexOffsetOverflow
  | maxBytesNotPositive (maxBytes : Int)
  | io (operation : Operation)
  | notExist
  | endOfFile
  | truncatedHeader (position : Nat)
  | truncatedPayload (position : Nat)
  | decodeAt (position : Nat) (reason : DecodeError)
  | segmentGap (expected base : Nat)
  | incompleteHeader
  | incompletePayload
  | magicMismatch
  | unsupportedVersion
  | batchLengthTooSmall (batchLength : Nat)
  | batchExceedsLimit (total : Nat) (limit : Int)
  | corruptBatch (reason : DecodeError)
  | emptyRecordBatch
  | offsetGap (expected got : Nat)
  | offsetGapInside (expected got : Nat)
  | indexSizeNotMultiple (size : Nat)
  | indexTooLarge (size : Nat)
  | indexOffsetNotIncreasing (relative last : Nat)
  | indexPositionNotIncreasing (position last : Nat)
  | indexFirstEntry (relative position : Nat)
  | indexPositionOverflow (position : Nat)
  | closing (failed : List Operation)
  | cleanup (failed : List Operation)
  | retention (failed : Nat)
  deriving DecidableEq, Repr

section Operations

variable {μ : Type}

/-- An operation that leaves the directory as it was when it is interrupted. -/
def unitary {α : Type} (operation : Operation)
    (action : Directory → Except StoreError α × Directory) :
    Program μ Directory StoreError α :=
  Program.operate action (fun _ d => d) (fun _ d => d) (.io operation)

def mkdirAll : Program μ Directory StoreError Unit :=
  unitary .mkdirAll fun d => (.ok (), { d with present := true })

def readDir : Program μ Directory StoreError (List FileName) :=
  unitary .readDir fun d => (.ok d.files.keys, d)

/-- `os.OpenFile` with `O_CREATE|O_RDWR`. -/
def openCreate (name : FileName) : Program μ Directory StoreError Unit :=
  unitary .open_ fun d =>
    match d.file? name with
    | none => (.ok (), d.put name ⟨[], []⟩)
    | some _ => (.ok (), d)

/-- `os.OpenFile` with `O_CREATE|O_WRONLY|O_TRUNC`. -/
def openTruncate (name : FileName) : Program μ Directory StoreError Unit :=
  unitary .open_ fun d =>
    match d.file? name with
    | none => (.ok (), d.put name ⟨[], []⟩)
    | some file => (.ok (), d.put name { file with data := [] })

def openExisting (name : FileName) : Program μ Directory StoreError Unit :=
  unitary .open_ fun d =>
    match d.file? name with
    | none => (.error .notExist, d)
    | some _ => (.ok (), d)

def stat (name : FileName) : Program μ Directory StoreError Nat :=
  unitary .stat fun d =>
    match d.file? name with
    | none => (.error .notExist, d)
    | some file => (.ok file.data.length, d)

/-- Reads exactly `count` bytes; `os.File.ReadAt` reports the end of the file when there are
    fewer. -/
def readAt (name : FileName) (position count : Nat) : Program μ Directory StoreError Bytes :=
  unitary .readAt fun d =>
    match d.file? name with
    | none => (.error .notExist, d)
    | some file =>
      if position + count ≤ file.data.length then (.ok ((file.data.drop position).take count), d)
      else (.error .endOfFile, d)

/-- Reads up to `count` bytes from the start into a zeroed buffer, as a reader that accepts the end
    of the file does. -/
def readUpTo (name : FileName) (count : Nat) : Program μ Directory StoreError Bytes :=
  unitary .readAt fun d =>
    match d.file? name with
    | none => (.error .notExist, d)
    | some file => (.ok (file.data.take count ++ List.replicate (count - file.data.length) 0), d)

def overwrite (data : Bytes) (position : Nat) (bytes : Bytes) : Bytes :=
  (data ++ List.replicate (position - data.length) 0).take position ++ bytes ++
    data.drop (position + bytes.length)

def writeFile (name : FileName) (position : Nat) (bytes : Bytes) (d : Directory) : Directory :=
  match d.file? name with
  | none => d
  | some file => d.put name { file with data := overwrite file.data position bytes }

/-- The only operation that leaves something behind when it is interrupted. `os.File.WriteAt`
    reports an error only while bytes are left to write, so a failed write is a strict prefix of its
    data; a death may come after any number of bytes. -/
def writeAt (name : FileName) (position : Nat) (bytes : Bytes) :
    Program μ Directory StoreError Unit :=
  Program.operate
    (fun d => match d.file? name with
      | none => (.error .notExist, d)
      | some _ => (.ok (), writeFile name position bytes d))
    (fun written d => writeFile name position (bytes.take (min written (bytes.length - 1))) d)
    (fun written d => writeFile name position (bytes.take written) d) (.io .writeAt)

def truncate (name : FileName) (size : Nat) : Program μ Directory StoreError Unit :=
  unitary .truncate fun d =>
    match d.file? name with
    | none => (.error .notExist, d)
    | some file =>
      (.ok (), d.put name
        { file with data := (file.data ++ List.replicate (size - file.data.length) 0).take size })

def sync (name : FileName) : Program μ Directory StoreError Unit :=
  unitary .sync fun d =>
    match d.file? name with
    | none => (.error .notExist, d)
    | some file => (.ok (), d.put name { file with synced := file.data })

def close (_ : FileName) : Program μ Directory StoreError Unit :=
  unitary .close fun d => (.ok (), d)

def rename (source target : FileName) : Program μ Directory StoreError Unit :=
  unitary .rename fun d =>
    match d.file? source with
    | none => (.error .notExist, d)
    | some file => (.ok (), { (d.erase source).put target file with
        durableNames := d.durableNames.filter (· ≠ target) })

def remove (name : FileName) : Program μ Directory StoreError Unit :=
  unitary .remove fun d =>
    match d.file? name with
    | none => (.error .notExist, d)
    | some _ => (.ok (), d.erase name)

def syncDirectory : Program μ Directory StoreError Unit := do
  unitary .openDirectory fun d => (.ok (), d)
  unitary .syncDirectory fun d => (.ok (), { d with durableNames := d.files.keys })

end Operations

end MessageBroker.Storage
