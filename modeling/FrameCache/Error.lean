import FrameCache.Partition.File
import FrameCache.Json.Typed

/-!
# Errors of the cache

Every operation of the library fails with one `CacheError`. Each error has a kind, its
`name`, and a text, its `message`; wrapped failures (frames, file systems, partition bytes)
keep their own texts after a fixed prefix. An operation that meets a `Fault` fails with it
too. Texts of errors show timestamps in the plain form, which is written for any local time,
in range or not.
-/

namespace FrameCache

/-- A failure of the file system or of a byte stream. -/
inductive IoFailure where
  | notFound
  | alreadyExists
  | isADirectory
  | notADirectory
  | directoryNotEmpty
  /-- A name is longer than the file system allows. -/
  | nameTooLong
  /-- A directory cannot be mapped into memory. -/
  | noDevice
  /-- The data ended before what was asked for was read. -/
  | unexpectedEnd (text : String)
  /-- A request that the stream cannot serve. -/
  | invalidInput (text : String)
  deriving DecidableEq

namespace IoFailure

/-- The kind of the failure. -/
def kind : IoFailure → String
  | .notFound => "NotFound"
  | .alreadyExists => "AlreadyExists"
  | .isADirectory => "IsADirectory"
  | .notADirectory => "NotADirectory"
  | .directoryNotEmpty => "DirectoryNotEmpty"
  | .nameTooLong => "InvalidFilename"
  | .noDevice => "Uncategorized"
  | .unexpectedEnd _ => "UnexpectedEof"
  | .invalidInput _ => "InvalidInput"

/-- The text of the failure; file system failures carry their system error number. -/
def message : IoFailure → String
  | .notFound => "No such file or directory (os error 2)"
  | .alreadyExists => "File exists (os error 17)"
  | .isADirectory => "Is a directory (os error 21)"
  | .notADirectory => "Not a directory (os error 20)"
  | .directoryNotEmpty => "Directory not empty (os error 39)"
  | .nameTooLong => "File name too long (os error 36)"
  | .noDevice => "No such device (os error 19)"
  | .unexpectedEnd t => t
  | .invalidInput t => t

/-- The failure of a bit stream. -/
def ofBits : BitsError → IoFailure
  | .exhausted => .unexpectedEnd BitsError.exhausted.message
  | .tooWide => .invalidInput BitsError.tooWide.message

/-- A short read of a fixed number of bytes. -/
def shortRead : IoFailure := .unexpectedEnd "failed to fill whole buffer"

end IoFailure

/-- The kind of a frame error. -/
def FrameError.name : FrameError → String
  | .missingColumn .. => "MissingColumn"
  | .columnType .. => "ColumnType"
  | .columnLength .. => "ColumnLength"
  | .schemaMismatch .. => "SchemaMismatch"

/-- A path as it appears in messages: quoted as `Text.quoted` quotes strings. -/
def quotePath (path : String) : String := Text.quoted path

/-- Why an operation of the cache failed. -/
inductive CacheError where
  | invalidTimeRange (start stop : Timestamp)
  | notADirectory (path : String)
  | frame (e : FrameError)
  | emptyFrame
  | nonUniformSampling (least most : TimeDelta)
  | timestampOutOfRange (t : Timestamp)
  | invalidConfiguration (text : String)
  | invalidPartition (path : String)
  | dataCorruption (text : String)
  | query (text : String)
  | ioAt (path : String) (e : IoFailure)
  | io (e : IoFailure)
  | json (e : JsonError)
  | textList (e : TextListError)
  /-- The operation met a fault, which ends the run. -/
  | fault (f : Fault)

namespace CacheError

/-- The kind of the error. -/
def name : CacheError → String
  | .invalidTimeRange .. => "InvalidTimeRange"
  | .notADirectory .. => "NotADirectory"
  | .frame e => e.name
  | .emptyFrame => "EmptyFrame"
  | .nonUniformSampling .. => "NonUniformSampling"
  | .timestampOutOfRange .. => "TimestampOutOfRange"
  | .invalidConfiguration .. => "InvalidConfiguration"
  | .invalidPartition .. => "InvalidPartition"
  | .dataCorruption .. => "DataCorruption"
  | .query .. => "Query"
  | .ioAt .. => "IoWithPath"
  | .io .. => "Io"
  | .json .. => "Json"
  | .textList .. => "Bincode"
  | .fault .. => "panic"

/-- The text of the error. -/
def message : CacheError → String
  | .invalidTimeRange s e => "Invalid time range: start " ++ s.display ++ " >= end " ++ e.display
  | .notADirectory p => "Cache path " ++ quotePath p ++ " exists but is not a directory"
  | .frame e => e.message
  | .emptyFrame => "Cannot store an empty frame"
  | .nonUniformSampling a b =>
    "Non-uniform sampling: periods range from " ++ a.text ++ " to " ++ b.text ++ "; resample first"
  | .timestampOutOfRange t => "Timestamp " ++ t.display ++ " cannot be represented in nanoseconds"
  | .invalidConfiguration t => "Invalid configuration: " ++ t
  | .invalidPartition p => "Invalid partition file: " ++ quotePath p
  | .dataCorruption t => "Data corruption detected: " ++ t
  | .query t => "Query function failed: " ++ t
  | .ioAt p e => "IO error at path " ++ quotePath p ++ ": " ++ e.message
  | .io e => "IO error: " ++ e.message
  | .json e => "JSON serialization error: " ++ e.message
  | .textList e => "Bincode serialization error: " ++ e.message
  | .fault f => f.message

/-- The kind and text of an error as it is reported, or the fault that ended the run. -/
def report : CacheError → Except Fault (String × String)
  | .fault f => .error f
  | e => .ok (e.name, e.message)

/-- Fails with the fault of a timestamp whose local time is out of range. -/
def requireLocal (t : Timestamp) : Except CacheError Unit := t.checkLocal.mapError .fault

/-- The error of a partition file that could not be written. -/
def ofWrite : WriteError → CacheError
  | .emptyFrame => .emptyFrame
  | .timestampOutOfRange t => .timestampOutOfRange t

/-- The error of partition bytes that could not be read. -/
def ofRead : ReadError → CacheError
  | .corrupt c => .dataCorruption c.message
  | .json e => .json e
  | .textList e => .textList e
  | .stream e => .io (IoFailure.ofBits e)

end CacheError

end FrameCache
