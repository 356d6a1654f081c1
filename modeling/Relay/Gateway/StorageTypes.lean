import Relay.Common.Ids
import Relay.Lib.Js

/-!
# Types of the file storage

What an upload gets and returns, whatever the driver, and the segment of a path that stands for the user.
-/

namespace Relay.Gateway.Storage

open Relay.Lib

inductive StorageDriver where
  | local | s3 | cloudinary
deriving DecidableEq

inductive Purpose where
  | chat | avatar
deriving DecidableEq

structure UploadInput where
  buffer : List UInt8
  originalName : Text
  mimeType : Text
  size : Nat
  userName : Option Text
  purpose : Option Purpose
deriving DecidableEq

structure UploadResult where
  url : Text
  key : Text
  provider : StorageDriver
  mime : Text
  name : Text
  size : Nat
deriving DecidableEq

/-- The characters that `[^a-z0-9._-]` leaves out. -/
def isSegmentChar (c : Char) : Bool := ('a' ≤ c ∧ c ≤ 'z') ∨ c.isDigit ∨ c ∈ ['.', '_', '-']

def storageUserName (toLowerCase : Text → Text) (raw : Option Text) : Text :=
  let name := (toLowerCase (Js.trim (raw.getD "user".toList))).takeWhile (· ≠ '@')
  let replaced := Js.replaceRuns (!isSegmentChar ·) ['-'] name
  let base := ((replaced.dropWhile (· = '-')).rdropWhile (· = '-')).take 48
  if base = [] then "user".toList else base

end Relay.Gateway.Storage
