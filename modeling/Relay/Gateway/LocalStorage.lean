import Relay.Lib.Posix
import Relay.Gateway.StorageTypes

/-!
# Files in a directory of the server

`LocalStorage` keeps every file under one directory. `upload` and `deleteByUrl` are given by what they hand to
the file system: the file that is written, and the path that is unlinked.
-/

namespace Relay.Gateway.Storage

open Relay.Lib

structure LocalStorage where
  root : Posix.AbsolutePath

namespace LocalStorage

/-- The constructor, in the working directory `cwd`; no directory, or an empty one, is `uploads`. -/
def new (cwd : Posix.AbsolutePath) (rootDir : Option Text) : LocalStorage where
  root := cwd.resolve ((rootDir.filter (· ≠ [])).getD "uploads".toList)

def uploadsPrefix : Text := "/uploads/".toList

/-- The path and the bytes that are written, and what is returned. -/
def upload (storage : LocalStorage) (toLowerCase : Text → Text) (randomUUID : Text) (file : UploadInput) :
    (Text × List UInt8) × UploadResult :=
  let lowered := toLowerCase (Posix.extname file.originalName)
  let extension := if lowered = [] then ".bin".toList else lowered
  let folder := if file.purpose = some .avatar then "profilePictures".toList else []
  let key := if folder ≠ [] then folder ++ '/' :: randomUUID ++ extension else randomUUID ++ extension
  ((Posix.join storage.root.text key, file.buffer),
    { url := uploadsPrefix ++ key, key, provider := .local, mime := file.mimeType, name := file.originalName,
      size := file.size })

/-- The part of the URL that names a file: what follows `/uploads/`, without query and fragment. -/
def keyOf (url : Text) : Text := (url.drop uploadsPrefix.length).takeWhile fun c => c ≠ '?' ∧ c ≠ '#'

/-- The path that is unlinked, if the URL leads to one. -/
def deleteByUrl (storage : LocalStorage) (url : Text) : Option Text :=
  if ¬ uploadsPrefix <+: url then none
  else if keyOf url = [] ∨ ['.', '.'] <:+: keyOf url then none
  else some (Posix.join storage.root.text (keyOf url))

end LocalStorage

end Relay.Gateway.Storage
