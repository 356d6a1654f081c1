import Relay.Lib.Posix
import Relay.Lib.Url
import Relay.Gateway.StorageTypes

/-!
# Files in an S3 bucket

`S3Storage` keeps every file as an object of one bucket and gives out URLs; `keyFromUrl` reads the key of an object
back from its URL. `upload` and `deleteByUrl` are given by the commands that are sent.
-/

namespace Relay.Gateway.Storage

open Relay.Lib

structure S3StorageOptions where
  region : Text
  bucket : Text
  endpoint : Option Text
  publicUrl : Option Text
  forcePathStyle : Bool
  keyPrefix : Option Text
deriving DecidableEq

structure PutObjectCommand where
  bucket : Text
  key : Text
  body : List UInt8
  contentType : Text
  contentLength : Nat
deriving DecidableEq

structure DeleteObjectCommand where
  bucket : Text
  key : Text
deriving DecidableEq

structure S3Storage where
  bucket : Text
  publicUrl : Option Text
  endpoint : Option Text
  forcePathStyle : Bool
  keyPrefix : Text
  region : Text
deriving DecidableEq

namespace S3Storage

/-- A text that is set and not empty. -/
def truthy (text : Option Text) : Option Text := text.filter (· ≠ [])

def new (options : S3StorageOptions) : S3Storage where
  bucket := options.bucket
  publicUrl := options.publicUrl.map (Js.stripEnd ['/'])
  endpoint := options.endpoint.map (Js.stripEnd ['/'])
  forcePathStyle := options.forcePathStyle
  keyPrefix := Js.stripEnd ['/'] (Js.stripStart ['/'] ((truthy options.keyPrefix).getD "relay".toList))
  region := options.region

/-- The characters of a user's segment. -/
def isSegmentChar (c : Char) : Bool := ('a' ≤ c ∧ c ≤ 'z') ∨ c.isDigit ∨ c ∈ ['.', '_', '-']

/-- The user's segment of a key. -/
def userOf (toLowerCase : Text → Text) (userName : Option Text) : Text :=
  let lowered := toLowerCase (Js.trim ((truthy userName).getD "user".toList))
  let replaced := Js.replaceRuns (!isSegmentChar ·) ['-'] (lowered.takeWhile (· ≠ '@'))
  let user := ((replaced.dropWhile (· = '-')).rdropWhile (· = '-')).take 48
  if user = [] then "user".toList else user

def buildPublicUrl (storage : S3Storage) (key : Text) : Text :=
  match truthy storage.publicUrl with
  | some publicUrl => publicUrl ++ '/' :: key
  | none =>
    match truthy storage.endpoint with
    | some endpoint =>
      if storage.forcePathStyle then endpoint ++ '/' :: storage.bucket ++ '/' :: key
      else
        -- only one of the two schemes can be in front
        let host := if "https://".toList <+: endpoint then endpoint.drop 8 else Js.stripStart "http://".toList endpoint
        let protocol := if "http://".toList <+: endpoint then "http".toList else "https".toList
        protocol ++ "://".toList ++ storage.bucket ++ '.' :: host ++ '/' :: key
    | none =>
      "https://".toList ++ storage.bucket ++ ".s3.".toList ++ storage.region ++ ".amazonaws.com".toList ++ '/' :: key

/-- The key in the path of a URL. -/
def keyFromPath (platform : Url.Platform) (storage : S3Storage) (url : Text) : Option Text := do
  let path ← Url.decodedPath platform url
  if storage.bucket ++ ['/'] <+: path then return path.drop (storage.bucket.length + 1)
  if storage.keyPrefix ++ ['/'] <+: path then return path
  if path = [] then none else return path

def keyFromUrl (platform : Url.Platform) (storage : S3Storage) (url : Text) : Option Text :=
  match truthy storage.publicUrl with
  | some publicUrl =>
    if publicUrl ++ ['/'] <+: url then Percent.decodeURIComponent (url.drop (publicUrl.length + 1))
    else storage.keyFromPath platform url
  | none => storage.keyFromPath platform url

/-- The command that stores the file, and what is returned. -/
def upload (storage : S3Storage) (toLowerCase : Text → Text) (randomUUID : Text) (file : UploadInput) :
    PutObjectCommand × UploadResult :=
  let lowered := toLowerCase (Posix.extname file.originalName)
  let extension := if lowered = [] then ".bin".toList else lowered
  let isAudio := "audio/".toList <+: file.mimeType ∨ file.mimeType = "video/webm".toList
  let isImage := "image/".toList <+: file.mimeType
  let user := userOf toLowerCase file.userName
  let mediaFolder := if isAudio then "voiceNotes".toList else if isImage then "images".toList else "files".toList
  let key := storage.keyPrefix ++ '/' :: user ++ '/' :: mediaFolder ++ '/' :: randomUUID ++ extension
  ({ bucket := storage.bucket, key, body := file.buffer, contentType := file.mimeType, contentLength := file.size },
    { url := storage.buildPublicUrl key, key, provider := .s3, mime := file.mimeType, name := file.originalName,
      size := file.size })

/-- The command that deletes the object of the URL, if one is read from it. -/
def deleteByUrl (platform : Url.Platform) (storage : S3Storage) (url : Text) : Option DeleteObjectCommand := do
  let key ← storage.keyFromUrl platform url
  if key = [] then none else return { bucket := storage.bucket, key }

end S3Storage

end Relay.Gateway.Storage
