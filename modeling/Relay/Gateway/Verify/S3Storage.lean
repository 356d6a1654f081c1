import Relay.Gateway.S3Storage

/-!
# Which files in S3 can be deleted by their URL

`keyFromUrl` reads a key back from the URL `buildPublicUrl` made of it when the key stays what it is in a URL, and
the URLs lead to the bucket or to the root of the server (`Readable`). An upload takes the extension of its file
name into the key as it is, so the key need not be such a one: of `main.c#`, the `#` ends the path of the URL.
-/

namespace Relay.Gateway.Storage.S3Storage

open Relay.Lib Url Percent

variable {platform : Platform} {storage : S3Storage} {key path base b : Text}

/-- The URL of the bucket has the path `b`. -/
def BaseIs (platform : Platform) (storage : S3Storage) (b : Text) : Prop :=
  IsPlace (storage.buildPublicUrl []) ∧ decodedPath platform (storage.buildPublicUrl []) = some b

/-- The keys that are read back from their URLs. With a public URL nothing in the key may be percent-decoded.
Without, the key has to stay what it is in a path, and the path of the bucket's URL is the name of the bucket, or
empty while the key does not start with that name. -/
def Readable (platform : Platform) (storage : S3Storage) (key : Text) : Prop :=
  match truthy storage.publicUrl with
  | some _ => '%' ∉ key
  | none => IsPlain key ∧ (BaseIs platform storage (storage.bucket ++ ['/']) ∨
      BaseIs platform storage [] ∧ ¬ storage.bucket ++ ['/'] <+: key)

/-- Not both the key and the place of the bucket are odd: the key stays what it is in a path, or the path of the
bucket's URL is empty or the name of the bucket. -/
def Regular (platform : Platform) (storage : S3Storage) (key : Text) : Prop :=
  truthy storage.publicUrl ≠ none ∨
    ∃ b, BaseIs platform storage b ∧
      (IsPlain key ∨ b = [] ∨ b = storage.bucket ++ ['/'] ∧ '/' ∉ storage.bucket)

/-! ## URLs -/

/-- The key comes last in its URL, after a slash. -/
theorem buildPublicUrl_eq (storage : S3Storage) :
    ∃ base, ∀ key, storage.buildPublicUrl key = base ++ '/' :: key := by
  unfold buildPublicUrl
  cases truthy storage.publicUrl with
  | some publicUrl => exact ⟨publicUrl, fun key => rfl⟩
  | none =>
    cases truthy storage.endpoint with
    | none => exact ⟨_, fun key => rfl⟩
    | some endpoint =>
      by_cases hstyle : storage.forcePathStyle = true
      · simp only [hstyle, if_true]
        exact ⟨endpoint ++ '/' :: storage.bucket, fun key => by simp⟩
      · simp only [hstyle]
        exact ⟨_, fun key => rfl⟩

theorem keyFromUrl_of_publicUrl (h : truthy storage.publicUrl = some base) (key : Text) :
    storage.keyFromUrl platform (storage.buildPublicUrl key) = decodeURIComponent key := by
  unfold keyFromUrl buildPublicUrl
  simp only [h]
  rw [if_pos ⟨key, by simp⟩]
  congr 1
  simp

theorem keyFromUrl_of_none (h : truthy storage.publicUrl = none) (url : Text) :
    storage.keyFromUrl platform url = storage.keyFromPath platform url := by
  unfold keyFromUrl
  rw [h]

/-- What is taken from a path: all of it, without the name of the bucket in front. -/
theorem keyFromPath_eq_some {url : Text} (hkey : key ≠ []) :
    storage.keyFromPath platform url = some key ↔
      decodedPath platform url = some (storage.bucket ++ '/' :: key) ∨
        decodedPath platform url = some key ∧ ¬ storage.bucket ++ ['/'] <+: key := by
  unfold keyFromPath
  cases decodedPath platform url with
  | none => simp
  | some path =>
    simp only [Option.bind_eq_bind, Option.bind_some, Option.some.injEq, Option.pure_def]
    by_cases hbucket : storage.bucket ++ ['/'] <+: path
    · obtain ⟨rest, rfl⟩ := hbucket
      have hrest : (storage.bucket ++ ['/'] ++ rest).drop (storage.bucket.length + 1) = rest := by simp
      rw [if_pos (List.prefix_append _ _), hrest, Option.some.injEq]
      constructor
      · rintro rfl
        exact .inl (by simp)
      · rintro (heq | ⟨rfl, hnot⟩)
        · simpa using heq
        · exact absurd (List.prefix_append _ _) hnot
    · rw [if_neg hbucket]
      have hall : (if storage.keyPrefix ++ ['/'] <+: path then some path else if path = [] then none else some path) =
          some key ↔ path = key := by
        split
        · exact Option.some_inj
        · split
          · next hnil =>
            rw [hnil]
            simpa using hkey
          · exact Option.some_inj
      rw [hall]
      constructor
      · rintro rfl
        exact .inr ⟨rfl, hbucket⟩
      · rintro (rfl | ⟨rfl, _⟩)
        · exact absurd ⟨key, by simp⟩ hbucket
        · rfl

/-! ## Keys -/

theorem readable_of_none (hpublic : truthy storage.publicUrl = none) :
    Readable platform storage key ↔ IsPlain key ∧ (BaseIs platform storage (storage.bucket ++ ['/']) ∨
      BaseIs platform storage [] ∧ ¬ storage.bucket ++ ['/'] <+: key) := by
  unfold Readable
  rw [hpublic]

/-- A key that can be read is read back. -/
theorem keyFromUrl_of_readable (hkey : key ≠ []) (h : Readable platform storage key) :
    storage.keyFromUrl platform (storage.buildPublicUrl key) = some key := by
  obtain ⟨base, hbase⟩ := buildPublicUrl_eq storage
  cases hpublic : truthy storage.publicUrl with
  | some publicUrl =>
    unfold Readable at h
    rw [hpublic] at h
    rw [keyFromUrl_of_publicUrl hpublic]
    exact decodeURIComponent_self.mpr h
  | none =>
    rw [readable_of_none hpublic] at h
    obtain ⟨hplain, hplace⟩ := h
    unfold BaseIs at hplace
    rw [hbase] at hplace
    rw [keyFromUrl_of_none hpublic, keyFromPath_eq_some hkey, hbase]
    obtain ⟨hplace, hpath⟩ | ⟨⟨hplace, hpath⟩, hbucket⟩ := hplace
    · rw [decodedPath_of_plain hplace hpath hplain]
      exact .inl (by simp)
    · rw [decodedPath_of_plain hplace hpath hplain]
      exact .inr ⟨rfl, hbucket⟩

/-- With a plain key the path of its URL only has to be the right one. -/
theorem readable_of_plain (hpublic : truthy storage.publicUrl = none) (hb : BaseIs platform storage b)
    (hplain : IsPlain key)
    (h : b ++ key = storage.bucket ++ '/' :: key ∨ b ++ key = key ∧ ¬ storage.bucket ++ ['/'] <+: key) :
    Readable platform storage key := by
  rw [readable_of_none hpublic]
  refine ⟨hplain, ?_⟩
  obtain heq | ⟨heq, hbucket⟩ := h
  · have hsame : b ++ key = (storage.bucket ++ ['/']) ++ key := by simpa using heq
    have hbucket : b = storage.bucket ++ ['/'] := List.append_cancel_right hsame
    rw [hbucket] at hb
    exact .inl hb
  · have hnil : b = [] := by simpa using heq
    rw [hnil] at hb
    exact .inr ⟨hb, hbucket⟩

/-- Where the path of the bucket's URL is the right one, only a plain key is found in the path of its URL. -/
theorem isPlain_of_decodedPath {t : Text} (hplace : IsPlace (base ++ ['/']))
    (hpath : decodedPath platform (base ++ ['/']) = some b)
    (hb : b = [] ∨ b = storage.bucket ++ ['/'] ∧ '/' ∉ storage.bucket)
    (h : decodedPath platform (base ++ '/' :: key) = some t)
    (ht : t = storage.bucket ++ '/' :: key ∨ t = key ∧ ¬ storage.bucket ++ ['/'] <+: key) : IsPlain key := by
  have hlonger : size key < size (storage.bucket ++ '/' :: key) := by
    have hpos := size_cons_pos '/' key
    rw [size_append]
    omega
  obtain ⟨u, rfl, hle, hself⟩ | hlt | hcount := decodedPath_cases hplace hpath h
  · obtain rfl | ⟨rfl, _⟩ := hb
    · obtain ht | ⟨ht, _⟩ := ht
      · rw [List.nil_append] at ht
        rw [← ht] at hlonger
        omega
      · exact hself ht
    · obtain ht | ⟨ht, hbucket⟩ := ht
      · have hsame : storage.bucket ++ ['/'] ++ u = storage.bucket ++ ['/'] ++ key := by
          rw [ht, List.append_assoc]
          rfl
        exact hself (List.append_cancel_left hsame)
      · exact absurd ⟨u, ht⟩ hbucket
  · obtain rfl | ⟨rfl, _⟩ := ht
    · omega
    · omega
  · obtain rfl | ⟨rfl, hbucket⟩ := hb
    · cases hcount
    · rw [List.count_append, List.count_eq_zero.mpr hbucket] at hcount
      have hone : ['/'].count '/' = 1 := rfl
      omega

/-- A key that is read back can be read, if not both it and the place of the bucket are odd. -/
theorem readable_of_keyFromUrl (hkey : key ≠ []) (hregular : Regular platform storage key)
    (h : storage.keyFromUrl platform (storage.buildPublicUrl key) = some key) : Readable platform storage key := by
  obtain ⟨base, hbase⟩ := buildPublicUrl_eq storage
  cases hpublic : truthy storage.publicUrl with
  | some publicUrl =>
    rw [keyFromUrl_of_publicUrl hpublic, decodeURIComponent_self] at h
    unfold Readable
    rw [hpublic]
    exact h
  | none =>
    obtain hnone | ⟨b, hb, hodd⟩ := hregular
    · exact absurd hpublic hnone
    have hb' := hb
    unfold BaseIs at hb'
    rw [hbase] at hb'
    obtain ⟨hplace, hpath⟩ := hb'
    rw [keyFromUrl_of_none hpublic, keyFromPath_eq_some hkey, hbase] at h
    have hplain : IsPlain key := by
      obtain hplain | hb := hodd
      · exact hplain
      · obtain h | h := h
        · exact isPlain_of_decodedPath hplace hpath hb h (.inl rfl)
        · exact isPlain_of_decodedPath hplace hpath hb h.1 (.inr ⟨rfl, h.2⟩)
    rw [decodedPath_of_plain hplace hpath hplain, Option.some.injEq, Option.some.injEq] at h
    exact readable_of_plain hpublic hb hplain h

/-! ## Uploads -/

variable (storage) in
theorem upload_key_ne_nil (toLowerCase : Text → Text) (randomUUID : Text) (file : UploadInput) :
    (storage.upload toLowerCase randomUUID file).1.key ≠ [] := by
  intro h
  unfold upload at h
  dsimp only at h
  have hslash := (List.append_eq_nil_iff.mp (List.append_eq_nil_iff.mp h).1).2
  exact List.cons_ne_nil _ _ hslash

theorem deleteByUrl_eq_some {url : Text} (hkey : key ≠ []) :
    storage.deleteByUrl platform url = some { bucket := storage.bucket, key } ↔
      storage.keyFromUrl platform url = some key := by
  unfold deleteByUrl
  cases hread : storage.keyFromUrl platform url with
  | none => simp
  | some found =>
    simp only [Option.bind_eq_bind, Option.bind_some, Option.some.injEq]
    split
    · next hnil =>
      rw [hnil]
      simpa using Ne.symm hkey
    · simp

/-- Of every file uploaded: if its key can be read, the key is read back from the URL, and deleting by the URL
deletes the object that was put. If not both the key and the place of the bucket are odd, this happens to no other
keys. -/
theorem uploaded_deleted (platform : Platform) (options : S3StorageOptions) (toLowerCase : Text → Text)
    (randomUUID : Text) (file : UploadInput) :
    let storage := new options
    let put := (storage.upload toLowerCase randomUUID file).1
    let result := (storage.upload toLowerCase randomUUID file).2
    let restored := storage.keyFromUrl platform (storage.buildPublicUrl put.key) = some put.key ∧
      storage.deleteByUrl platform result.url = some { bucket := put.bucket, key := put.key }
    (Readable platform storage put.key → restored) ∧
      (Regular platform storage put.key → restored → Readable platform storage put.key) := by
  have hkey := upload_key_ne_nil (new options) toLowerCase randomUUID file
  refine ⟨fun h => ?_, fun hregular h => readable_of_keyFromUrl hkey hregular h.1⟩
  have hread := keyFromUrl_of_readable hkey h
  exact ⟨hread, (deleteByUrl_eq_some hkey).mpr hread⟩

/-- A bucket of AWS, without public URL and endpoint. -/
def mediaBucket : S3StorageOptions where
  region := "eu-west-1".toList
  bucket := "media".toList
  endpoint := none
  publicUrl := none
  forcePathStyle := false
  keyPrefix := none

/-- A platform for which every authority is valid. -/
def lenient : Platform where
  acceptsAuthority _ _ := true
  otherPathname _ := none

def fileNamed (name : String) : UploadInput where
  buffer := []
  originalName := name.toList
  mimeType := "text/plain".toList
  size := 0
  userName := some "Ann@example.org".toList
  purpose := none

theorem baseIs_mediaBucket : BaseIs lenient (new mediaBucket) [] :=
  ⟨by decide +kernel, decodedPath_of_pathname (by decide +kernel) List.not_mem_nil⟩

/-- The object of a text file in the bucket of AWS is found again. -/
theorem uploaded_deleted_text :
    let upload := (new mediaBucket).upload Js.toLower "6ba7b810".toList (fileNamed "Main.c")
    upload.1.key = "relay/ann/files/6ba7b810.c".toList ∧
      (new mediaBucket).deleteByUrl lenient upload.2.url =
        some { bucket := upload.1.bucket, key := upload.1.key } := by
  have hpublic : truthy (new mediaBucket).publicUrl = none := by decide +kernel
  have hkey : ((new mediaBucket).upload Js.toLower "6ba7b810".toList (fileNamed "Main.c")).1.key =
    "relay/ann/files/6ba7b810.c".toList := by decide +kernel
  have hplain : IsPlain "relay/ann/files/6ba7b810.c".toList := by decide +kernel
  have hread : Readable lenient (new mediaBucket)
      ((new mediaBucket).upload Js.toLower "6ba7b810".toList (fileNamed "Main.c")).1.key := by
    rw [readable_of_none hpublic, hkey]
    exact ⟨hplain, .inr ⟨baseIs_mediaBucket, by decide +kernel⟩⟩
  exact ⟨hkey, ((uploaded_deleted lenient mediaBucket Js.toLower "6ba7b810".toList (fileNamed "Main.c")).1 hread).2⟩

/-- A `#` at the end of the file name: the key of another object is read from the URL. -/
theorem uploaded_deleted_fails :
    let storage := new mediaBucket
    let upload := storage.upload Js.toLower "6ba7b810".toList (fileNamed "Main.c#")
    upload.1.key = "relay/ann/files/6ba7b810.c#".toList ∧
      storage.keyFromUrl lenient (storage.buildPublicUrl upload.1.key) = some "relay/ann/files/6ba7b810.c".toList ∧
      storage.deleteByUrl lenient upload.2.url ≠ some { bucket := upload.1.bucket, key := upload.1.key } := by
  have hpublic : truthy (new mediaBucket).publicUrl = none := by decide +kernel
  have hkey : ((new mediaBucket).upload Js.toLower "6ba7b810".toList (fileNamed "Main.c#")).1.key =
    "relay/ann/files/6ba7b810.c#".toList := by decide +kernel
  have hpath : pathname lenient ((new mediaBucket).buildPublicUrl "relay/ann/files/6ba7b810.c#".toList) =
    some ('/' :: "relay/ann/files/6ba7b810.c".toList) := by decide +kernel
  have hread : (new mediaBucket).keyFromUrl lenient ((new mediaBucket).buildPublicUrl
      ((new mediaBucket).upload Js.toLower "6ba7b810".toList (fileNamed "Main.c#")).1.key) =
        some "relay/ann/files/6ba7b810.c".toList := by
    rw [keyFromUrl_of_none hpublic, hkey, keyFromPath_eq_some (by decide +kernel)]
    exact .inr ⟨decodedPath_of_pathname hpath (by decide +kernel), by decide +kernel⟩
  intro storage upload
  refine ⟨hkey, hread, fun h => ?_⟩
  have hsame := hread.symm.trans ((deleteByUrl_eq_some (upload_key_ne_nil _ _ _ _)).mp h)
  rw [hkey] at hsame
  revert hsame
  decide +kernel

end Relay.Gateway.Storage.S3Storage
