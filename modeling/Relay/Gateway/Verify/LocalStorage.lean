import Relay.Gateway.LocalStorage

/-!
# Deletions stay inside the directory

A client chooses the URL of an attachment. Whatever it is, the path that `LocalStorage.deleteByUrl` unlinks is the
directory of the storage or lies below it (`unlinked_within`).
-/

namespace Relay.Gateway.Storage.LocalStorage

open Relay.Lib Posix

variable {storage : LocalStorage} {url path key : Text}

/-- A segment of a text without two dots in a row is not `..`. -/
theorem segments_ne_dots (h : ¬ ['.', '.'] <:+: key) : ∀ s ∈ segments key, s ≠ ['.', '.'] := by
  intro s hs heq
  rw [heq] at hs
  exact h (infix_of_mem_segments hs)

/-- The paths that are unlinked. -/
theorem deleteByUrl_eq_some (h : storage.deleteByUrl url = some path) :
    keyOf url ≠ [] ∧ ¬ ['.', '.'] <:+: keyOf url ∧ path = join storage.root.text (keyOf url) := by
  unfold deleteByUrl at h
  split at h
  · cases h
  · split at h
    · cases h
    · next hkey =>
      rw [not_or] at hkey
      exact ⟨hkey.1, hkey.2, (Option.some.inj h).symm⟩

/-- Whatever the URL, an unlinked path is the root of the storage or lies strictly below it. -/
theorem unlinked_within (cwd : AbsolutePath) (rootDir : Option Text) (url path : Text)
    (h : (new cwd rootDir).deleteByUrl url = some path) : (new cwd rootDir).root.Within path := by
  obtain ⟨hkey, hdots, rfl⟩ := deleteByUrl_eq_some h
  exact AbsolutePath.within_join hkey (segments_ne_dots hdots)

/-- `.` and empty segments lead to the directory and to a file in it. -/
theorem unlinked_within_dot :
    (new ⟨["srv".toList], by decide⟩ none).root.Within "/srv/uploads/a".toList :=
  unlinked_within ⟨["srv".toList], by decide⟩ none "/uploads//./a?x=1".toList _ (by decide)

end Relay.Gateway.Storage.LocalStorage
