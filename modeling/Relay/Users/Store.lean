import Relay.Chat.Db

/-!
# The database of the user service

The table of the profiles with the repository calls of the user service. A query leaves out soft-deleted
rows, and a unique index allows a user one row that is not deleted. How the database puts rows in order by
a column is left open (`arrange`).
-/

namespace Relay.Users

open Relay.Lib

structure UserProfile where
  id : Nat
  userId : UserId
  email : Text
  firstName : Text
  lastName : Text
  phone : Option Text
  bio : Option Text
  avatar : Option Text
  dateOfBirth : Option Text
  showLastSeen : Bool
  createdAt : Time
  updatedAt : Time
  deletedAt : Option Time
deriving DecidableEq

structure Db where
  profiles : List UserProfile
  nextId : Nat
  now : Time
deriving DecidableEq

def Db.empty (now : Time) : Db := ⟨[], 0, now⟩

inductive Failure where
  | rpc (e : RpcError)
  /-- A `QueryFailedError`. -/
  | queryFailed (constraint : String)
deriving DecidableEq

/-- What an insert sets; the other columns get their defaults. -/
structure ProfileDraft where
  userId : UserId
  email : Text
  firstName : Text
  lastName : Text
deriving DecidableEq

def ProfileDraft.toRow (d : ProfileDraft) (id : Nat) (now : Time) : UserProfile where
  id := id
  userId := d.userId.canon
  email := d.email
  firstName := d.firstName
  lastName := d.lastName
  phone := none
  bio := none
  avatar := none
  dateOfBirth := none
  showLastSeen := true
  createdAt := now
  updatedAt := now
  deletedAt := none

/-! ## Queries -/

/-- The columns of `ALLOWED_SORT`. -/
inductive SortField where
  | createdAt | updatedAt | firstName | lastName | email
deriving DecidableEq, Repr

inductive SortOrder where
  | ASC | DESC
deriving DecidableEq, Repr

/-- A condition `column ILIKE pattern`. -/
inductive NameFilter where
  | firstName (pattern : Text)
  | lastName (pattern : Text)
  | email (pattern : Text)
deriving DecidableEq

def NameFilter.matches (row : UserProfile) : NameFilter → Bool
  | .firstName pattern => Chat.ilike row.firstName pattern
  | .lastName pattern => Chat.ilike row.lastName pattern
  | .email pattern => Chat.ilike row.email pattern

/-- The rows of the user that are not deleted; the index allows one. -/
def Db.active (db : Db) (userId : UserId) : List UserProfile :=
  db.profiles.filter fun row => row.userId = userId.canon ∧ row.deletedAt = none

/-- The rows that satisfy one of the conditions, all of them without conditions. -/
def Db.matching (db : Db) (filters : Option (List NameFilter)) : List UserProfile :=
  db.profiles.filter fun row =>
    row.deletedAt = none ∧ (filters.all fun filters => filters.any (NameFilter.matches row)) = true

/-- `UQ_user_profiles_userId_active`, for a stored row about to be written again. -/
def Db.taken (db : Db) (row : UserProfile) : Bool :=
  row.deletedAt = none && db.profiles.any fun other =>
    other.id ≠ row.id && other.userId = row.userId && other.deletedAt = none

/-- The row after a save of the loaded entity. A save that changes nothing writes nothing. -/
def UserProfile.saved (row new : UserProfile) (now : Time) : UserProfile :=
  if { new with updatedAt := row.updatedAt } = row then row else { new with updatedAt := now }

/-! ## Calls -/

inductive Call where
  | findProfile (userId : UserId)
  | findById (id : Nat)
  | findAndCount (filters : Option (List NameFilter)) (sortBy : SortField) (order : SortOrder) (skip take : Nat)
  | insertProfile (d : ProfileDraft)
  | saveProfile (row : UserProfile)
  | softRemove (row : UserProfile)
deriving DecidableEq

@[reducible] def Call.Answer : Call → Type
  | .findProfile _ => Option UserProfile
  | .findById _ => Option UserProfile
  | .findAndCount _ _ _ _ _ => List UserProfile × Nat
  | .insertProfile _ => UserProfile
  | .saveProfile _ => UserProfile
  | .softRemove _ => Unit

abbrev M (α : Type) := Prog Call Call.Answer Failure α

abbrev perform (c : Call) : M c.Answer := Prog.perform c

/-- How the rows are put in order by a column. -/
abbrev Arrangement := SortField → SortOrder → List UserProfile → List UserProfile

/-- Answer or violated constraint, with the database afterwards. -/
def exec (arrange : Arrangement) : (c : Call) → Db → Except Failure c.Answer × Db
  | .findProfile userId, db => (.ok (db.active userId).head?, db)
  | .findById id, db => (.ok (db.profiles.find? fun row => row.id = id ∧ row.deletedAt = none), db)
  | .findAndCount filters sortBy order skip take, db =>
    (.ok (((arrange sortBy order (db.matching filters)).drop skip).take take, (db.matching filters).length), db)
  | .insertProfile d, db =>
    if db.active d.userId ≠ [] then (.error (.queryFailed "UQ_user_profiles_userId_active"), db)
    else
      (.ok { d.toRow db.nextId db.now with userId := d.userId },
        { db with profiles := db.profiles ++ [d.toRow db.nextId db.now], nextId := db.nextId + 1 })
  | .saveProfile row, db =>
    if db.taken row then (.error (.queryFailed "UQ_user_profiles_userId_active"), db)
    else
      (.ok (((db.profiles.find? fun other => other.id = row.id).map fun other => other.saved row db.now).getD row),
        { db with
          profiles := db.profiles.map fun other => if other.id = row.id then other.saved row db.now else other })
  | .softRemove row, db =>
    (.ok (), { db with
      profiles := db.profiles.map fun other =>
        if other.id = row.id then { other with deletedAt := some db.now, updatedAt := db.now } else other })

/-- Time passes, in microseconds. -/
def Db.wait (db : Db) (d : Nat) : Db := { db with now := db.now + d }

end Relay.Users
