import Relay.Users.Store

/-!
# The user service

The requests of `UsersService`. `toLowerCase` is the conversion of JavaScript.
-/

namespace Relay.Users

open Relay.Lib

structure UserProfileView where
  id : Nat
  userId : UserId
  email : Text
  firstName : Text
  lastName : Text
  phone : Option Text
  bio : Option Text
  avatar : Option Text
  dateOfBirth : Option Text
  showLastSeen : Bool
  createdAt : Time
  updatedAt : Time
deriving DecidableEq

def toView (profile : UserProfile) : UserProfileView where
  id := profile.id
  userId := profile.userId
  email := profile.email
  firstName := profile.firstName
  lastName := profile.lastName
  phone := profile.phone
  bio := profile.bio
  avatar := profile.avatar
  dateOfBirth := profile.dateOfBirth
  showLastSeen := profile.showLastSeen
  createdAt := jsDate profile.createdAt
  updatedAt := jsDate profile.updatedAt

/-! ## Payloads -/

structure CreateProfilePayload where
  userId : UserId
  email : Text
  firstName : Text
  lastName : Text
deriving DecidableEq

structure UpdateProfilePayload where
  userId : UserId
  firstName : Option Text
  lastName : Option Text
  phone : Option Text
  bio : Option Text
  avatar : Option Text
  dateOfBirth : Option Text
  showLastSeen : Option Bool
deriving DecidableEq

structure FindUsersPayload where
  page : Page
  search : Option Text
  sortBy : Text
  order : SortOrder
deriving DecidableEq

/-! ## Requests -/

/-- `ALLOWED_SORT.has(sortBy) ? sortBy : 'createdAt'`. -/
def sortField (sortBy : Text) : SortField :=
  if sortBy = "updatedAt".toList then .updatedAt
  else if sortBy = "firstName".toList then .firstName
  else if sortBy = "lastName".toList then .lastName
  else if sortBy = "email".toList then .email
  else .createdAt

/-- The text of the request between two `%`, as it is. -/
def searchPattern (search : Text) : Text := '%' :: search ++ ['%']

/-- The `where` of `findAll`; an empty search is none. -/
def searchFilters (search : Option Text) : Option (List NameFilter) :=
  (search.filter fun search => search ≠ []).map fun search =>
    [.firstName (searchPattern search), .lastName (searchPattern search), .email (searchPattern search)]

def createProfile (toLowerCase : Text → Text) (payload : CreateProfilePayload) : M UserProfileView := do
  match ← perform (.findProfile payload.userId) with
  | some existing => return toView existing
  | none =>
    let profile : ProfileDraft :=
      { userId := payload.userId
        email := Js.trim (toLowerCase payload.email)
        firstName := Js.trim payload.firstName
        lastName := Js.trim payload.lastName }
    match ← (perform (.insertProfile profile)).attempt with
    | .ok saved => return toView saved
    | .error (.queryFailed constraint) =>
      match ← perform (.findProfile payload.userId) with
      | some existingAfterConflict => return toView existingAfterConflict
      | none => .fail (.queryFailed constraint)
    | .error error => .fail error

def findAll (query : FindUsersPayload) : M (PaginatedResult UserProfileView) := do
  let (items, total) ← perform
    (.findAndCount (searchFilters query.search) (sortField query.sortBy) query.order query.page.skip query.page.take)
  return buildPaginatedResult (items.map toView) total query.page

def findOne (id : Nat) : M UserProfileView := do
  match ← perform (.findById id) with
  | none => .fail (.rpc (RpcErrors.notFound "User"))
  | some profile => return toView profile

def findByUserId (userId : UserId) : M UserProfileView := do
  match ← perform (.findProfile userId) with
  | none => .fail (.rpc (RpcErrors.notFound "User profile"))
  | some profile => return toView profile

/-- The loaded profile with the fields of the request. -/
def UpdateProfilePayload.applyTo (payload : UpdateProfilePayload) (profile : UserProfile) : UserProfile :=
  { profile with
    firstName := (payload.firstName.map Js.trim).getD profile.firstName
    lastName := (payload.lastName.map Js.trim).getD profile.lastName
    phone := payload.phone.or profile.phone
    bio := payload.bio.or profile.bio
    avatar := match payload.avatar with
      | none => profile.avatar
      | some avatar => (some (Js.trim avatar)).filter fun avatar => avatar ≠ []
    dateOfBirth := payload.dateOfBirth.or profile.dateOfBirth
    showLastSeen := payload.showLastSeen.getD profile.showLastSeen }

def update (payload : UpdateProfilePayload) : M UserProfileView := do
  match ← perform (.findProfile payload.userId) with
  | none => .fail (.rpc (RpcErrors.notFound "User profile"))
  | some profile =>
    let saved ← perform (.saveProfile (payload.applyTo profile))
    return toView saved

/-- Returns that the profile is deleted. -/
def remove (userId : UserId) : M Bool := do
  match ← perform (.findProfile userId) with
  | none => .fail (.rpc (RpcErrors.notFound "User profile"))
  | some profile =>
    perform (.softRemove profile)
    return true

end Relay.Users
