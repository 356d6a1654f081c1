/-!
# Errors and pages

The payload of an `RpcException`, with the constructors the services use, and the pagination
helpers of the shared library.
-/

namespace Relay

structure RpcError where
  statusCode : Nat
  message : String
  error : String
deriving DecidableEq

namespace RpcErrors

def badRequest (message : String) : RpcError := ⟨400, message, "Bad Request"⟩

def unauthorized (message : String) : RpcError := ⟨401, message, "Unauthorized"⟩

def forbidden (message : String) : RpcError := ⟨403, message, "Forbidden"⟩

def conflict (message : String) : RpcError := ⟨409, message, "Conflict"⟩

def notFound (resource : String) : RpcError := ⟨404, resource ++ " not found", "Not Found"⟩

end RpcErrors

/-- Page and limit of a listing; the gateway admits positive values only. -/
structure Page where
  page : Nat
  limit : Nat
  page_pos : 0 < page
  limit_pos : 0 < limit
deriving DecidableEq

structure PaginatedMeta where
  page : Nat
  limit : Nat
  total : Nat
  totalPages : Nat
  hasNextPage : Bool
  hasPreviousPage : Bool
deriving DecidableEq

structure PaginatedResult (α : Type) where
  items : List α
  info : PaginatedMeta
deriving DecidableEq

/-- The pages of one size, counted from 0. -/
def Page.nth {limit : Nat} (hlimit : 0 < limit) (k : Nat) : Page := ⟨k + 1, limit, Nat.succ_pos k, hlimit⟩

def Page.skip (p : Page) : Nat := (p.page - 1) * p.limit

def Page.take (p : Page) : Nat := p.limit

def buildPaginatedResult {α : Type} (items : List α) (total : Nat) (p : Page) :
    PaginatedResult α :=
  let totalPages := (total + p.limit - 1) / p.limit
  { items
    info :=
      { page := p.page
        limit := p.limit
        total
        totalPages
        hasNextPage := p.page < totalPages
        hasPreviousPage := 1 < p.page } }

end Relay
