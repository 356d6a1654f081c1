import Relay.Chat.Service
import Relay.Lib.Csv

/-!
# The audit log of the administrators

`auditExport` asks the chat service for the latest events and writes them as a table. The gateway sees an event as
the chat service has sent it: all fields are texts.
-/

namespace Relay.Gateway.AdminController

open Relay.Lib

structure AuditEventView where
  id : Text
  actorId : Text
  action : Text
  targetType : Option Text
  targetId : Option Text
  createdAt : Text
deriving DecidableEq

/-- How the chat service spells identifiers and dates. -/
structure Spelling where
  id : Nat → Text
  date : Time → Text

/-- An event as it is sent. -/
def Spelling.view (spelling : Spelling) (item : Chat.AuditEventView) : AuditEventView where
  id := spelling.id item.id
  actorId := item.actorId.text
  action := item.action
  targetType := item.targetType
  targetId := item.targetId
  createdAt := spelling.date item.createdAt

def auditHeader : Text := "id,actorId,action,targetType,targetId,createdAt\n".toList

/-- The values of a row. -/
def auditFields (item : AuditEventView) : List Text :=
  [item.id, item.actorId, item.action, item.targetType.getD [], item.targetId.getD [], item.createdAt]

def auditRow (item : AuditEventView) : Text :=
  [','].intercalate ((auditFields item).map fun value => '"' :: Js.replaceAll '"' ['"', '"'] value ++ ['"'])

def auditCsv (items : List AuditEventView) : Text := auditHeader ++ ['\n'].intercalate (items.map auditRow)

def exportPage : Page := ⟨1, 500, Nat.zero_lt_one, Nat.zero_lt_succ _⟩

def auditExport (spelling : Spelling) : Chat.M Text := do
  let data ← Chat.listAuditEvents exportPage
  return auditCsv (data.items.map spelling.view)

end Relay.Gateway.AdminController
