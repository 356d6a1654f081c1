import Relay.Gateway.AdminController

/-!
# The exported audit log

Every export is a well-formed table: reading it gives the header and one record per event, whatever the texts of
the events are. Of a database it has the latest events, newest first.
-/

namespace Relay.Gateway.AdminController

open Relay.Lib Csv

/-- The names of the fields. -/
def auditColumns : List Text :=
  ["id", "actorId", "action", "targetType", "targetId", "createdAt"].map String.toList

theorem auditRow_eq (item : AuditEventView) : auditRow item = [','].intercalate ((auditFields item).map quote) := rfl

theorem spellsRecord_auditRow (item : AuditEventView) : SpellsRecord (auditRow item) (auditFields item) := by
  rw [auditRow_eq]
  refine spellsRecord_of_fields ?_ (List.cons_ne_nil _ _)
  rw [List.forall₂_map_left_iff, List.forall₂_same]
  exact fun value _ => spells_quote value

theorem auditHeader_eq : auditHeader = [','].intercalate auditColumns ++ ['\n'] := by decide

theorem spellsRecord_auditHeader : SpellsRecord ([','].intercalate auditColumns) auditColumns := by
  have hplain : ∀ column ∈ auditColumns, column ≠ [] ∧ column.all isPlain = true := by decide
  refine spellsRecord_of_fields ?_ (List.cons_ne_nil _ _)
  rw [List.forall₂_same]
  intro column hcolumn
  obtain ⟨hne, hall⟩ := hplain column hcolumn
  exact spells_plain hne (List.all_eq_true.mp hall)

/-- The table has the latest events of the log, newest first, and the log stays as it is. -/
theorem run_auditExport (spelling : Spelling) (db : Chat.Db) :
    Prog.run Chat.exec (auditExport spelling) db =
      (.ok (auditCsv (((Chat.orderDesc Chat.AuditEvent.createdAt db.auditEvents).take 500).map
        (spelling.view ∘ Chat.toAuditView))), db) := by
  have hskip : exportPage.skip = 0 := rfl
  have htake : exportPage.take = 500 := rfl
  have hlist : Prog.run Chat.exec (Chat.listAuditEvents exportPage) db =
      (.ok (buildPaginatedResult (((Chat.orderDesc Chat.AuditEvent.createdAt db.auditEvents).take 500).map
        Chat.toAuditView) db.auditEvents.length exportPage), db) := by
    rw [← htake, ← List.drop_zero (l := Chat.orderDesc Chat.AuditEvent.createdAt db.auditEvents), ← hskip]
    rfl
  unfold auditExport
  rw [Prog.run_bind_ok Chat.exec hlist, ← List.map_map]
  rfl

/-- Whatever the texts of the events: the header and one record for each event, in order, are read. -/
theorem read_auditCsv (items : List AuditEventView) :
    read (auditCsv items) = some (auditColumns :: items.map auditFields) := by
  unfold auditCsv
  rw [auditHeader_eq, List.append_assoc, List.singleton_append]
  refine read_table spellsRecord_auditHeader ?_
  rw [List.forall₂_map_left_iff, List.forall₂_map_right_iff, List.forall₂_same]
  exact fun item _ => spellsRecord_auditRow item

end Relay.Gateway.AdminController
