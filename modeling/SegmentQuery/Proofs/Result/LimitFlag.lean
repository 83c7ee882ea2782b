import SegmentQuery.Proofs.Result.Metadata
import SegmentQuery.Proofs.Result.Tables
/-!
# The group limit flag travels with a result

A result records in its statistics whether a group was dropped. The flag
becomes a text in the metadata of the result's table and is read back
from there; the statistics of several tables have it when one of them
has.
-/


namespace SegmentQuery

namespace DataTable

/-- A table reads the flag that it was given. -/
theorem groupsLimitReached_withStats (t : DataTable) (s : ExecutionStats) :
    (t.withStats s).stats.groupsLimitReached = s.groupsLimitReached := by
  -- the flag is written after all counters
  have hget : (t.withStats s).metadata.get? "numGroupsLimitReached" =
      some (toString (if s.groupsLimitReached then 1 else 0)) := Metadata.get?_set _ _ _
  show (((t.withStats s).metadata.counter "numGroupsLimitReached") != 0) = _
  rw [Metadata.counter, hget]
  cases s.groupsLimitReached <;> decide

/-- **A result's table has the result's flag.** -/
theorem groupsLimitReached_ofPartial {r : PartialResult} {t : DataTable}
    (h : ofPartial r = .ok t) : t.stats.groupsLimitReached = r.stats.groupsLimitReached := by
  obtain ⟨plain, -, rfl⟩ := Except.map_eq_ok.1 h
  exact groupsLimitReached_withStats plain r.stats

end DataTable

namespace ExecutionStats

/-- **Statistics of tables have the flag when one of the tables has.** -/
theorem groupsLimitReached_foldl (tables : List DataTable) (s : ExecutionStats) :
    (tables.foldl (fun stats t => stats.merge t.stats) s).groupsLimitReached =
      (s.groupsLimitReached || tables.any (·.stats.groupsLimitReached)) := by
  induction tables generalizing s with
  | nil => exact (Bool.or_false _).symm
  | cons t tables ih =>
    rw [List.foldl_cons, ih, List.any_cons, ← Bool.or_assoc]
    rfl

end ExecutionStats

end SegmentQuery
