import JetCore.Lib.JsonSchema
import JetCore.Ref.CdcWatcher

/-!
# `_iso`, the text of the time in a payload

Every encoder that tells a time takes it in UTC and writes it the way the
envelope does, with a `Z`.
-/

namespace JetCore

open Lib

/-- What `datetime` accepts. -/
structure Timestamp.Valid (t : Timestamp) : Prop where
  year : 1 ≤ t.year ∧ t.year ≤ 9999
  month : 1 ≤ t.month ∧ t.month ≤ 12
  day : 1 ≤ t.day ∧ t.day ≤ Rfc3339.daysIn t.year t.month
  hour : t.hour ≤ 23
  minute : t.minute ≤ 59
  second : t.second ≤ 59
  microsecond : t.microsecond < 1000000

/-- A `datetime` in UTC. -/
structure UtcTime where
  time : Timestamp
  valid : time.Valid

/-- `isoformat().replace("+00:00", "Z")`, where the offset is the only one
there is to replace. -/
def UtcTime.iso (t : UtcTime) : String := t.time.isoformat ++ "Z"

end JetCore
