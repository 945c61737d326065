/-!
# Times

Times are counted in whole seconds since the beginning of 1970 and read from a clock that the
caller supplies: every operation that stamps something takes the time as an argument.
-/

namespace Fleet

/-- A time in seconds. -/
abbrev Time := UInt64

/-- The seconds from one time to a later one, and none if it is not later. -/
def Time.since (now stamp : Time) : UInt64 := if stamp ≤ now then now - stamp else 0

end Fleet
