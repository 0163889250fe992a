import Mathlib.Data.Int.Init

/-!
# Instants and durations

A Go `time.Time` in UTC without a monotonic reading is an instant: its nanoseconds since the zero
time (January 1, year 1). `time.Duration` is a number of nanoseconds. Comparisons of instants
(`After`, `Before`, `Equal`, and `==` of two UTC times) are comparisons of these numbers.
-/

namespace Keelith

/-- Nanoseconds since the zero time. -/
abbrev Time := Int

/-- Nanoseconds. -/
abbrev Duration := Int

namespace Time

/-- The zero time. -/
def zero : Time := 0

def isZero (t : Time) : Bool := t == 0

/-- `Time.Truncate`: rounded down to a multiple of `d` since the zero time. -/
def truncate (t : Time) (d : Duration) : Time := t - t % d

end Time

/-- `time.Microsecond`. -/
def microsecond : Duration := 1000

/-- `time.Millisecond`. -/
def millisecond : Duration := 1000000

/-- `time.Second`. -/
def second : Duration := 1000000000

/-- `time.Minute`. -/
def minute : Duration := 60 * second

/-- `time.Hour`. -/
def hour : Duration := 3600 * second

end Keelith
