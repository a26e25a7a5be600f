import BoostBase.Text.CString

namespace BoostBase

open Text

/-- What `localtime` says of a moment; `%S` may be a leap second. -/
structure LocalTime where
  hour : Fin 24
  min : Fin 60
  sec : Fin 61
  msec : Fin 1000
  deriving DecidableEq

def bytes (s : String) : List Byte := s.toList.map fun c => UInt8.ofNat c.toNat

namespace TimeUtils

def digit (n : Nat) : Byte := UInt8.ofNat (48 + n % 10)

/-- `setw` with `setfill('0')` of a number that is not wider. -/
def padded : Nat → Nat → List Byte
  | 0, _ => []
  | width + 1, n => padded width (n / 10) ++ [digit n]

def putTime (t : LocalTime) : List Byte :=
  padded 2 t.hour ++ bytes ":" ++ padded 2 t.min ++ bytes ":" ++ padded 2 t.sec

def nowTimeOnly (t : LocalTime) (withMsec : Bool) : List Byte :=
  if withMsec then putTime t ++ bytes "." ++ padded 3 t.msec else putTime t

end TimeUtils

/-- `newMsg` of `ALogger::log`, what `logImpl` is handed. -/
def ALogger.newMsg (now : LocalTime) (msg : List Byte) : List Byte :=
  bytes "[" ++ TimeUtils.nowTimeOnly now true ++ bytes "] " ++ msg

end BoostBase
