import CameraChannel.Decimal.Digits

/-!
Addresses to listen on, written as a host and a port with a colon between them.
-/
namespace CameraChannel

inductive AddressError where
  | noPort
  | badPort
  deriving DecidableEq, Repr

def AddressError.message : AddressError → String
  | .noPort => "invalid socket address"
  | .badPort => "invalid port value"

structure Address where
  host : String
  port : UInt16
  deriving DecidableEq, Repr

namespace Address

/-- The port stands behind the last colon. -/
def read (s : String) : Except AddressError Address :=
  let port := (s.toList.reverse.takeWhile (· != ':')).reverse
  match s.toList.reverse.dropWhile (· != ':') with
  | [] => .error .noPort
  | _ :: host =>
    match Digits.readUnsigned? port with
    | some n =>
      if n < 0x10000 then .ok ⟨String.ofList host.reverse, UInt16.ofNat n⟩ else .error .badPort
    | none => .error .badPort

end Address

end CameraChannel
