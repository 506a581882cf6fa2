import Omoikane.Base.Text

/-!
# IP address literals

The parser of `std::net::IpAddr`.  It reads a dotted IPv4 address, or else an
IPv6 address with at most one `::` and perhaps a trailing IPv4 part, and
accepts when the whole input was read.

Every reader takes the remaining input and returns what it read with the rest.
A reader that fails consumes nothing, so alternatives restart at the same
place.
-/

namespace Base

/-- An IP address: four octets, or eight 16-bit groups. -/
inductive IpAddr where
  | v4 (a b c d : Nat)
  | v6 (segments : List Nat)
deriving DecidableEq, Repr

namespace IpAddr

/-- `is_loopback`: `127.0.0.0/8` and `::1`. -/
def isLoopback : IpAddr → Bool
  | .v4 a _ _ _ => a == 127
  | .v6 segments => segments == [0, 0, 0, 0, 0, 0, 0, 1]

/-- A digit of the given base. -/
def isDigitIn (radix : Nat) (c : Char) : Bool :=
  if radix = 16 then Text.isHexDigit c else c.isDigit

/-- `read_number` with a digit limit.  The value must not exceed `max`. -/
def readNumber (radix maxDigits : Nat) (allowZeroPrefix : Bool) (max : Nat) (input : Text) :
    Option (Nat × Text) :=
  let digits := input.takeWhile (isDigitIn radix)
  if digits.length > maxDigits then none
  else if digits = [] then none
  else if !allowZeroPrefix && digits.head? == some '0' && digits.length > 1 then none
  else if Text.ofDigits radix digits > max then none
  else some (Text.ofDigits radix digits, input.dropWhile (isDigitIn radix))

/-- `read_separator`: every item but the first is preceded by the separator. -/
def readSeparator {α : Type} (separator : Char) (index : Nat)
    (inner : Text → Option (α × Text)) (input : Text) : Option (α × Text) :=
  if index = 0 then inner input
  else match input with
    | c :: rest => if c = separator then inner rest else none
    | [] => none

/-- `read_ipv4_addr`. -/
def readIpv4Addr (input : Text) : Option ((Nat × Nat × Nat × Nat) × Text) := do
  let octet (i : Nat) := readSeparator '.' i (readNumber 10 3 false 255)
  let (a, input) ← octet 0 input
  let (b, input) ← octet 1 input
  let (c, input) ← octet 2 input
  let (d, input) ← octet 3 input
  return ((a, b, c, d), input)

/-- `read_groups`: up to `limit` groups, the last two perhaps an IPv4 address.
Returns the groups, whether they end in an IPv4 address, and the rest. -/
def readGroups (limit : Nat) : Nat → List Nat → Text → List Nat × Bool × Text
  | 0, groups, input => (groups, false, input)
  | remaining + 1, groups, input =>
    let i := groups.length
    match if i < limit - 1 then readSeparator ':' i readIpv4Addr input else none with
    | some ((a, b, c, d), input) => (groups ++ [a * 256 + b, c * 256 + d], true, input)
    | none =>
      match readSeparator ':' i (readNumber 16 4 true 65535) input with
      | some (group, input) => readGroups limit remaining (groups ++ [group]) input
      | none => (groups, false, input)

/-- `read_ipv6_addr`. -/
def readIpv6Addr (input : Text) : Option (List Nat × Text) :=
  let (head, headIpv4, input) := readGroups 8 8 [] input
  if head.length = 8 then some (head, input)
  else if headIpv4 then none
  else match input with
    | ':' :: ':' :: input =>
      let limit := 8 - (head.length + 1)
      let (tail, _, input) := readGroups limit limit [] input
      some (head ++ List.replicate (8 - head.length - tail.length) 0 ++ tail, input)
    | _ => none

/-- `read_ip_addr`. -/
def readIpAddr (input : Text) : Option (IpAddr × Text) :=
  match readIpv4Addr input with
  | some ((a, b, c, d), input) => some (.v4 a b c d, input)
  | none => (readIpv6Addr input).map fun p => (.v6 p.1, p.2)

/-- `parse::<IpAddr>`: the whole text is one address. -/
def parse (s : Text) : Option IpAddr :=
  match readIpAddr s with
  | some (address, []) => some address
  | _ => none

example : parse "10.0.0.1".toList = some (.v4 10 0 0 1) := by decide
example : parse "::1".toList = some (.v6 [0, 0, 0, 0, 0, 0, 0, 1]) := by decide
example : parse "1::127.0.0.1".toList = some (.v6 [1, 0, 0, 0, 0, 0, 32512, 1]) := by decide
example : parse "example.com".toList = none := by decide
example : parse "010.0.0.1".toList = none := by decide

end IpAddr

end Base
