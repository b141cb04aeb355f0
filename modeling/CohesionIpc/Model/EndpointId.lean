import CohesionIpc.Foundation.Buffer
import CohesionIpc.Foundation.Text
import CohesionIpc.Model.ByteRepresentation

/-! Endpoint ids: how they are printed, `select`, `host_port`, and the texts of GUIDs. A
string is the list of its characters. -/

namespace CohesionIpc

/-- The C string that `c_str` gives a function. -/
def cStr (s : List Char) : List Char := s.takeWhile (· ≠ '\x00')

/-- What `snprintf` leaves of a text in a buffer of `size` characters. -/
def truncate (size : ℕ) (text : List Char) : List Char := text.take (size - 1)

/-- `%d` of a value that is not negative. -/
def decimal (n : ℕ) : List Char := Nat.toDigits 10 n

/-! ## Selecting a constructor -/

structure Constructor (φ : Type*) where
  protocol : List Char
  constructorMethod : φ

inductive EndpointError
  | invalidArgument (what : List Char)
  | protocolNotSupported (message : List Char)
deriving DecidableEq, Repr

def select {φ : Type*} (constructors : List (Constructor φ)) (typedEndpointId : List Char) :
    Except EndpointError (φ × List Char) :=
  match Text.cut? '|' typedEndpointId with
  | none => .error (.invalidArgument typedEndpointId)
  | some (protocol, endpointId) =>
      match constructors.find? fun c => c.protocol = protocol with
      | some c => .ok (c.constructorMethod, endpointId)
      | none => .error (.protocolNotSupported (cStr typedEndpointId))

/-! ## Hosts and ports -/

/-- `c_localhost`. -/
def cLocalhost : List Char := "127.0.0.1".toList

structure HostPort where
  host : List Char
  port : UInt16
deriving DecidableEq, Repr

def isSpace (c : Char) : Bool := c = ' ' ∨ ('\t' ≤ c ∧ c ≤ '\r')

/-- Whether there is a minus sign in front, and what follows the sign. -/
def takeSign : List Char → Bool × List Char
  | [] => (false, [])
  | c :: rest =>
      if c = '-' then (true, rest) else if c = '+' then (false, rest) else (false, c :: rest)

def withSign (negative : Bool) (n : ℕ) : ℤ := if negative then -n else n

/-- `atoi`. What it makes of a number that an `int` does not hold is up to the library. -/
def atoi (overflow : List Char → ℤ) (s : List Char) : ℤ :=
  let (negative, digits) := takeSign (s.dropWhile isSpace)
  let n := withSign negative (Nat.ofDigitChars 10 (digits.takeWhile Char.isDigit) 0)
  if -2 ^ 31 ≤ n ∧ n < 2 ^ 31 then n else overflow s

/-- `host_port::host_port`. -/
def hostPort (overflow : List Char → ℤ) (address defaultHost : List Char) : HostPort :=
  match Text.cut? ':' address with
  | some (host, port) => ⟨host, UInt16.ofInt (atoi overflow port)⟩
  | none => ⟨defaultHost, UInt16.ofInt (atoi overflow address)⟩

/-- `ip_v4::components`. -/
abbrev IpV4 := Fin 4 → UInt8

/-- The host in the id of an endpoint. -/
def dotted (host : IpV4) : List Char :=
  decimal (host 0).toNat ++ '.' :: (decimal (host 1).toNat ++ '.' ::
    (decimal (host 2).toNat ++ '.' :: decimal (host 3).toNat))

def socketsEndpointId (host : IpV4) (port : UInt16) : List Char :=
  truncate 32 ("sockets|".toList ++ (dotted host ++ ':' :: decimal port.toNat))

/-! ## Endpoints -/

inductive Platform
  | unix
  | windows
deriving DecidableEq, Repr

/-- What the constructor of an endpoint is called with. -/
inductive Endpoint
  | com (endpointId : List Char)
  | sockets (hp : HostPort)
deriving DecidableEq, Repr

/-- `c_constructors`, the same for servers and clients. -/
def constructors (platform : Platform) (overflow : List Char → ℤ) :
    List (Constructor (List Char → Endpoint)) :=
  let sockets := ⟨"sockets".toList, fun id => .sockets (hostPort overflow id cLocalhost)⟩
  match platform with
  | .unix => [sockets]
  | .windows => [⟨"com".toList, .com⟩, sockets]

/-- What both functions do with an id up to the constructor of the endpoint. -/
def construct (platform : Platform) (overflow : List Char → ℤ) (typedEndpointId : List Char) :
    Except EndpointError Endpoint :=
  (select (constructors platform overflow) typedEndpointId).map fun (ctor, endpointId) =>
    ctor (cStr endpointId)

def runServer (platform : Platform) (overflow : List Char → ℤ) (typedEndpointId : List Char) :
    Except EndpointError Endpoint :=
  construct platform overflow typedEndpointId

def connectClient (platform : Platform) (overflow : List Char → ℤ)
    (typedDestinationEndpointId : List Char) : Except EndpointError Endpoint :=
  construct platform overflow typedDestinationEndpointId

/-! ## GUIDs -/

/-- `guid_t::values`. -/
structure Guid where
  values : List UInt8
  length_values : values.length = 16
deriving DecidableEq

/-- The conversions in the two formats: a hexadecimal field of `width` digits for `size`
bytes of the GUID, or a character that stands for itself. -/
inductive Conversion
  | hex (width size : ℕ)
  | literal (c : Char)
deriving DecidableEq, Repr

/-- An unsigned integer as it is laid out by the host. -/
def load (host : ByteOrder) (data : List UInt8) : ℕ :=
  match host with
  | .littleEndian => Bytes.toNat data
  | .bigEndian => Bytes.toNat data.reverse

def store (host : ByteOrder) (size n : ℕ) : List UInt8 :=
  match host with
  | .littleEndian => Bytes.ofNat size n
  | .bigEndian => (Bytes.ofNat size n).reverse

/-- `printf`, taking the arguments one after another from the bytes. -/
def printConversions (host : ByteOrder) : List Conversion → List UInt8 → List Char
  | [], _ => []
  | .hex width size :: format, data =>
      (Nat.toDigits 16 (load host (data.take size))).leftpad width '0' ++
        printConversions host format (data.drop size)
  | .literal c :: format, data => c :: printConversions host format data

/-- `0x` in front of a number of at most `width` characters. -/
def takePrefix (width : ℕ) : List Char → ℕ × List Char
  | '0' :: x :: rest =>
      if (x = 'x' ∨ x = 'X') ∧ 2 ≤ width then (width - 2, rest) else (width, '0' :: x :: rest)
  | s => (width, s)

/-- The number that a conversion `%X` finds in front, of at most `width` characters with its
sign and prefix. -/
def scanHex (width : ℕ) (s : List Char) : Option (ℤ × List Char) :=
  let s := s.dropWhile isSpace
  let (negative, unsigned) := takeSign s
  let (width, s) := takePrefix (width - (s.length - unsigned.length)) unsigned
  let digits := (s.take width).takeWhile fun c => Text.IsHex c
  if digits = [] then none
  else some (withSign negative (Text.hexValue digits), s.drop digits.length)

/-- The bytes that `sscanf` stores one after another, until a conversion fails. -/
def scanConversions (host : ByteOrder) : List Conversion → List Char → List UInt8
  | [], _ => []
  | .hex width size :: format, s =>
      match scanHex width s with
      | some (n, rest) =>
          store host size (n % 256 ^ size).toNat ++ scanConversions host format rest
      | none => []
  | .literal c :: format, s =>
      match s with
      | [] => []
      | c' :: rest => if c' = c then scanConversions host format rest else []

/-- `"%08x-%04x-%04x-%02x%02x-%02x%02x%02x%02x%02x%02x"`. -/
def printFormat : List Conversion :=
  [.hex 8 4, .literal '-', .hex 4 2, .literal '-', .hex 4 2, .literal '-', .hex 2 1, .hex 2 1,
    .literal '-', .hex 2 1, .hex 2 1, .hex 2 1, .hex 2 1, .hex 2 1, .hex 2 1]

/-- `"%08X-%04hX-%04hX-%02hhX%02hhX-%02hhX%02hhX%02hhX%02hhX%02hhX%02hhX"`. -/
def scanFormat : List Conversion :=
  [.hex 8 4, .literal '-', .hex 4 2, .literal '-', .hex 4 2, .literal '-', .hex 2 1, .hex 2 1,
    .literal '-', .hex 2 1, .hex 2 1, .hex 2 1, .hex 2 1, .hex 2 1, .hex 2 1]

namespace Guid

/-- `to_string`. -/
def toString (host : ByteOrder) (id : Guid) : List Char :=
  truncate 64 (printConversions host printFormat id.values)

/-- Whatever has been scanned, there are sixteen bytes. -/
theorem length_take_overwrite (memory : Guid) (data : List UInt8) :
    ((Buffer.overwrite memory.values data).take 16).length = 16 := by
  rw [List.length_take, Buffer.overwrite, List.length_append, List.length_drop,
    memory.length_values]
  omega

/-- `guid_from_string`; `memory` is what the variable holds before anything is stored. -/
def fromString (host : ByteOrder) (memory : Guid) (str : List Char) : Guid where
  values := (Buffer.overwrite memory.values (scanConversions host scanFormat str)).take 16
  length_values := length_take_overwrite memory _

end Guid

def comEndpointId (host : ByteOrder) (id : Guid) : List Char :=
  "com|".toList ++ id.toString host

end CohesionIpc
