import Nmsg.Msgmod.Pres

/-!
# Socket specifications

A string says on which sockets to listen: an address, a slash, and one port or the first and the
last of a range, with two dots between them. The C library parses the address and scans the ports.
-/

namespace Nmsg

/-- `INET6_ADDRSTRLEN` -/
def inet6Addrstrlen : Nat := 46

inductive AddressFamily where
  | inet
  | inet6
deriving DecidableEq

/-- What `nmsg_sock_parse_sockspec` has set of `af`, `addr`, `port_start` and `port_end`. -/
structure SockspecOut where
  af : Option AddressFamily
  addr : Option Bytes
  portStart : Option UInt32
  portEnd : Option UInt32
deriving DecidableEq

/-! ### Scanning -/

/-- `isdigit` -/
def isDigit (c : UInt8) : Bool := 48 ≤ c && c ≤ 57

/-- What the conversion `%d` reads: white space, a sign, and digits. Nothing when there is no digit;
else the number and the text behind it. -/
def scanDecimal (text : Bytes) : Option (Int × Bytes) :=
  let text := text.dropWhile Text.isSpace
  let (negative, text) :=
    match text with
    | [] => (false, [])
    | c :: rest => if c = 45 then (true, rest) else if c = 43 then (false, rest) else (false, text)
  match text.takeWhile isDigit with
  | [] => none
  | digits =>
      (Text.digits 10 digits).map fun n : Nat =>
        (if negative then -(n : Int) else (n : Int), text.dropWhile isDigit)

/-- An `int` that is stored where an `unsigned` is. A number that is no `int` is not converted. -/
def storeInt (n : Int) : Except Abort UInt32 :=
  if -(2 ^ 31) ≤ n ∧ n < 2 ^ 31 then .ok (.ofNat (n % 2 ^ 32).toNat) else .error .signedOverflow

/-- `sscanf` with the format `%d..%d`: what it stores for each conversion. -/
def scanPorts (text : Bytes) : Except Abort (Option UInt32 × Option UInt32) :=
  match scanDecimal text with
  | none => .ok (none, none)
  | some (first, rest) =>
      match storeInt first with
      | .error e => .error e
      | .ok first =>
          match rest with
          | 46 :: 46 :: rest =>
              match scanDecimal rest with
              | none => .ok (some first, none)
              | some (last, _) =>
                  match storeInt last with
                  | .error e => .error e
                  | .ok last => .ok (some first, some last)
          | _ => .ok (some first, none)

/-- The address as IPv6 if it is one, else as IPv4; what is neither leaves both results alone. -/
def parseAddress (libc : Libc) (addr : Bytes) : Option AddressFamily × Option Bytes :=
  if (libc.inetPton6 addr).isSome then (some .inet6, some addr)
  else if (libc.inetPton4 addr).isSome then (some .inet, some addr)
  else (none, none)

/-- `nmsg_sock_parse_sockspec` of a string, the octets in front of its NUL; allocations succeed. -/
def sockParseSockspec (libc : Libc) (sockspec : Bytes) : Except Abort (Res × SockspecOut) :=
  match sockspec.dropWhile (· != 47) with
  | [] => .ok (.failure, ⟨none, none, none, none⟩)
  | _ :: t =>
      let sockAddr := sockspec.takeWhile (· != 47)
      -- the copy and its NUL have to fit in `sock_addr`
      if inet6Addrstrlen ≤ sockAddr.length then .error .outOfBounds
      else
        let (af, addr) := parseAddress libc sockAddr
        match scanPorts t with
        | .error e => .error e
        | .ok (none, _) => .ok (.failure, ⟨af, addr, none, none⟩)
        | .ok (some first, none) => .ok (.success, ⟨af, addr, some first, some first⟩)
        | .ok (some first, some last) => .ok (.success, ⟨af, addr, some first, some last⟩)

/-! ### What a specification says -/

/-- A decimal port. -/
def IsPort (text : Bytes) (port : UInt32) : Prop :=
  text ≠ [] ∧ (∀ c ∈ text, isDigit c = true) ∧ Text.digits 10 text = some port.toNat ∧
    port.toNat ≤ 65535

/-- One port, or two with two dots between them. -/
def IsPortRange (text : Bytes) (first last : UInt32) : Prop :=
  (IsPort text first ∧ last = first) ∨
    ∃ front back, text = front ++ 46 :: 46 :: back ∧ IsPort front first ∧ IsPort back last

/-- An address of this family. No text is one of both. -/
def IsAddress (libc : Libc) (af : AddressFamily) (addr : Bytes) : Prop :=
  match af with
  | .inet6 => (libc.inetPton6 addr).isSome = true
  | .inet => (libc.inetPton4 addr).isSome = true ∧ (libc.inetPton6 addr).isSome = false

/-- The string is an address, a slash, and ports; an address has no slash. -/
def DenotesSockets (libc : Libc) (sockspec : Bytes) (out : SockspecOut) : Prop :=
  ∃ af addr ports first last, sockspec = addr ++ 47 :: ports ∧ (47 : UInt8) ∉ addr ∧
    IsAddress libc af addr ∧ IsPortRange ports first last ∧
    out = ⟨some af, some addr, some first, some last⟩

/-- The string is parsed without leaving the buffer. It is accepted if and only if it denotes
sockets, and then all results are what it denotes. -/
def ParsedExactly (libc : Libc) (sockspec : Bytes) : Prop :=
  ∃ res out, sockParseSockspec libc sockspec = .ok (res, out) ∧
    (res = .success ↔ ∃ out', DenotesSockets libc sockspec out') ∧
    ∀ out', DenotesSockets libc sockspec out' → out = out'

end Nmsg
