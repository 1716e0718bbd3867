import FirecrawlLb.Python.Strings

/-!
# Internet addresses

`ipaddress.ip_address` on strings and back, whether a network contains an address, and which
addresses are loopback addresses.  A parser gives none where Python raises `ValueError`.
-/

namespace FirecrawlLb.Python

/-- An address with its value as an integer; the scope identifier comes after a percent sign. -/
inductive IpAddress where
  | v4 (ip : ℕ)
  | v6 (ip : ℕ) (scopeId : Option String)
  deriving DecidableEq

/-- A network, with its address and its mask as integers. -/
inductive IpNetwork where
  | v4 (networkAddress netmask : ℕ)
  | v6 (networkAddress netmask : ℕ)
  deriving DecidableEq

/-- `address in network`; the scope does not count. -/
def IpNetwork.contains : IpNetwork → IpAddress → Bool
  | .v4 networkAddress netmask, .v4 ip => ip &&& netmask = networkAddress
  | .v6 networkAddress netmask, .v6 ip _ => ip &&& netmask = networkAddress
  | _, _ => false

/-- `127.0.0.0/8` -/
def isLoopbackV4 (ip : ℕ) : Bool := ip >>> 24 = 127

/-- `address.is_loopback`; an IPv6 address may hold one of IPv4. -/
def IpAddress.isLoopback : IpAddress → Bool
  | .v4 ip => isLoopbackV4 ip
  | .v6 ip _ => if ip >>> 32 = 0xffff then isLoopbackV4 (ip % 2 ^ 32) else ip = 1

/-! ### Reading an address -/

/-- The value of digits, the most significant first. -/
def ofDigits (base : ℕ) (digits : List ℕ) : ℕ := digits.foldl (fun value d => value * base + d) 0

/-- The value of an ASCII digit of a base up to 16. -/
def digitValue (base : ℕ) (c : Char) : Option ℕ :=
  let d := if '0' ≤ c ∧ c ≤ '9' then some (c.toNat - '0'.toNat)
    else if 'a' ≤ c ∧ c ≤ 'f' then some (c.toNat - 'a'.toNat + 10)
    else if 'A' ≤ c ∧ c ≤ 'F' then some (c.toNat - 'A'.toNat + 10)
    else none
  d.filter (· < base)

/-- `IPv4Address._parse_octet` -/
def parseOctet (s : List Char) : Option ℕ :=
  if s = [] then none
  else
    (s.mapM (digitValue 10)).bind fun digits =>
      if 3 < s.length then none
      else if s ≠ ['0'] ∧ s.head? = some '0' then none
      else if 255 < ofDigits 10 digits then none
      else some (ofDigits 10 digits)

/-- `IPv4Address._ip_int_from_string` -/
def parseIpv4 (s : List Char) : Option ℕ :=
  let octets := s.splitOn '.'
  if octets.length = 4 then (octets.mapM parseOctet).map (ofDigits 256) else none

/-- `IPv6Address._parse_hextet` -/
def parseHextet (s : List Char) : Option ℕ :=
  if s = [] then none
  else
    (s.mapM (digitValue 16)).bind fun digits =>
      if 4 < s.length then none else some (ofDigits 16 digits)

/-- The hextets of the parts, of which those at the end may be written as an IPv4 address. -/
def hextetParts (parts : List (List Char)) : Option (List (List Char ⊕ ℕ)) :=
  match parts.reverse with
  | [] => some []
  | last :: before =>
    if '.' ∈ last then
      (parseIpv4 last).map fun ip =>
        before.reverse.map .inl ++ [.inr (ip / 65536), .inr (ip % 65536)]
    else some (parts.map .inl)

def parsePart : List Char ⊕ ℕ → Option ℕ
  | .inl s => parseHextet s
  | .inr value => some value

/-- An empty part: two colons that stand together, or one at an end. -/
def isEmptyPart (part : List Char ⊕ ℕ) : Bool := part = .inl []

/-- The hextets before a `::`; before the first of them there is no colon. -/
def parseBefore : List (List Char ⊕ ℕ) → Option (List ℕ)
  | [] => some []
  | part :: parts =>
    if isEmptyPart part then (if parts = [] then some [] else none)
    else (part :: parts).mapM parsePart

/-- The hextets after a `::`; after the last of them there is no colon. -/
def parseAfter (parts : List (List Char ⊕ ℕ)) : Option (List ℕ) :=
  (parseBefore parts.reverse).map List.reverse

/-- The place of the one empty part among the inner ones; an error if there are more. -/
def skipIndex (parts : List (List Char ⊕ ℕ)) : Option (Option ℕ) :=
  match (List.range parts.length).filter fun i =>
    0 < i && i + 1 < parts.length && (parts[i]?.map isEmptyPart).getD false with
  | [] => some none
  | [i] => some (some i)
  | _ => none

/-- `IPv6Address._ip_int_from_string`.  The part in the place of a `::` stands for the hextets that
are missing. -/
def parseIpv6 (s : List Char) : Option ℕ :=
  let written := s.splitOn ':'
  if written.length < 3 then none
  else
    (hextetParts written).bind fun parts =>
      if 9 < parts.length then none
      else
        (skipIndex parts).bind fun
          | some skip =>
            (parseBefore (parts.take skip)).bind fun hi =>
              (parseAfter (parts.drop (skip + 1))).bind fun lo =>
                if hi.length + lo.length < 8 then
                  some (ofDigits 65536 (hi ++ List.replicate (8 - (hi.length + lo.length)) 0 ++ lo))
                else none
          | none =>
            if parts.length = 8 then (parts.mapM parsePart).map (ofDigits 65536) else none

/-- `IPv6Address._split_scope_id` -/
def splitScopeId (s : List Char) : Option (List Char × Option String) :=
  match s.splitOn '%' with
  | [addr] => some (addr, none)
  | [addr, scopeId] => if scopeId = [] then none else some (addr, some (String.ofList scopeId))
  | _ => none

/-- `ip_address(s)` -/
def ipAddress (s : String) : Option IpAddress :=
  let cs := s.toList
  if '/' ∈ cs then none
  else
    match parseIpv4 cs with
    | some ip => some (.v4 ip)
    | none =>
      (splitScopeId cs).bind fun (addr, scopeId) => (parseIpv6 addr).map (.v6 · scopeId)

/-! ### Writing an address -/

/-- The lower-case digits of a number. -/
def toDigits (base n : ℕ) : String := String.ofList (Nat.toDigits base n)

/-- `str(IPv4Address(ip))` -/
def writeIpv4 (ip : ℕ) : String :=
  ".".intercalate ([ip >>> 24, ip >>> 16 % 256, ip >>> 8 % 256, ip % 256].map (toDigits 10))

/-- The start and the length of the longest run of zeros, the first one of this length. -/
def longestZeros (hextets : List ℕ) : ℕ × ℕ :=
  let runs := (List.range hextets.length).map fun i =>
    (i, ((hextets.drop i).takeWhile (· = 0)).length)
  runs.foldl (fun best run => if best.2 < run.2 then run else best) (0, 0)

/-- `IPv6Address._string_from_ip_int`: two colons stand for the longest run of zeros. -/
def writeIpv6 (ip : ℕ) : String :=
  let hextets := (List.range 8).reverse.map fun i => ip >>> (16 * i) % 65536
  let (start, length) := longestZeros hextets
  if length ≤ 1 then ":".intercalate (hextets.map (toDigits 16))
  else ":".intercalate ((hextets.take start).map (toDigits 16)) ++ "::" ++
    ":".intercalate ((hextets.drop (start + length)).map (toDigits 16))

/-- `str(address)` -/
def IpAddress.str : IpAddress → String
  | .v4 ip => writeIpv4 ip
  | .v6 ip scopeId =>
    let address :=
      if ip >>> 32 = 0xffff then writeIpv6 (ip >>> 32) ++ ":" ++ writeIpv4 (ip % 2 ^ 32)
      else writeIpv6 ip
    match scopeId with
    | none => address
    | some scopeId => address ++ "%" ++ scopeId

end FirecrawlLb.Python
