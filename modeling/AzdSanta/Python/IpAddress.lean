import AzdSanta.Python.Json

/-! The addresses and networks of Python's `ipaddress`. An address is kept as its groups,
octets or hextets with the most significant first; `none` is a `ValueError`. -/
namespace Python

/-- `n` groups of `w` bits. -/
structure Groups (n w : ℕ) where
  groups : List ℕ
  length_eq : groups.length = n
  lt : ∀ g ∈ groups, g < 2 ^ w
  deriving DecidableEq

/-- The groups of a parsed address; they always fit. -/
def Groups.ofList? (n w : ℕ) (groups : List ℕ) : Option (Groups n w) :=
  if h : groups.length = n ∧ ∀ g ∈ groups, g < 2 ^ w then some ⟨groups, h.1, h.2⟩ else none

/-- `ip & netmask`, group by group. -/
def maskGroups (w bits : ℕ) (groups : List ℕ) : List ℕ :=
  groups.mapIdx fun i g =>
    let host := w - min w (bits - w * i)
    g / 2 ^ host * 2 ^ host

theorem maskGroups_lt {w bits : ℕ} {groups : List ℕ} (h : ∀ g ∈ groups, g < 2 ^ w) :
    ∀ g ∈ maskGroups w bits groups, g < 2 ^ w := by
  intro g hg
  obtain ⟨i, hi, rfl⟩ := List.mem_mapIdx.mp hg
  exact (Nat.div_mul_le_self _ _).trans_lt (h _ (List.getElem_mem hi))

def Groups.mask {n w : ℕ} (bits : ℕ) (ip : Groups n w) : Groups n w where
  groups := maskGroups w bits ip.groups
  length_eq := by rw [maskGroups, List.length_mapIdx, ip.length_eq]
  lt := maskGroups_lt ip.lt

inductive Address where
  | v4 (ip : Groups 4 8)
  | v6 (ip : Groups 8 16) (scope : Option Text)
  deriving DecidableEq

inductive Network where
  | v4 (ip : Groups 4 8) (bits : ℕ)
  | v6 (ip : Groups 8 16) (scope : Option Text) (bits : ℕ)
  deriving DecidableEq

/-- `'%x' % n`. -/
def hexText (n : ℕ) : Text :=
  if n = 0 then [48] else (Nat.digits 16 n).reverse.map hexDigit

/-- `int(digits, 16)` of hexadecimal digits. -/
def readHex (digits : Text) : Option ℕ :=
  if digits = [] then none
  else digits.foldlM (fun value c => (hexValue c).map (16 * value + ·)) 0

/-- `_parse_octet`. -/
def parseOctet (octet : Text) : Option ℕ :=
  if octet = [] ∨ !octet.all isDigit ∨ octet.length > 3 ∨ (octet ≠ [48] ∧ octet.head? = some 48) ∨
      readDecimal octet > 255 then none
  else some (readDecimal octet)

/-- `IPv4Address(s)`. -/
def ipv4Address (s : Text) : Option (Groups 4 8) := do
  if 47 ∈ s then none
  else
  let octets := s.splitOn 46
  if octets.length ≠ 4 then none
  else
  let values ← octets.mapM parseOctet
  Groups.ofList? 4 8 values

/-- `_parse_hextet`. -/
def parseHextet (hextet : Text) : Option ℕ := if hextet.length > 4 then none else readHex hextet

/-- An IPv4-style suffix as two hextets. -/
def dottedSuffix (parts : List Text) : Option (List Text) :=
  if 46 ∈ parts.getLastD [] then
    match (ipv4Address (parts.getLastD [])).map Groups.groups with
    | some [a, b, c, d] => some (parts.dropLast ++ [hexText (a * 256 + b), hexText (c * 256 + d)])
    | _ => none
  else some parts

/-- The parts before and behind the one `::`; the endpoints may be empty next to it only. -/
def splitSkip (parts : List Text) : Option (List Text × List Text) :=
  let interior := (parts.drop 1).dropLast
  match interior.count [] with
  | 0 =>
    if parts.length ≠ 8 ∨ parts.headD [] = [] ∨ parts.getLastD [] = [] then none else some (parts, [])
  | 1 =>
    let skipIndex := 1 + interior.idxOf []
    let behind := parts.drop (skipIndex + 1)
    if (parts.headD [] = [] ∧ skipIndex ≠ 1) ∨ (parts.getLastD [] = [] ∧ behind.length ≠ 1) then none
    else
      let high := if parts.headD [] = [] then [] else parts.take skipIndex
      let low := if parts.getLastD [] = [] then [] else behind
      if high.length + low.length > 7 then none else some (high, low)
  | _ => none

/-- `IPv6Address._ip_int_from_string`. -/
def ipv6Groups (s : Text) : Option (Groups 8 16) := do
  let parts := s.splitOn 58
  if parts.length < 3 then none
  else
  let parts ← dottedSuffix parts
  if parts.length > 9 then none
  else
  let (high, low) ← splitSkip parts
  let high ← high.mapM parseHextet
  let low ← low.mapM parseHextet
  Groups.ofList? 8 16 (high ++ List.replicate (8 - (high.length + low.length)) 0 ++ low)

/-- `_split_scope_id`. -/
def splitScope (s : Text) : Option (Text × Option Text) :=
  if 37 ∈ s then
    let scope := (s.dropWhile (· ≠ 37)).drop 1
    if scope = [] ∨ 37 ∈ scope then none else some (s.takeWhile (· ≠ 37), some scope)
  else some (s, none)

/-- `IPv6Address(s)`. -/
def ipv6Address (s : Text) : Option (Groups 8 16 × Option Text) := do
  if 47 ∈ s then none
  else
  let (ip, scope) ← splitScope s
  return (← ipv6Groups ip, scope)

/-- `ip_address(s)`. -/
def ipAddress (s : Text) : Option Address :=
  match ipv4Address s with
  | some ip => some (.v4 ip)
  | none => (ipv6Address s).map fun a => .v6 a.1 a.2

/-- The loop of `_compress_hextets`: the best run of zeros and the run at hand. -/
structure ZeroRuns where
  bestStart : ℕ
  bestLen : ℕ
  start : ℕ
  len : ℕ

def ZeroRuns.step (r : ZeroRuns) (hextet : Text) (index : ℕ) : ZeroRuns :=
  if hextet = [48] then
    let start := if r.len = 0 then index else r.start
    let len := r.len + 1
    if len > r.bestLen then ⟨start, len, start, len⟩ else { r with start := start, len := len }
  else { r with start := index + 1, len := 0 }

def zeroRuns (hextets : List Text) : ZeroRuns :=
  hextets.zipIdx.foldl (fun r p => r.step p.1 p.2) ⟨0, 0, 0, 0⟩

/-- `_compress_hextets`. -/
def compressHextets (hextets : List Text) : List Text :=
  let best := zeroRuns hextets
  let stop := best.bestStart + best.bestLen
  if best.bestLen > 1 then
    let low := if stop = hextets.length then hextets ++ [[]] else hextets
    let compressed := low.take best.bestStart ++ [] :: low.drop stop
    if best.bestStart = 0 then [] :: compressed else compressed
  else hextets

/-- `_string_from_ip_int` of an IPv6 address. -/
def ipv6Text (ip : Groups 8 16) : Text := [58].intercalate (compressHextets (ip.groups.map hexText))

def ipv4Text (ip : Groups 4 8) : Text := [46].intercalate (ip.groups.map decimal)

/-- `str(address)`. -/
def Address.text : Address → Text
  | .v4 ip => ipv4Text ip
  | .v6 ip none => ipv6Text ip
  | .v6 ip (some scope) => ipv6Text ip ++ 37 :: scope

/-- `_prefix_from_prefix_string`; `int` reads at most 4300 digits. -/
def prefixBits (most : ℕ) (s : Text) : Option ℕ :=
  if s ≠ [] ∧ s.all isDigit ∧ s.length ≤ 4300 ∧ readDecimal s ≤ most then some (readDecimal s) else none

/-- `_prefix_from_ip_string`: a netmask, or else a hostmask. -/
def netmaskBits (s : Text) : Option ℕ := do
  let ip ← ipv4Address s
  let mask (bits : ℕ) : List ℕ := maskGroups 8 bits [255, 255, 255, 255]
  match (List.range 33).find? fun bits => ip.groups = mask bits with
  | some bits => some bits
  | none => (List.range 33).find? fun bits => ip.groups.map (255 - ·) = mask bits

/-- `IPv4Network(s, strict)`. -/
def ipv4Network (strict : Bool) (s : Text) : Option Network := do
  let (address, bits) ← match s.splitOn 47 with
    | [address] => some (address, some 32)
    | [address, mask] => some (address, (prefixBits 32 mask).or (netmaskBits mask))
    | _ => none
  let ip ← ipv4Address address
  let bits ← bits
  if ip.mask bits ≠ ip ∧ strict then none else return .v4 (ip.mask bits) bits

/-- `IPv6Network(s, strict)`. The scope is kept by an address without host bits and lost with
the host bits otherwise. -/
def ipv6Network (strict : Bool) (s : Text) : Option Network := do
  let (address, bits) ← match s.splitOn 47 with
    | [address] => some (address, some 128)
    | [address, mask] => some (address, prefixBits 128 mask)
    | _ => none
  let (ip, scope) ← ipv6Address address
  let bits ← bits
  if ip.mask bits ≠ ip then if strict then none else return .v6 (ip.mask bits) none bits
  else return .v6 ip scope bits

/-- `ip_network(s, strict)`. -/
def ipNetwork (strict : Bool) (s : Text) : Option Network :=
  match ipv4Network strict s with
  | some network => some network
  | none => ipv6Network strict s

/-- `str(network)`. -/
def Network.text : Network → Text
  | .v4 ip bits => ipv4Text ip ++ 47 :: decimal bits
  | .v6 ip scope bits => (Address.v6 ip scope).text ++ 47 :: decimal bits

/-- `address in network`. -/
def Network.contains : Network → Address → Bool
  | .v4 network bits, .v4 ip => ip.mask bits = network
  | .v6 network _ bits, .v6 ip _ => ip.mask bits = network
  | _, _ => false

end Python
