import Outbound.Netproxy

/-! The target of a connection, as every protocol of the repository carries it. -/
namespace Outbound.Protocol

open Lib

inductive MetadataType where
  | ipv4
  | ipv6
  | domain
  | msg
  | invalid
deriving DecidableEq

/-- `hostname` is the text of the host, `ip` its address where it is one. -/
structure Metadata where
  type : MetadataType
  hostname : Bytes
  port : UInt16
  ip : Addr
  cmd : UInt8
  isClient : Bool
deriving DecidableEq

/-- The text forms of addresses in the standard library: `net.SplitHostPort`, `netip.ParseAddr` with
the zone apart, and `net.IP.String`, which prints an IPv4 address in its IPv6 form as IPv4. -/
structure NetText where
  splitHostPort : Bytes → Except Error (Bytes × Bytes)
  parseAddr : Bytes → Option (Addr × Bytes)
  ipString : Bytes → Bytes
  parseAddr_ne_zero : ∀ s zone, parseAddr s ≠ some (.zero, zone)
  parseAddr_ipString_v4 : ∀ ip : Octets 4, parseAddr (ipString ip.1) = some (.v4 ip, [])
  parseAddr_ipString_v6 : ∀ ip : Octets 16, parseAddr (ipString ip.1) = some ((Addr.v6 ip).unmap, [])

def v4InV6Prefix : Bytes := [0, 0, 0, 0, 0, 0, 0, 0, 0, 0, 255, 255]

def as16 : Addr → Bytes
  | .zero => List.replicate 16 0
  | .v4 ip => v4InV6Prefix ++ ip.1
  | .v6 ip => ip.1

variable (s : Bytes) (t : NetText)

/-- `net.ParseIP`: the 16-byte form of an address without a zone. -/
def NetText.parseIP (s : Bytes) : Option Bytes :=
  match t.parseAddr s with
  | some (a, zone) => if zone = [] then some (as16 a) else none
  | none => none

def to4 (ip : Bytes) : Option Bytes := if ip.take 12 = v4InV6Prefix then some (ip.drop 12) else none

def parsePort : Except Error UInt16 :=
  if s = [] ∨ s.any (fun c => c < 48 || c > 57) then .error (.errorf "invalid syntax")
  else
    let value := s.foldl (fun n c => n * 10 + (c.toNat - 48)) 0
    if value ≥ 65536 then .error (.errorf "value out of range") else .ok (.ofNat value)

/-- The type of a host: a text that is no address is a domain name. -/
def NetText.hostType (host : Bytes) : MetadataType :=
  match t.parseAddr host with
  | none => .domain
  | some (.v4 _, _) => .ipv4
  | some _ => .ipv6

def NetText.parseMetadata (tgt : Bytes) : Except Error Metadata :=
  match t.splitHostPort tgt with
  | .error err => .error (.wrap "SplitHostPort" err)
  | .ok (host, strPort) =>
    match parsePort strPort with
    | .error err => .error (.wrap "failed to parse port" err)
    | .ok port =>
      .ok ⟨t.hostType host, host, port, ((t.parseAddr host).map Prod.fst).getD .zero, 0, false⟩

def Metadata.addrPort (m : Metadata) : Except Error AddrPort :=
  match m.type with
  | .ipv4 | .ipv6 =>
    if m.ip ≠ .zero then .ok ⟨m.ip, m.port⟩
    else
      match t.parseAddr m.hostname with
      | some (ip, _) => .ok ⟨ip, m.port⟩
      | none => .error (.errorf "unable to parse IP")
  | .domain => .error (.errorf "bad metadata type: 2; should be ip")
  | .msg => .error (.errorf "bad metadata type: 3; should be ip")
  | .invalid => .error (.errorf "bad metadata type: 4; should be ip")

/-- What the cache and the resolver answer for a domain name at the time of a call. -/
abbrev Lookup := Bytes → Except Error Addr

def text (b : Bytes) : String := String.ofList (b.map fun c => Char.ofNat c.toNat)

def Metadata.domainIpMapping (lookup : Lookup) (m : Metadata) : Except Error AddrPort :=
  if m.type ≠ .domain then
    match m.addrPort t with
    | .error err => .error (.wrap "ReadFrom AddrPort" err)
    | .ok a => .ok a
  else
    match lookup m.hostname with
    | .error err =>
      .error (.wrap s!"datapath domain resolution failed: {text m.hostname}" err)
    | .ok a => .ok ⟨a, m.port⟩

def ascii (text : String) : Bytes := text.toList.map fun c => UInt8.ofNat c.toNat

/-! ## The text forms without abbreviation -/

def octetText (b : UInt8) : Bytes := (Nat.toDigits 10 b.toNat).map fun c => .ofNat c.toNat

def hexText (b : UInt8) : Bytes :=
  [b / 16, b % 16].map fun d => if d < 10 then 48 + d else 87 + d

/-- The byte that a part of an address spells. -/
def byteOf (spell : UInt8 → Bytes) (base : ℕ) (part : Bytes) : Option UInt8 :=
  let n := part.foldl (fun n c => n * base + (c.toNat - if c < 58 then 48 else 87)) 0
  if spell (.ofNat n) = part then some (.ofNat n) else none

def v4Text (ip : Bytes) : Bytes := [46].intercalate (ip.map octetText)

/-- The groups of an IPv6 address, each behind a colon. -/
def v6Groups : Bytes → Bytes
  | a :: b :: ip => 58 :: (hexText a ++ hexText b ++ v6Groups ip)
  | _ => []

def readGroups : Bytes → Option Bytes
  | [] => some []
  | 58 :: w :: x :: y :: z :: rest => do
    let a ← byteOf hexText 16 [w, x]
    let b ← byteOf hexText 16 [y, z]
    let ip ← readGroups rest
    return a :: b :: ip
  | _ => none

def toOctets (n : ℕ) (bytes : Bytes) : Option (Octets n) :=
  if h : bytes.length = n then some ⟨bytes, h⟩ else none

/-- Four decimal octets, or eight groups of four digits and what stands behind a percent sign. -/
def readAddr : Option (Addr × Bytes) :=
  if s.length = 39 ∨ 40 < s.length ∧ s.getD 39 0 = 37 then
    (readGroups (58 :: s.take 39)).bind fun b => (toOctets 16 b).map fun ip => (.v6 ip, s.drop 40)
  else
    ((s.splitOn 46).mapM (byteOf octetText 10)).bind fun b =>
      (toOctets 4 b).map fun ip => (.v4 ip, [])

theorem toOctets_self {n : ℕ} (ip : Octets n) : toOctets n ip.1 = some ip := dif_pos ip.2

section Spelling

variable (b : UInt8) {ip : Bytes} {k : ℕ}

theorem byteOf_octetText : byteOf octetText 10 (octetText b) = some b := by
  have h : ∀ n < 256, byteOf octetText 10 (octetText (.ofNat n)) = some (.ofNat n) := by
    decide +kernel
  simpa using h b.toNat b.toNat_lt

theorem byteOf_hexText : byteOf hexText 16 (hexText b) = some b := by
  have h : ∀ n < 256, byteOf hexText 16 (hexText (.ofNat n)) = some (.ofNat n) := by
    decide +kernel
  simpa using h b.toNat b.toNat_lt

theorem octetText_spec : 46 ∉ octetText b ∧ (octetText b).length ≤ 3 := by
  have h : ∀ n < 256, 46 ∉ octetText (.ofNat n) ∧ (octetText (.ofNat n)).length ≤ 3 := by
    decide +kernel
  simpa using h b.toNat b.toNat_lt

theorem mapM_octetText (ip : Bytes) : (ip.map octetText).mapM (byteOf octetText 10) = some ip := by
  induction ip with
  | nil => rfl
  | cons b ip ih => rw [List.map_cons, List.mapM_cons, byteOf_octetText, ih]; rfl

theorem v6Groups_spec (h : ip.length = 2 * k) :
    (v6Groups ip).length = 5 * k ∧ readGroups (v6Groups ip) = some ip := by
  induction k generalizing ip with
  | zero =>
    rw [List.eq_nil_of_length_eq_zero h]
    exact ⟨rfl, rfl⟩
  | succ k ih =>
    match ip, h with
    | a :: b :: ip, h =>
      have hrest : ip.length = 2 * k := by simpa [Nat.mul_add] using h
      obtain ⟨hlength, hread⟩ := ih hrest
      have ha := byteOf_hexText a
      have hb := byteOf_hexText b
      simp only [hexText, List.map_cons, List.map_nil] at ha hb
      constructor
      · simp [v6Groups, hexText, hlength, Nat.mul_add]
      · simp [v6Groups, readGroups, hexText, ha, hb, hread]

end Spelling

theorem readAddr_v4Text (ip : Octets 4) : readAddr (v4Text ip.1) = some (.v4 ip, []) := by
  have hlength : (v4Text ip.1).length ≤ 15 := by
    obtain ⟨l, hl⟩ := ip
    match l, hl with
    | [a, b, c, d], _ =>
      have ha := (octetText_spec a).2
      have hb := (octetText_spec b).2
      have hc := (octetText_spec c).2
      have hd := (octetText_spec d).2
      simp [v4Text]
      omega
  have hsplit : (v4Text ip.1).splitOn 46 = ip.1.map octetText := by
    apply List.splitOn_intercalate
    · simp [octetText_spec]
    · apply List.ne_nil_of_length_pos
      simp [ip.2]
  rw [readAddr, if_neg (by omega), hsplit, mapM_octetText, Option.bind_some, toOctets_self]
  rfl

theorem readAddr_v6Text (ip : Octets 16) : readAddr (v6Groups ip.1).tail = some (.v6 ip, []) := by
  obtain ⟨hlength, hread⟩ := v6Groups_spec (k := 8) ip.2
  have hcolon : 58 :: (v6Groups ip.1).tail = v6Groups ip.1 := by
    obtain ⟨l, hl⟩ := ip
    match l, hl with
    | a :: b :: l, _ => rfl
  have htail : (v6Groups ip.1).tail.length = 39 := by rw [List.length_tail, hlength]
  rw [readAddr, if_pos (.inl htail), List.take_of_length_le htail.le, hcolon, hread,
    Option.bind_some, toOctets_self, List.drop_eq_nil_of_le (by omega)]
  rfl

/-- `net.SplitHostPort`, `netip.ParseAddr` and `net.IP.String` on texts without abbreviation, as
`9.9.9.9:53`. -/
def sampleText : NetText where
  splitHostPort
    | 91 :: s =>
      match s.dropWhile (· ≠ 93) with
      | 93 :: 58 :: port => .ok (s.takeWhile (· ≠ 93), port)
      | _ => .error (.errorf "missing port in address")
    | s =>
      match s.splitOn 58 with
      | [_] => .error (.errorf "missing port in address")
      | [host, port] => .ok (host, port)
      | _ => .error (.errorf "too many colons in address")
  parseAddr := readAddr
  ipString b :=
    if b.length = 16 ∧ b.take 12 = v4InV6Prefix then v4Text (b.drop 12)
    else if b.length = 4 then v4Text b else (v6Groups b).tail
  parseAddr_ne_zero := by
    intro s zone
    unfold readAddr
    split_ifs <;> simp [Option.bind_eq_some_iff]
  parseAddr_ipString_v4 := by
    intro ip
    rw [if_neg (by simp [ip.2]), if_pos ip.2, readAddr_v4Text]
  parseAddr_ipString_v6 := by
    intro ip
    have hlen := ip.2
    by_cases hmapped : ip.1.take 12 = v4InV6Prefix
    · have hdrop : (ip.1.drop 12).length = 4 := by rw [List.length_drop, hlen]
      have hoctets := Octets.ofBytes_append ⟨ip.1.drop 12, hdrop⟩ []
      rw [List.append_nil] at hoctets
      rw [if_pos ⟨hlen, hmapped⟩, readAddr_v4Text ⟨ip.1.drop 12, hdrop⟩, ← hoctets]
      exact congrArg (fun a => some (a, [])) (if_pos hmapped).symm
    · rw [if_neg (fun h => hmapped h.2), if_neg (by rw [hlen]; decide), readAddr_v6Text]
      exact congrArg (fun a => some (a, [])) (if_neg hmapped).symm

end Outbound.Protocol
