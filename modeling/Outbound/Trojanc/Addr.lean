import Outbound.Io
import Outbound.Lib.Slice
import Outbound.Protocol

/-! The target in front of a Trojan or Juicity frame: packing it into a buffer and unpacking it from
the stream. -/
namespace Outbound.Trojanc

open Lib Protocol List Option UInt8 NetText

def parseMetadataType (t : UInt8) : MetadataType :=
  if t = 1 then .ipv4
  else if t = 2 then .msg
  else if t = 3 then .domain
  else if t = 4 then .ipv6
  else .invalid

def metadataTypeToByte : MetadataType → UInt8
  | .ipv4 => 1
  | .msg => 2
  | .domain => 3
  | .ipv6 => 4
  | .invalid => 0

def len (m : Metadata) : ℕ :=
  match m.type with
  | .ipv4 => 3 + 4
  | .ipv6 => 3 + 16
  | .domain => 4 + m.hostname.length
  | .msg => 2
  | .invalid => 0

/-- `PackTo`, with the number of bytes it reports. The position of the port behind a domain name is
computed in bytes. -/
def packTo (t : NetText) (m : Metadata) (dst : Bytes) : Option (Bytes × ℕ) := do
  let dst ← putAt dst 0 [metadataTypeToByte m.type]
  match m.type with
  | .ipv4 =>
    let ip ← t.parseIP m.hostname
    let ip ← to4 ip
    let dst ← copyAt dst 1 ip
    let dst ← putAt dst 5 (beBytes 2 m.port.toNat)
    return (dst, 7)
  | .ipv6 =>
    let ip ← t.parseIP m.hostname
    let dst ← copyAt dst 1 ip
    let dst ← putAt dst 17 (beBytes 2 m.port.toNat)
    return (dst, 19)
  | .domain =>
    let dst ← putAt dst 1 [ofNat m.hostname.length]
    let dst ← copyAt dst 2 m.hostname
    let dst ← putAt dst (2 + dst.getD 1 0).toNat (beBytes 2 m.port.toNat)
    return (dst, 4 + (dst.getD 1 0).toNat)
  | .msg =>
    let dst ← putAt dst 1 [m.cmd]
    return (dst, 2)
  | .invalid => return (dst, 0)

/-- The rest of an address of `n` bytes whose first byte is read already, and the port behind it. -/
def unpackAddr (s : Source UInt8) (first : Bytes) (n : ℕ) :
    Except Error (Bytes × UInt16) × Source UInt8 :=
  let b := Io.readFull s (n - first.length + 2)
  match b.err with
  | some err => (.error err, b.stream)
  | none =>
    let buf := first ++ b.data
    (.ok (buf.take n, .ofNat (beNat ((buf.drop n).take 2))), b.stream)

def unpack (t : NetText) (s : Source UInt8) : Except Error Metadata × Source UInt8 :=
  let head := Io.readFull s 2
  match head.err with
  | some err => (.error err, head.stream)
  | none =>
    let type := parseMetadataType (head.data.getD 0 0)
    let second := head.data.getD 1 0
    match type with
    | .ipv4 =>
      match unpackAddr head.stream [second] 4 with
      | (.error err, s) => (.error err, s)
      | (.ok (ip, port), s) => (.ok ⟨type, t.ipString ip, port, .zero, 0, false⟩, s)
    | .ipv6 =>
      match unpackAddr head.stream [second] 16 with
      | (.error err, s) => (.error err, s)
      | (.ok (ip, port), s) => (.ok ⟨type, t.ipString ip, port, .zero, 0, false⟩, s)
    | .domain =>
      match unpackAddr head.stream [] second.toNat with
      | (.error err, s) => (.error err, s)
      | (.ok (hostname, port), s) => (.ok ⟨type, hostname, port, .zero, 0, false⟩, s)
    | .msg => (.ok ⟨type, [], 0, .zero, second, false⟩, head.stream)
    | .invalid => (.error (.errorf "unexpected metadata type: 4"), head.stream)

/-- What unpacking gives back of a target: its type, its host and its port. An IPv4 address in its
IPv6 form comes back as the IPv4 address. -/
structure Recovers (t : NetText) (m m' : Metadata) : Prop where
  type : m'.type = m.type
  port : m'.port = m.port
  hostname : m.type = .domain → m'.hostname = m.hostname
  address : m.type = .ipv4 ∨ m.type = .ipv6 → ∃ a, t.parseAddr m.hostname = some (a, []) ∧
    t.parseAddr m'.hostname = some (a.unmap, [])
  ip : m'.ip = .zero

/-- Whatever the buffer held before, the target packs without a panic into `Len` bytes, and is
recovered from them. -/
def PacksWell (t : NetText) (m : Metadata) : Prop :=
  ∀ dst : Bytes, len m ≤ dst.length → ∃ dst', packTo t m dst = some (dst', len m) ∧
    ∀ (s : Source UInt8) (rest : Bytes), s.rest = dst'.take (len m) ++ rest →
      ∃ m' s', unpack t s = (.ok m', s') ∧ Recovers t m m' ∧ s'.rest = rest

/-- A domain name of at most 253 bytes, or an address without a zone. -/
def Encodable (t : NetText) (m : Metadata) : Prop :=
  match t.parseAddr m.hostname with
  | none => m.hostname.length ≤ 253
  | some (_, zone) => zone = []

def encode (t : NetText) (m : Metadata) : Bytes :=
  match t.parseAddr m.hostname with
  | none => 3 :: ofNat m.hostname.length :: (m.hostname ++ beBytes 2 m.port.toNat)
  | some (.v4 ip, _) => 1 :: (ip.1 ++ beBytes 2 m.port.toNat)
  | some (a, _) => 4 :: (as16 a ++ beBytes 2 m.port.toNat)

theorem length_as16 (a : Addr) : (as16 a).length = 16 := by
  rcases a with _ | ip | ip
  · rfl
  · simp [as16, v4InV6Prefix, ip.2]
  · exact ip.2

variable {t : NetText} {m : Metadata}

theorem length_encode (htype : m.type = t.hostType m.hostname) : (encode t m).length = len m := by
  unfold hostType at htype
  unfold encode len
  rcases hparse : t.parseAddr m.hostname with _ | ⟨_ | ip | ip, zone⟩ <;> rw [hparse] at htype <;>
    simp only [htype]
  · simp only [length_cons, length_append, length_beBytes]
    omega
  · simp [length_as16]
  · simp [ip.2]
  · simp [length_as16]

variable {b : Bytes}

/-- Packing a domain name: the port is put behind the name as long as the position fits a byte. -/
theorem packTo_domain {c : Bytes} (htype : m.type = .domain) (hlen : m.hostname.length ≤ 253)
    (hb : b.length = 4 + m.hostname.length) :
    packTo t m (b ++ c) =
      some (3 :: ofNat m.hostname.length :: (m.hostname ++ (beBytes 2 m.port.toNat ++ c)),
        4 + m.hostname.length) := by
  have hbyte : (ofNat m.hostname.length).toNat = m.hostname.length := by
    exact Nat.mod_eq_of_lt (by omega)
  have hpos : (2 + ofNat m.hostname.length).toNat = 2 + m.hostname.length := by
    rw [UInt8.toNat_add, hbyte]
    exact Nat.mod_eq_of_lt (by change 2 + m.hostname.length < 256; omega)
  obtain ⟨b₀, b₁, b₂, rfl, h₀, h₁⟩ := exists_three_parts b 1 1 (by omega)
  obtain ⟨b₃, b₄, rfl, h₃⟩ : ∃ b₃ b₄, b₂ = b₃ ++ b₄ ∧ b₃.length = m.hostname.length := by
    simp only [length_append] at hb
    exact ⟨b₂.take m.hostname.length, b₂.drop m.hostname.length, (take_append_drop _ _).symm,
      by rw [length_take]; omega⟩
  have h₄ : b₄.length = 2 := by
    simp only [length_append] at hb
    omega
  have hput₀ : putAt (b₀ ++ (b₁ ++ (b₃ ++ b₄)) ++ c) 0 [(3 : UInt8)] =
      some ([3] ++ (b₁ ++ (b₃ ++ (b₄ ++ c)))) := by
    simp only [append_assoc]
    exact putAt_zero _ _ h₀
  have hput₁ : putAt ([3] ++ (b₁ ++ (b₃ ++ (b₄ ++ c)))) 1 [ofNat m.hostname.length] =
      some ([3, ofNat m.hostname.length] ++ (b₃ ++ (b₄ ++ c))) :=
    putAt_append _ _ _ rfl h₁
  have hcopy : copyAt ([3, ofNat m.hostname.length] ++ (b₃ ++ (b₄ ++ c))) 2 m.hostname =
      some ([3, ofNat m.hostname.length] ++ (m.hostname ++ (b₄ ++ c))) :=
    copyAt_append _ _ _ rfl h₃
  have hput₂ : putAt ([3, ofNat m.hostname.length] ++ (m.hostname ++ (b₄ ++ c)))
      (2 + m.hostname.length) (beBytes 2 m.port.toNat) =
      some ([3, ofNat m.hostname.length] ++ (m.hostname ++ (beBytes 2 m.port.toNat ++ c))) := by
    rw [← append_assoc, ← append_assoc [3, ofNat m.hostname.length]]
    apply putAt_append
    · rw [length_append]
      rfl
    · rw [h₄, length_beBytes]
  have hsecond (rest : Bytes) : ([3, ofNat m.hostname.length] ++ rest).getD 1 0 =
      ofNat m.hostname.length := rfl
  unfold packTo
  rw [htype, metadataTypeToByte, hput₀]
  simp only [bind_eq_bind, bind_some, hput₁, hcopy, hsecond, hpos, hput₂, hbyte]
  rfl

variable {n : ℕ}

/-- Packing an address: the type, the bytes of the address and the port go in one after the other. -/
theorem putAt_address (c : Bytes) (type : UInt8) {ip : Bytes}
    (hip : ip.length = n) (port : UInt16) (hb : b.length = 3 + n) :
    ∃ dst₁ dst₂, putAt (b ++ c) 0 [type] = some dst₁ ∧ copyAt dst₁ 1 ip = some dst₂ ∧
      putAt dst₂ (1 + n) (beBytes 2 port.toNat) =
        some (type :: (ip ++ (beBytes 2 port.toNat ++ c))) := by
  obtain ⟨b₀, b₁, b₂, rfl, h₀, h₁⟩ := exists_three_parts b 1 ip.length (by omega)
  have h₂ : b₂.length = 2 := by
    simp only [length_append] at hb
    omega
  refine ⟨[type] ++ (b₁ ++ (b₂ ++ c)), [type] ++ (ip ++ (b₂ ++ c)), ?_,
    copyAt_append _ _ _ rfl h₁, ?_⟩
  · simp only [append_assoc]
    exact putAt_zero _ _ h₀
  · have hoff : ([type] ++ ip).length = 1 + n := by
      rw [length_append, hip]
      rfl
    have h := putAt_append ([type] ++ ip) c (beBytes 2 port.toNat) hoff
      (h₂.trans (length_beBytes 2 _).symm)
    exact h

theorem packTo_ipv4 (c : Bytes) {ip : Octets 4} (htype : m.type = .ipv4)
    (hparse : t.parseAddr m.hostname = some (.v4 ip, [])) (hb : b.length = 7) :
    packTo t m (b ++ c) = some (1 :: (ip.1 ++ (beBytes 2 m.port.toNat ++ c)), 7) := by
  have hip : t.parseIP m.hostname = some (v4InV6Prefix ++ ip.1) := by
    rw [parseIP, hparse]
    rfl
  have hto4 : to4 (v4InV6Prefix ++ ip.1) = some ip.1 := rfl
  obtain ⟨dst₁, dst₂, h₁, h₂, h₃⟩ := putAt_address c 1 ip.2 m.port hb
  unfold packTo
  rw [htype, metadataTypeToByte, h₁]
  simp only [bind_eq_bind, bind_some, hip, hto4, h₂]
  rw [h₃]
  rfl

theorem packTo_ipv6 (c : Bytes) {a : Addr} (htype : m.type = .ipv6)
    (hparse : t.parseAddr m.hostname = some (a, [])) (hb : b.length = 19) :
    packTo t m (b ++ c) = some (4 :: (as16 a ++ (beBytes 2 m.port.toNat ++ c)), 19) := by
  have hip : t.parseIP m.hostname = some (as16 a) := by
    rw [parseIP, hparse]
    rfl
  obtain ⟨dst₁, dst₂, h₁, h₂, h₃⟩ := putAt_address c 4 (length_as16 a) m.port hb
  unfold packTo
  rw [htype, metadataTypeToByte, h₁]
  simp only [bind_eq_bind, bind_some, hip, h₂]
  rw [h₃]
  rfl

/-- A target that can be encoded is packed into the front of the buffer; the rest of the buffer is
left alone. -/
theorem packTo_eq (c : Bytes) (htype : m.type = t.hostType m.hostname)
    (h : Encodable t m) (hb : b.length = len m) :
    packTo t m (b ++ c) = some (encode t m ++ c, len m) := by
  unfold hostType at htype
  unfold Encodable at h
  unfold encode
  rcases hparse : t.parseAddr m.hostname with _ | ⟨_ | ip | ip, zone⟩ <;>
    rw [hparse] at htype h <;> simp only at htype h <;> rw [len, htype] at hb ⊢ <;>
    simp only [cons_append, append_assoc]
  · exact packTo_domain htype h hb
  · exact packTo_ipv6 c htype (by rw [hparse, h]) hb
  · exact packTo_ipv4 c htype (by rw [hparse, h]) hb
  · exact packTo_ipv6 c htype (by rw [hparse, h]) hb

variable {s : Source UInt8} {rest : Bytes}

theorem unpackAddr_eq (first : Bytes) {addr : Bytes} {port : UInt16}
    (haddr : (first ++ addr).length = n) (hs : s.rest = addr ++ (beBytes 2 port.toNat ++ rest)) :
    ∃ s', unpackAddr s first n = (.ok (first ++ addr, port), s') ∧ s'.rest = rest := by
  have hlen : (addr ++ beBytes 2 port.toNat).length = n - first.length + 2 := by
    rw [length_append] at haddr
    rw [length_append, length_beBytes]
    omega
  rw [← append_assoc] at hs
  obtain ⟨s', hread, hrest⟩ := Io.readFull_append hlen hs
  have hport : UInt16.ofNat (beNat (beBytes 2 port.toNat)) = port := by
    rw [beNat_beBytes_of_lt port.toNat_lt, UInt16.ofNat_toNat]
  refine ⟨s', ?_, hrest⟩
  simp only [unpackAddr, hread]
  rw [← append_assoc, take_left' haddr, drop_left' haddr,
    take_of_length_le (by rw [length_beBytes]), hport]

variable {x : UInt8}

theorem readFull_two {y : UInt8} (hs : s.rest = x :: y :: rest) :
    ∃ s', Io.readFull s 2 = ⟨[x, y], none, s'⟩ ∧ s'.rest = rest :=
  Io.readFull_append (a := [x, y]) rfl hs

theorem unpack_ip {ip : Bytes} {type : UInt8} {port : UInt16}
    (htype : type = 1 ∧ n = 4 ∨ type = 4 ∧ n = 16) (hip : ip.length = n)
    (hs : s.rest = type :: (ip ++ (beBytes 2 port.toNat ++ rest))) :
    ∃ s', unpack t s =
        (.ok ⟨parseMetadataType type, t.ipString ip, port, .zero, 0, false⟩, s') ∧ s'.rest = rest := by
  obtain ⟨x, ip, rfl⟩ := exists_cons_of_length_pos (l := ip) (by omega)
  obtain ⟨s₁, hhead, hrest₁⟩ := readFull_two hs
  obtain ⟨s₂, haddr, hrest₂⟩ := unpackAddr_eq [x] hip hrest₁
  refine ⟨s₂, ?_, hrest₂⟩
  rcases htype with ⟨rfl, rfl⟩ | ⟨rfl, rfl⟩
  · simp only [unpack, hhead, getD_cons_zero, getD_cons_succ]
    rw [show parseMetadataType 1 = .ipv4 from rfl]
    simp only [haddr]
    rfl
  · simp only [unpack, hhead, getD_cons_zero, getD_cons_succ]
    rw [show parseMetadataType 4 = .ipv6 from rfl]
    simp only [haddr]
    rfl

theorem unpack_domain (rest : Bytes) {hostname : Bytes} (port : UInt16)
    (hlen : hostname.length ≤ 255)
    (hs : s.rest = 3 :: ofNat hostname.length :: (hostname ++ (beBytes 2 port.toNat ++ rest))) :
    ∃ s', unpack t s = (.ok ⟨.domain, hostname, port, .zero, 0, false⟩, s') ∧ s'.rest = rest := by
  have hbyte : (ofNat hostname.length).toNat = hostname.length := by
    exact Nat.mod_eq_of_lt (by omega)
  obtain ⟨s₁, hhead, hrest₁⟩ := readFull_two hs
  obtain ⟨s₂, haddr, hrest₂⟩ := unpackAddr_eq [] (n := hostname.length) rfl hrest₁
  refine ⟨s₂, ?_, hrest₂⟩
  simp only [unpack, hhead, getD_cons_zero, getD_cons_succ, hbyte]
  rw [show parseMetadataType 3 = .domain from rfl]
  simp only [haddr, nil_append]

section

variable (htype : m.type = t.hostType m.hostname)

include htype

theorem unpack_encode (h : Encodable t m) (hs : s.rest = encode t m ++ rest) :
    ∃ m' s', unpack t s = (.ok m', s') ∧ Recovers t m m' ∧ s'.rest = rest := by
  unfold hostType at htype
  unfold Encodable at h
  unfold encode at hs
  rcases hparse : t.parseAddr m.hostname with _ | ⟨a, zone⟩
  · rw [hparse] at htype h hs
    simp only [cons_append, append_assoc] at htype h hs
    obtain ⟨s', hunpack, hrest⟩ := unpack_domain (t := t) rest m.port (by omega) hs
    refine ⟨_, s', hunpack, ⟨htype.symm, rfl, fun _ => rfl, ?_, rfl⟩, hrest⟩
    intro hip
    simp [htype] at hip
  · rw [hparse] at htype h hs
    simp only at h
    subst h
    rcases a with _ | ip | ip <;> simp only [cons_append, append_assoc] at htype hs
    · exact absurd hparse (t.parseAddr_ne_zero _ _)
    · obtain ⟨s', hunpack, hrest⟩ := unpack_ip (t := t) (.inl ⟨rfl, rfl⟩) ip.2 hs
      refine ⟨_, s', hunpack, ⟨htype.symm, rfl, fun hd => ?_, fun _ => ⟨_, hparse, ?_⟩, rfl⟩, hrest⟩
      · simp [htype] at hd
      · exact t.parseAddr_ipString_v4 ip
    · obtain ⟨s', hunpack, hrest⟩ := unpack_ip (t := t) (.inr ⟨rfl, rfl⟩) ip.2 hs
      refine ⟨_, s', hunpack, ⟨htype.symm, rfl, fun hd => ?_, fun _ => ⟨_, hparse, ?_⟩, rfl⟩, hrest⟩
      · simp [htype] at hd
      · exact t.parseAddr_ipString_v6 ip

theorem packsWell_of_encodable (h : Encodable t m) : PacksWell t m := by
  intro dst hlen
  have hparts : (dst.take (len m)).length = len m := by
    rw [length_take]
    omega
  have hpack := packTo_eq (dst.drop (len m)) htype h hparts
  rw [take_append_drop] at hpack
  refine ⟨_, hpack, fun s rest hs => ?_⟩
  rw [take_left' (length_encode htype)] at hs
  exact unpack_encode htype h hs

/-- An address with a zone is no address for `net.ParseIP`, and taking bytes of it panics. -/
theorem packTo_zone {a : Addr} {zone : Bytes}
    (hparse : t.parseAddr m.hostname = some (a, zone)) (hzone : zone ≠ []) (dst : Bytes) :
    packTo t m dst = none := by
  have hip : t.parseIP m.hostname = none := by
    rw [parseIP, hparse]
    exact if_neg hzone
  unfold hostType at htype
  rw [hparse] at htype
  unfold packTo
  rcases a with _ | ip | ip <;> simp only at htype <;> rw [htype] <;>
    simp [bind_eq_bind, hip]

end

theorem packTo_zeros (htype : m.type = .domain) :
    packTo t m (replicate (4 + m.hostname.length) 0) =
      (putAt (3 :: ofNat m.hostname.length :: (m.hostname ++ [0, 0]))
        (2 + ofNat m.hostname.length).toNat (beBytes 2 m.port.toNat)).bind
        fun dst => some (dst, 4 + (dst.getD 1 0).toNat) := by
  have hzeros : replicate (4 + m.hostname.length) (0 : UInt8) =
      [0] ++ ([0] ++ (replicate m.hostname.length 0 ++ [0, 0])) := by
    rw [show 4 + m.hostname.length = 1 + (1 + (m.hostname.length + 2)) by omega]
    simp only [replicate_add]
    rfl
  have hput₀ : putAt ([0] ++ ([0] ++ (replicate m.hostname.length 0 ++ [0, 0]))) 0
      [(3 : UInt8)] = some ([3] ++ ([0] ++ (replicate m.hostname.length 0 ++ [0, 0]))) :=
    putAt_zero _ _ rfl
  have hput₁ : putAt ([3] ++ ([0] ++ (replicate m.hostname.length 0 ++ [0, 0]))) 1
      [ofNat m.hostname.length] = some ([3] ++ ([ofNat m.hostname.length] ++
        (replicate m.hostname.length 0 ++ [0, 0]))) :=
    putAt_append _ _ _ rfl rfl
  have hcopy : copyAt ([3, ofNat m.hostname.length] ++
      (replicate m.hostname.length 0 ++ [0, 0])) 2 m.hostname =
        some ([3, ofNat m.hostname.length] ++ (m.hostname ++ [0, 0])) :=
    copyAt_append _ _ _ rfl (by simp)
  unfold packTo
  rw [htype, metadataTypeToByte, hzeros, hput₀]
  simp only [bind_eq_bind, bind_some, hput₁]
  rw [show [3] ++ ([ofNat m.hostname.length] ++
      (replicate m.hostname.length 0 ++ [0, 0])) = [3, ofNat m.hostname.length] ++
        (replicate m.hostname.length 0 ++ [0, 0]) from rfl, hcopy]
  rfl

theorem type_unpack {s' : Source UInt8} {y : UInt8} {m' : Metadata}
    (hs : s.rest = x :: y :: rest) (h : unpack t s = (.ok m', s')) :
    m'.type = parseMetadataType x := by
  obtain ⟨s₁, hhead, _⟩ := readFull_two hs
  simp only [unpack, hhead, getD_cons_zero, getD_cons_succ] at h
  cases htype : parseMetadataType x with
  | ipv4 =>
    simp only [htype] at h
    rcases haddr : unpackAddr s₁ [y] 4 with ⟨_ | _, _⟩ <;> simp only [haddr] at h
    · simp at h
    · rw [← Except.ok.inj (Prod.mk.inj h).1]
  | ipv6 =>
    simp only [htype] at h
    rcases haddr : unpackAddr s₁ [y] 16 with ⟨_ | _, _⟩ <;> simp only [haddr] at h
    · simp at h
    · rw [← Except.ok.inj (Prod.mk.inj h).1]
  | domain =>
    simp only [htype] at h
    rcases haddr : unpackAddr s₁ [] y.toNat with ⟨_ | _, _⟩ <;> simp only [haddr] at h
    · simp at h
    · rw [← Except.ok.inj (Prod.mk.inj h).1]
  | msg =>
    simp only [htype] at h
    rw [← Except.ok.inj (Prod.mk.inj h).1]
  | invalid => simp [htype] at h

theorem eq_three_of_domain (h : parseMetadataType x = .domain) : x = 3 := by
  unfold parseMetadataType at h
  split_ifs at h with h₁ h₂ h₃ h₄
  exact h₃

theorem beBytes_two (n : ℕ) : beBytes 2 n = [ofNat (n / 256), ofNat n] := rfl

section

variable (htype : m.type = .domain)

include htype

/-- Where the bytes of a packed name are followed by zeros, a port other than zero is lost. -/
theorem not_packsWell_of_zeros (hostname : Bytes)
    (hhost : hostname.length = m.hostname.length) (hlen : hostname.length ≤ 255)
    (hpack : packTo t m (replicate (4 + m.hostname.length) 0) =
      some (x :: ofNat hostname.length :: (hostname ++ [0, 0]), n))
    (hport : n = 4 + m.hostname.length → m.port ≠ 0) : ¬ PacksWell t m := by
  intro h
  have hlenm : len m = 4 + m.hostname.length := by rw [len, htype]
  obtain ⟨dst', hpack', hunpack⟩ := h (replicate (4 + m.hostname.length) 0)
    (by rw [length_replicate, hlenm])
  rw [hpack] at hpack'
  obtain ⟨rfl, rfl⟩ := Prod.mk.inj (some.inj hpack')
  have hall : (x :: ofNat hostname.length :: (hostname ++ [0, 0])).take (len m) =
      x :: ofNat hostname.length :: (hostname ++ [0, 0]) := by
    apply take_of_length_le
    simp only [length_append, length_cons, length_nil, hlenm]
    omega
  obtain ⟨s, hs⟩ : ∃ s : Source UInt8,
      s.rest = x :: ofNat hostname.length :: (hostname ++ [0, 0]) :=
    ⟨.ofList _, Source.rest_ofList _⟩
  obtain ⟨m', s', hm', hrecovers, _⟩ := hunpack s [] (by rw [hall, append_nil, hs])
  have hdomain := hrecovers.type.trans htype
  rw [eq_three_of_domain ((type_unpack hs hm').symm.trans hdomain)] at hs
  obtain ⟨s'', hm'', _⟩ := unpack_domain (t := t) [] 0 hlen hs
  rw [hm'] at hm''
  rw [Except.ok.inj (Prod.mk.inj hm'').1] at hrecovers
  exact hport hlenm hrecovers.port.symm

theorem packTo_zeros_254 (hlen : m.hostname.length = 254) :
    packTo t m (replicate (4 + m.hostname.length) 0) =
      some (ofNat (m.port.toNat / 256) :: ofNat m.port.toNat :: (m.hostname ++ [0, 0]),
        4 + (ofNat m.port.toNat).toNat) := by
  have hput : putAt (3 :: ofNat m.hostname.length :: (m.hostname ++ [0, 0])) 0
      (beBytes 2 m.port.toNat) = some (beBytes 2 m.port.toNat ++ (m.hostname ++ [0, 0])) :=
    putAt_zero (b := [3, ofNat m.hostname.length]) _ _ rfl
  have hpos : (2 + ofNat m.hostname.length).toNat = 0 := by
    rw [hlen]
    rfl
  rw [packTo_zeros htype, hpos, hput, bind_some, beBytes_two]
  rfl

theorem not_packsWell_254 (hlen : m.hostname.length = 254) : ¬ PacksWell t m := by
  have hpack := packTo_zeros_254 (t := t) htype hlen
  by_cases hlow : ofNat m.port.toNat = ofNat m.hostname.length
  · rw [hlow] at hpack
    apply not_packsWell_of_zeros htype m.hostname rfl (by omega) hpack
    intro _ hzero
    rw [hzero, hlen] at hlow
    cases hlow
  · -- The length that `PackTo` reports is off.
    intro h
    obtain ⟨dst', hpack', _⟩ := h (replicate (4 + m.hostname.length) 0)
      (by rw [length_replicate, len, htype])
    rw [hpack] at hpack'
    have hn := (Prod.mk.inj (some.inj hpack')).2
    rw [len, htype] at hn
    simp only at hn
    apply hlow
    apply UInt8.toNat_inj.mp
    rw [UInt8.toNat_ofNat' (n := m.hostname.length), hlen]
    omega

/-- A name of 255 bytes: the port goes over the length and the first byte of the name. -/
theorem not_packsWell_255 (hlen : m.hostname.length = 255) : ¬ PacksWell t m := by
  obtain ⟨first, tail, hhost⟩ := exists_cons_of_length_pos (l := m.hostname) (by omega)
  have htail : tail.length = 254 := by
    rw [hhost, length_cons] at hlen
    omega
  have hput : putAt (3 :: ofNat m.hostname.length :: (m.hostname ++ [0, 0])) 1
      (beBytes 2 m.port.toNat) = some ([3] ++ (beBytes 2 m.port.toNat ++ (tail ++ [0, 0]))) := by
    rw [hhost]
    exact putAt_append (b := [ofNat (first :: tail).length, first]) [3] (tail ++ [0, 0])
      (beBytes 2 m.port.toNat) rfl (length_beBytes 2 _).symm
  have hpos : (2 + ofNat m.hostname.length).toNat = 1 := by
    rw [hlen]
    rfl
  have hpack := packTo_zeros (t := t) htype
  rw [hpos, hput, bind_some, beBytes_two] at hpack
  by_cases hhigh : ofNat (m.port.toNat / 256) =
      ofNat (ofNat m.port.toNat :: tail).length
  · rw [hhigh] at hpack
    apply not_packsWell_of_zeros htype (ofNat m.port.toNat :: tail)
      (by rw [length_cons]; omega) (by rw [length_cons]; omega) hpack
    intro _ hzero
    rw [hzero, length_cons, htail] at hhigh
    cases hhigh
  · intro h
    obtain ⟨dst', hpack', _⟩ := h (replicate (4 + m.hostname.length) 0)
      (by rw [length_replicate, len, htype])
    rw [hpack] at hpack'
    have hn := (Prod.mk.inj (some.inj hpack')).2
    rw [len, htype] at hn
    change 4 + (ofNat (m.port.toNat / 256)).toNat = 4 + m.hostname.length at hn
    apply hhigh
    apply UInt8.toNat_inj.mp
    rw [length_cons, htail, UInt8.toNat_ofNat' (n := 254 + 1)]
    omega

end

theorem packsWell_iff (htype : m.type = t.hostType m.hostname)
    (hlen : m.type = .domain → m.hostname.length ≤ 255) : PacksWell t m ↔ Encodable t m := by
  constructor
  · intro h
    unfold Encodable
    rcases hparse : t.parseAddr m.hostname with _ | ⟨a, zone⟩
    · have hdomain : m.type = .domain := by rw [htype, hostType, hparse]
      have hlen := hlen hdomain
      by_contra hlong
      rcases (by omega : m.hostname.length = 254 ∨ m.hostname.length = 255) with h254 | h255
      · exact not_packsWell_254 hdomain h254 h
      · exact not_packsWell_255 hdomain h255 h
    · by_contra hzone
      obtain ⟨dst', hpack, _⟩ := h (replicate (len m) 0) (by rw [length_replicate])
      rw [packTo_zone htype hparse hzone] at hpack
      cases hpack
  · exact packsWell_of_encodable htype

end Outbound.Trojanc
