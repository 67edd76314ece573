import Outbound.Netproxy

/-! SOCKS addresses in front of a datagram, and the receiving half of a SOCKS5 relay. Polling reads a
datagram into the caller's buffer, header and all; the push path has it whole. -/
namespace Outbound.Socks5

open Lib List Option SocksAddr

def whole (b : Bytes) (n : ℕ) : Option Bytes := if b.length < n then none else some (b.take n)

def splitAddr : Bytes → Option Bytes
  | [] => none
  | typ :: rest =>
    if typ = addressTypeDomain then
      match rest with
      | [] => none
      | n :: _ => whole (typ :: rest) (1 + 1 + n.toNat + 2)
    else if typ = addressTypeIPv4 then whole (typ :: rest) (1 + 4 + 2)
    else if typ = addressTypeIPv6 then whole (typ :: rest) (1 + 16 + 2)
    else none

def portAt (b : Bytes) : UInt16 := .ofNat (beNat (b.take 2))

def addrPort : Bytes → Option AddrPort
  | [] => none
  | typ :: rest =>
    if typ = addressTypeIPv4 then
      if rest.length < 4 + 2 then none else some ⟨.v4 (.ofBytes 4 rest), portAt (rest.drop 4)⟩
    else if typ = addressTypeIPv6 then
      if rest.length < 16 + 2 then none else some ⟨.v6 (.ofBytes 16 rest), portAt (rest.drop 16)⟩
    else none

/-- The host of a domain address and its port, as `String` joins them. -/
def host (a : Bytes) : Bytes := (a.drop 2).take (a.getD 1 0).toNat

def port (a : Bytes) : UInt16 := portAt (a.drop (2 + (a.getD 1 0).toNat))

/-- The address in front and the rest, as all three receivers split them: `resolve` is what they do
with a name, and the errors are their own. -/
def splitPayload (resolve : Bytes → UInt16 → Except Error AddrPort) (noAddr : Error)
    (badAddr : Error → Error) (body : Bytes) : Except Error (Bytes × AddrPort) :=
  match splitAddr body with
  | none => .error noAddr
  | some a =>
    match addrPort a with
    | some src => .ok (body.drop a.length, src)
    | none =>
      match resolve (host a) (port a) with
      | .ok src => .ok (body.drop a.length, src)
      | .error err => .error (badAddr err)

def dropped (text : String) : Error := .datagramDropped (.errorf text)

/-- `parseSocksUdpPayload`; `resolve` is `net.ResolveUDPAddr`. -/
def parseSocksUdpPayload (resolve : Bytes → UInt16 → Except Error AddrPort) (data : Bytes) :
    Except Error (Bytes × AddrPort) :=
  if data.length < 3 then .error (.datagramDropped (.sentinel .shortBuffer))
  else if data.getD 2 0 ≠ 0 then
    .error (dropped "fragmented SOCKS UDP datagrams are not supported")
  else
    splitPayload resolve (dropped "can not get target addr") (fun _ => dropped "wrong target addr")
      (data.drop 3)

def mapReceived (decode : Bytes → Except Error (Bytes × AddrPort)) (packet : ReceivedPacket) :
    ReceivedPacket :=
  if packet.err ≠ none then packet
  else
    match decode packet.data with
    | .error err => { packet with data := [], err := some err }
    | .ok (payload, src) => { packet with data := payload, src }

variable (resolve : Bytes → UInt16 → Except Error AddrPort)

def mapReceivedPacket : ReceivedPacket → ReceivedPacket :=
  mapReceived (parseSocksUdpPayload resolve)

/-- `readFrom` of the datagram `w` into a buffer of `l` bytes, which gets the front of it. -/
def readFrom (w : Bytes) (l : ℕ) : ReadResult :=
  match parseSocksUdpPayload resolve (w.take l) with
  | .error err => ⟨w.take l, .zero, some err⟩
  | .ok (payload, src) => .ok (payload.take l) src

def source : SocksAddr → Except Error AddrPort
  | .ipv4 ip port => .ok ⟨.v4 ip, port⟩
  | .ipv6 ip port => .ok ⟨.v6 ip, port⟩
  | .domain name _ port => resolve name port

/-- A relayed datagram: two reserved bytes, no fragment, the address and the payload. -/
def datagram (r₀ r₁ : UInt8) (a : SocksAddr) (payload : Bytes) : Bytes :=
  r₀ :: r₁ :: 0 :: (a.encode ++ payload)

/-- What polling with `l` bytes of room owes for a payload from `src`: the payload, with the result of
the push path where there is one, or else a dropped datagram. -/
def Delivers (payload : Bytes) (l : ℕ) (src : Except Error AddrPort)
    (push : Option ReceivedPacket) (r : ReadResult) : Prop :=
  (payload.length ≤ l →
    ∃ s, src = .ok s ∧ r = .ok payload s ∧ ∀ p ∈ push, p = ⟨payload, s, none⟩) ∧
  (l < payload.length → ∃ cause, r.err = some (.datagramDropped cause))

section Split

variable (noAddr : Error) (badAddr : Error → Error) (a : SocksAddr) (payload : Bytes) (k : ℕ)

theorem whole_take (e p : Bytes) (k : ℕ) :
    whole ((e ++ p).take k) e.length = if e.length ≤ k then some e else none := by
  unfold whole
  by_cases hk : e.length ≤ k
  · simp [hk, take_take]
  · simp [hk]

theorem length_encode : a.encode.length =
    match a with
    | .ipv4 _ _ => 1 + 4 + 2
    | .ipv6 _ _ => 1 + 16 + 2
    | .domain name _ _ => 1 + 1 + name.length + 2 := by
  cases a with
  | ipv4 ip _ => simp [encode, ip.2]
  | ipv6 ip _ => simp [encode, ip.2]
  | domain name _ _ => simp [encode]; omega

theorem splitAddr_take :
    splitAddr ((a.encode ++ payload).take k) =
      if a.encode.length ≤ k then some a.encode else none := by
  rw [← whole_take a.encode payload k, length_encode]
  cases k with
  | zero => cases a <;> rfl
  | succ k =>
    cases a with
    | domain name short port =>
      cases k with
      | zero => simp [encode, splitAddr, whole]
      | succ k =>
        have hname : (UInt8.ofNat name.length).toNat = name.length := by
          rw [UInt8.toNat_ofNat', Nat.mod_eq_of_lt short]
        show whole _ (1 + 1 + (UInt8.ofNat name.length).toNat + 2) = _
        rw [hname]
        rfl
    | _ => rfl

theorem portAt_beBytes (p : UInt16) : portAt (beBytes 2 p.toNat) = p := by
  unfold portAt
  rw [take_of_length_le (by rw [length_beBytes]), beNat_beBytes_of_lt p.toNat_lt,
    UInt16.ofNat_toNat]

theorem addrPort_encode : addrPort a.encode = a.addrPort := by
  cases a with
  | ipv4 ip p =>
    have hlen : ¬ (ip.1 ++ beBytes 2 p.toNat).length < 4 + 2 := by simp [ip.2]
    show (if _ then none else _) = some _
    rw [if_neg hlen, Octets.ofBytes_append, drop_left' ip.2, portAt_beBytes]
  | ipv6 ip p =>
    have hlen : ¬ (ip.1 ++ beBytes 2 p.toNat).length < 16 + 2 := by simp [ip.2]
    show (if _ then none else _) = some _
    rw [if_neg hlen, Octets.ofBytes_append, drop_left' ip.2, portAt_beBytes]
  | domain name short p => rfl

theorem splitPayload_take :
    splitPayload resolve noAddr badAddr ((a.encode ++ payload).take k) =
      if a.encode.length ≤ k then
        match source resolve a with
        | .ok src => .ok (payload.take (k - a.encode.length), src)
        | .error err => .error (badAddr err)
      else .error noAddr := by
  unfold splitPayload
  rw [splitAddr_take]
  by_cases hk : a.encode.length ≤ k
  · have hrest : ((a.encode ++ payload).take k).drop a.encode.length =
        payload.take (k - a.encode.length) := by
      rw [drop_take, drop_left]
    rw [if_pos hk, if_pos hk]
    dsimp only
    rw [hrest, addrPort_encode]
    cases a with
    | domain name short p =>
      have hname : (UInt8.ofNat name.length).toNat = name.length := by
        rw [UInt8.toNat_ofNat', Nat.mod_eq_of_lt short]
      have hhost : host (encode (.domain name short p)) = name := by
        show (name ++ _).take (UInt8.ofNat name.length).toNat = name
        rw [hname, take_left]
      have hport : port (encode (.domain name short p)) = p := by
        show portAt ((_ :: _ :: (name ++ _)).drop (2 + (UInt8.ofNat name.length).toNat)) = p
        simp [hname, Nat.add_comm, drop_succ_cons, portAt_beBytes]
      rw [hhost, hport]
      rfl
    | _ => rfl
  · simp [hk]

theorem splitPayload_encode :
    splitPayload resolve noAddr badAddr (a.encode ++ payload) =
      match source resolve a with
      | .ok src => .ok (payload, src)
      | .error err => .error (badAddr err) := by
  have h := splitPayload_take resolve noAddr badAddr a payload (a.encode ++ payload).length
  rwa [take_length, if_pos (by simp), length_append, Nat.add_sub_cancel_left, take_length] at h

end Split

theorem mapReceived_of_ok {decode : Bytes → Except Error (Bytes × AddrPort)} {w payload : Bytes}
    {s : AddrPort} (h : decode w = .ok (payload, s)) (src : AddrPort) :
    mapReceived decode ⟨w, src, none⟩ = ⟨payload, s, none⟩ := by
  unfold mapReceived
  rw [if_neg (fun hne => hne rfl)]
  rw [h]

section Polling

variable (r₀ r₁ : UInt8) (a : SocksAddr) (payload : Bytes)

/-- A buffer that cuts the header gives a dropped datagram, and so does an address that does not
resolve; otherwise the payload comes as far as there is room. -/
theorem readFrom_datagram (l : ℕ) :
    if a.encode.length + 3 ≤ l then
      match source resolve a with
      | .ok s => readFrom resolve (datagram r₀ r₁ a payload) l =
          .ok (payload.take (l - 3 - a.encode.length)) s
      | .error _ => ∃ cause,
          (readFrom resolve (datagram r₀ r₁ a payload) l).err = some (.datagramDropped cause)
    else ∃ cause,
      (readFrom resolve (datagram r₀ r₁ a payload) l).err = some (.datagramDropped cause) := by
  by_cases hl : l < 3
  · have hshort : ((datagram r₀ r₁ a payload).take l).length < 3 := by
      rw [length_take]
      omega
    rw [if_neg (by omega)]
    unfold readFrom parseSocksUdpPayload
    rw [if_pos hshort]
    exact ⟨_, rfl⟩
  · obtain ⟨k, rfl⟩ : ∃ k, l = k + 3 := ⟨l - 3, by omega⟩
    have hparse : parseSocksUdpPayload resolve ((datagram r₀ r₁ a payload).take (k + 3)) =
        splitPayload resolve (dropped "can not get target addr")
          (fun _ => dropped "wrong target addr") ((a.encode ++ payload).take k) := by
      rfl
    unfold readFrom
    rw [hparse, splitPayload_take]
    split_ifs with hfit hno hno
    · cases source resolve a with
      | ok s =>
        have htake : (payload.take (k - a.encode.length)).take (k + 3) =
            payload.take (k - a.encode.length) := by
          rw [take_take, Nat.min_eq_right (by omega)]
        exact congrArg (fun p => ReadResult.ok p s) htake
      | error err => exact ⟨_, rfl⟩
    · omega
    · omega
    · exact ⟨_, rfl⟩

/-- Polling does what it owes when the datagram fits with its header, or when the payload is too large
and the header is cut or has no address that resolves. -/
theorem delivers_iff (src : AddrPort) (l : ℕ) :
    Delivers payload l (source resolve a)
        (some (mapReceivedPacket resolve ⟨datagram r₀ r₁ a payload, src, none⟩))
        (readFrom resolve (datagram r₀ r₁ a payload) l) ↔
      ((∃ s, source resolve a = .ok s) ∧ (datagram r₀ r₁ a payload).length ≤ l) ∨
      (l < payload.length ∧ (l < a.encode.length + 3 ∨ ∀ s, source resolve a ≠ .ok s)) := by
  have hlen : (datagram r₀ r₁ a payload).length = a.encode.length + payload.length + 3 := by
    simp [datagram]
  have hread := readFrom_datagram resolve r₀ r₁ a payload l
  have hfail : (∃ cause, (readFrom resolve (datagram r₀ r₁ a payload) l).err =
      some (.datagramDropped cause)) →
      ∀ push, Delivers payload l (source resolve a) push
        (readFrom resolve (datagram r₀ r₁ a payload) l) ↔ l < payload.length := by
    rintro ⟨cause, herr⟩ push
    constructor
    · intro hd
      by_contra hle
      obtain ⟨s, -, hok, -⟩ := hd.1 (by omega)
      rw [hok] at herr
      cases herr.symm
    · intro hlt
      exact ⟨fun hle => by omega, fun _ => ⟨cause, herr⟩⟩
  split_ifs at hread with hfit
  · cases hsource : source resolve a with
    | error err =>
      rw [hsource] at hread hfail
      rw [hfail hread]
      simp
    | ok s =>
      rw [hsource] at hread
      rw [hread, hlen]
      constructor
      · intro hd
        left
        refine ⟨⟨s, rfl⟩, ?_⟩
        by_cases hle : payload.length ≤ l
        · obtain ⟨s', -, hok, -⟩ := hd.1 hle
          have htake : payload.take (l - 3 - a.encode.length) = payload :=
            congrArg ReadResult.data hok
          have hroom := congrArg length htake
          rw [length_take] at hroom
          omega
        · obtain ⟨cause, herr⟩ := hd.2 (by omega)
          cases herr.symm
      · rintro (⟨-, hroom⟩ | ⟨-, hcut | hnone⟩)
        · refine ⟨fun _ => ⟨s, rfl, ?_, ?_⟩, fun hlt => by omega⟩
          · rw [take_of_length_le (by omega)]
          · intro p hp
            rw [← some.inj hp]
            apply mapReceived_of_ok
            exact (splitPayload_encode resolve _ _ a payload).trans (by rw [hsource])
        · omega
        · exact absurd rfl (hnone s)
  · rw [hfail hread, hlen]
    constructor
    · exact fun hlt => .inr ⟨hlt, .inl (by omega)⟩
    · rintro (⟨-, hroom⟩ | ⟨hlt, -⟩)
      · omega
      · exact hlt

end Polling

end Outbound.Socks5
