import Outbound.Shadowsocks.TcpStream
import Outbound.Shadowsocks.UdpReceive

/-! The two encoders of a target: `BytesFromPool`, and the one of the UDP path that writes into the
datagram. The buffers of both come from the pool with what they held before. -/
namespace Outbound.Shadowsocks

open Lib Protocol List Option SocksAddr
open Tcp (poolGet length_poolGet)

/-- `BytesFromPool` on its buffer, which is `memory` before. -/
def bytesFromDirtyPool (t : NetText) (m : Protocol.Metadata) (lenMsgBody : UInt32)
    (memory : ℕ → UInt8) : Option (Except Error Bytes) :=
  let filled (size : ℕ) (fill : Bytes → Option Bytes) : Option (Except Error Bytes) :=
    ((fill (poolGet memory size)).bind fun b => putAt b 0 [metadataTypeToByte m.type]).map .ok
  match m.type with
  | .ipv4 =>
    match ipv4Bytes t m with
    | .error err => some (.error err)
    | .ok ip4 => filled (1 + 4 + 2) fun b =>
      (copyAt b 1 ip4).bind fun b => putAt b 5 (beBytes 2 m.port.toNat)
  | .ipv6 =>
    match ipv6Bytes t m with
    | .error err => some (.error err)
    | .ok ip16 => filled (1 + 16 + 2) fun b =>
      (copyAt b 1 ip16).bind fun b => putAt b 17 (beBytes 2 m.port.toNat)
  | .domain =>
    let lenDN := m.hostname.length
    if lenDN > 255 then some (.error (.errorf s!"domain name too long: {lenDN}"))
    else filled (1 + 1 + lenDN + 2) fun b =>
      (putAt b 1 [.ofNat lenDN]).bind fun b =>
      (copyAt b 2 m.hostname).bind fun b => putAt b (2 + lenDN) (beBytes 2 m.port.toNat)
  | .msg => filled (1 + 1 + 4) fun b =>
      (putAt b 1 [m.cmd]).bind fun b => putAt b 2 (beBytes 4 lenMsgBody.toNat)
  | .invalid => none

def metadataLen : Protocol.MetadataType → ℕ
  | .ipv4 => 1 + 4 + 2
  | .ipv6 => 1 + 16 + 2
  | .domain => 1 + 1 + 255 + 2
  | .msg => 1 + 1 + 4
  | .invalid => 19

/-- The buffer after `writeMetadataInline`, and the number it returns; `none` is a panic. -/
def writeMetadataInline (t : NetText) (buf : Bytes) (m : Protocol.Metadata) (lenMsgBody : UInt32) :
    Option (Bytes × ℕ) :=
  (putAt buf 0 [metadataTypeToByte m.type]).bind fun buf =>
  match m.type with
  | .ipv4 =>
    let filled :=
      match m.ip with
      | .v4 ip => copyAt buf 1 ip.1
      | _ =>
        match t.parseIP m.hostname with
        | some ip => (to4 ip).bind fun ip => copyAt buf 1 (ip.take 4)
        | none => some buf
    (filled.bind fun buf => putAt buf 5 (beBytes 2 m.port.toNat)).map fun buf => (buf, 7)
  | .ipv6 =>
    let filled :=
      match m.ip with
      | .v6 ip => copyAt buf 1 ip.1
      | _ =>
        match t.parseIP m.hostname with
        | some ip => copyAt buf 1 (ip.take 16)
        | none => some buf
    (filled.bind fun buf => putAt buf 17 (beBytes 2 m.port.toNat)).map fun buf => (buf, 19)
  | .domain =>
    let lenDN := min m.hostname.length 255
    (putAt buf 1 [.ofNat lenDN]).bind fun buf =>
    ((copyAt buf 2 (m.hostname.take lenDN)).bind fun buf =>
      putAt buf (2 + lenDN) (beBytes 2 m.port.toNat)).map fun buf => (buf, 4 + lenDN)
  | .msg =>
    (putAt buf 1 [m.cmd]).bind fun buf =>
    (putAt buf 2 (beBytes 4 lenMsgBody.toNat)).map fun buf => (buf, 6)
  | .invalid => some (buf, 0)

def withTarget (base mdata : Protocol.Metadata) : Protocol.Metadata :=
  { base with hostname := mdata.hostname, port := mdata.port, type := mdata.type, ip := mdata.ip }

def metadataForWrite (t : NetText) (base : Protocol.Metadata) (addr : Bytes) :
    Except Error Protocol.Metadata :=
  match t.parseMetadata addr with
  | .error err => .error err
  | .ok mdata =>
    let metadata := withTarget base mdata
    if metadata.type = .domain ∧ metadata.hostname.length > 255 then
      .error (.errorf s!"domain name too long: {metadata.hostname.length}")
    else .ok metadata

/-- Both encoders write `bytes`, whatever stood in their buffers. -/
structure Encodes (t : NetText) (m : Protocol.Metadata) (bytes : Bytes) : Prop where
  inline : ∀ buf lenMsgBody, metadataLen m.type ≤ buf.length →
    writeMetadataInline t buf m lenMsgBody = some (bytes ++ buf.drop bytes.length, bytes.length)
  pooled : ∀ memory lenMsgBody, bytesFromDirtyPool t m lenMsgBody memory = some (.ok bytes)

/-- The decoded target has the type, the port and the host of `m`, but for the zone of an address. -/
def Recovers (t : NetText) (m : Protocol.Metadata) (d : Metadata) : Prop :=
  d.port = m.port ∧
    match m.type with
    | .ipv4 => d.typ = .ipv4 ∧ ∃ zone, t.parseAddr m.hostname = some (d.ip, zone)
    | .ipv6 => d.typ = .ipv6 ∧ ∃ zone, t.parseAddr m.hostname = some (d.ip, zone)
    | .domain => d.typ = .domain ∧ d.hostname = m.hostname
    | _ => False

section Filling

variable {b addr : Bytes} {k n : ℕ} (port : UInt16)

theorem fill_fields (front : Bytes) (hk : front.length = k) (hn : addr.length = n)
    (h : k + n + 2 ≤ b.length) :
    (copyAt (front ++ b.drop k) k addr).bind (fun b => putAt b (k + n) (beBytes 2 port.toNat)) =
      some (front ++ (addr ++ beBytes 2 port.toNat) ++ b.drop (k + n + 2)) := by
  have hlen : (front ++ addr).length = k + n := by simp [hk, hn]
  have hcopy := copyAt_drop front b addr hk (by omega)
  have hput := putAt_drop (front ++ addr) b (beBytes 2 port.toNat) hlen (by rwa [length_beBytes])
  rw [hcopy, hn, bind_some, hput, length_beBytes, append_assoc front]

theorem fill_pooled (x y : UInt8) (front : Bytes) (hk : (y :: front).length = k)
    (hn : addr.length = n) (h : b.length = k + n + 2) :
    ((copyAt (y :: front ++ b.drop k) k addr).bind fun b =>
        putAt b (k + n) (beBytes 2 port.toNat)).bind (fun b => putAt b 0 [x]) =
      some (x :: front ++ (addr ++ beBytes 2 port.toNat)) := by
  rw [fill_fields port (y :: front) hk hn h.ge, drop_of_length_le h.le, append_nil]
  exact putAt_zero (front ++ (addr ++ beBytes 2 port.toNat)) [x] (b := [y]) rfl

theorem putAt_first (x : UInt8) (h : 1 ≤ b.length) : putAt b 0 [x] = some ([x] ++ b.drop 1) :=
  putAt_drop [] b [x] rfl h

theorem exists_first (h : 1 ≤ b.length) : ∃ y, b = [y] ++ b.drop 1 := by
  cases b with
  | nil => cases h
  | cons y rest => exact ⟨y, rfl⟩

end Filling

section Targets

variable {t : NetText} {m : Protocol.Metadata}

theorem encodes_ipv4 (htype : m.type = .ipv4) {ip : Octets 4} (hip : m.ip = .v4 ip) :
    Encodes t m (encode (.ipv4 ip m.port)) := by
  have hlen : (encode (.ipv4 ip m.port)).length = 7 := by
    simp [encode, ip.2, length_beBytes]
  constructor
  · intro buf lenMsgBody hbuf
    rw [htype] at hbuf
    have hfirst := putAt_first (metadataTypeToByte .ipv4) (le_trans (by decide) hbuf)
    have hfill := fill_fields m.port [metadataTypeToByte .ipv4] (k := 1) rfl ip.2 hbuf
    simp only [writeMetadataInline, htype, hip, hfirst, bind_some, hlen]
    exact congrArg (Option.map (·, 7)) hfill
  · intro memory lenMsgBody
    have hfill := fill_pooled m.port (metadataTypeToByte .ipv4) (memory 0) [] (k := 1) rfl ip.2
      (length_poolGet memory 7)
    simp only [bytesFromDirtyPool, htype, ipv4Bytes, hip]
    exact congrArg (Option.map Except.ok) hfill

theorem encodes_ipv6 (htype : m.type = .ipv6) {ip : Octets 16} (hip : m.ip = .v6 ip) :
    Encodes t m (encode (.ipv6 ip m.port)) := by
  have hlen : (encode (.ipv6 ip m.port)).length = 19 := by
    simp [encode, ip.2, length_beBytes]
  constructor
  · intro buf lenMsgBody hbuf
    rw [htype] at hbuf
    have hfirst := putAt_first (metadataTypeToByte .ipv6) (le_trans (by decide) hbuf)
    have hfill := fill_fields m.port [metadataTypeToByte .ipv6] (k := 1) rfl ip.2 hbuf
    simp only [writeMetadataInline, htype, hip, hfirst, bind_some, hlen]
    exact congrArg (Option.map (·, 19)) hfill
  · intro memory lenMsgBody
    have hfill := fill_pooled m.port (metadataTypeToByte .ipv6) (memory 0) [] (k := 1) rfl ip.2
      (length_poolGet memory 19)
    simp only [bytesFromDirtyPool, htype, ipv6Bytes, hip]
    exact congrArg (Option.map Except.ok) hfill

theorem encodes_domain (htype : m.type = .domain) (hshort : m.hostname.length < 256) :
    Encodes t m (encode (.domain m.hostname hshort m.port)) := by
  set x := metadataTypeToByte .domain with hx
  set y := UInt8.ofNat m.hostname.length with hy
  have hmin : min m.hostname.length 255 = m.hostname.length := by omega
  have hsum : 4 + m.hostname.length = 2 + m.hostname.length + 2 := by omega
  have hlen : (encode (.domain m.hostname hshort m.port)).length =
      2 + m.hostname.length + 2 := by
    rw [encode, length_cons, length_cons, length_append, length_beBytes]
    omega
  constructor
  · intro buf lenMsgBody hbuf
    have hroom : 2 + m.hostname.length + 2 ≤ buf.length := by
      rw [htype] at hbuf
      change 259 ≤ _ at hbuf
      omega
    have hfirst := putAt_first (b := buf) x (by omega)
    have hsecond := putAt_drop [x] buf [y] (k := 1) rfl (by rw [length_singleton]; omega)
    have hfill := fill_fields m.port [x, y] (k := 2) rfl rfl hroom
    simp only [writeMetadataInline, htype, ← hx, hfirst, hmin, ← hy, hsecond, take_length,
      bind_some, hlen, hsum]
    exact congrArg (Option.map (·, 2 + m.hostname.length + 2)) hfill
  · intro memory lenMsgBody
    have hsize := length_poolGet memory (1 + 1 + m.hostname.length + 2)
    obtain ⟨z, hz⟩ := exists_first (b := poolGet memory (1 + 1 + m.hostname.length + 2)) (by omega)
    have hsecond := putAt_drop [z] (poolGet memory (1 + 1 + m.hostname.length + 2)) [y] (k := 1) rfl
      (by rw [length_singleton]; omega)
    have hfill := fill_pooled m.port x z [y] (k := 2) rfl rfl hsize
    rw [← hz] at hsecond
    simp only [bytesFromDirtyPool, htype, ← hx, if_neg (not_lt.mpr (Nat.le_of_lt_succ hshort)), ← hy, hsecond, bind_some]
    exact congrArg (Option.map Except.ok) hfill

/-- A target whose name fits, if it is one, is encoded by both, and decoded again. -/
theorem exists_encodes (htype : m.type = t.hostType m.hostname)
    (hip : m.ip = ((t.parseAddr m.hostname).map Prod.fst).getD .zero)
    (hshort : ¬ (m.type = .domain ∧ m.hostname.length > 255)) :
    ∃ a : SocksAddr, (∀ base, Encodes t (withTarget base m) a.encode) ∧
      Recovers t m (metadataOf a) := by
  unfold NetText.hostType at htype
  rcases hparse : t.parseAddr m.hostname with _ | ⟨_ | ip | ip, zone⟩ <;> rw [hparse] at htype hip
  · have hlt : m.hostname.length < 256 := by
      by_contra h
      exact hshort ⟨htype, by omega⟩
    refine ⟨.domain m.hostname hlt m.port, fun base => ?_, rfl, ?_⟩
    · exact encodes_domain (m := withTarget base m) htype hlt
    · rw [htype]
      exact ⟨rfl, rfl⟩
  · exact absurd hparse (t.parseAddr_ne_zero _ _)
  · refine ⟨.ipv4 ip m.port, fun base => ?_, rfl, ?_⟩
    · exact encodes_ipv4 (m := withTarget base m) htype hip
    · rw [htype]
      exact ⟨rfl, zone, hparse⟩
  · refine ⟨.ipv6 ip m.port, fun base => ?_, rfl, ?_⟩
    · exact encodes_ipv6 (m := withTarget base m) htype hip
    · rw [htype]
      exact ⟨rfl, zone, hparse⟩

theorem parseMetadata_eq {tgt : Bytes} (h : t.parseMetadata tgt = .ok m) :
    m.type = t.hostType m.hostname ∧
      m.ip = ((t.parseAddr m.hostname).map Prod.fst).getD .zero := by
  unfold NetText.parseMetadata at h
  split at h
  · simp at h
  · split at h
    · simp at h
    · cases h
      exact ⟨rfl, rfl⟩

end Targets

/-- The UDP path and `BytesFromPool` both refuse a target, because its name is too long, or both
encode it as the same bytes, whatever stood in their buffers; from these `NewMetadata` gets it back,
but for the zone of an IPv6 address. -/
theorem encoders_agree (t : NetText) (tgt : Bytes) {m : Protocol.Metadata}
    (h : t.parseMetadata tgt = .ok m) :
    (∀ base, (∃ err, metadataForWrite t base tgt = .error err) ∧ ∀ memory lenMsgBody,
        ∃ err, bytesFromDirtyPool t (withTarget base m) lenMsgBody memory = some (.error err)) ∨
      ∃ bytes d, newMetadata bytes = .ok d ∧ Recovers t m d ∧
        ∀ base, metadataForWrite t base tgt = .ok (withTarget base m) ∧
          Encodes t (withTarget base m) bytes := by
  obtain ⟨htype, hip⟩ := parseMetadata_eq h
  by_cases hlong : m.type = .domain ∧ m.hostname.length > 255
  · left
    intro base
    constructor
    · simp only [metadataForWrite, h]
      exact ⟨_, if_pos hlong⟩
    · intro memory lenMsgBody
      have hdomain : (withTarget base m).type = .domain := hlong.1
      simp only [bytesFromDirtyPool, hdomain]
      exact ⟨_, if_pos hlong.2⟩
  · right
    obtain ⟨a, hencodes, hrecovers⟩ := exists_encodes htype hip hlong
    have hdecoded := newMetadata_encode a []
    rw [append_nil] at hdecoded
    refine ⟨a.encode, metadataOf a, hdecoded, hrecovers, fun base => ⟨?_, hencodes base⟩⟩
    simp only [metadataForWrite, h]
    exact if_neg hlong

def sampleTarget (hostname : Bytes) : Protocol.Metadata := ⟨.domain, hostname, 53, .zero, 0, false⟩

theorem encoders_agree_name :
    sampleText.parseMetadata (ascii "a:53") = .ok (sampleTarget [97]) ∧
      ∃ bytes, Encodes sampleText (sampleTarget [97]) bytes := by
  have hparsed : sampleText.parseMetadata (ascii "a:53") = .ok (sampleTarget [97]) := rfl
  refine ⟨hparsed, ?_⟩
  rcases encoders_agree sampleText _ hparsed with hrefused | ⟨bytes, _, _, _, h⟩
  · obtain ⟨⟨err, herr⟩, _⟩ := hrefused (sampleTarget [97])
    simp only [metadataForWrite, hparsed] at herr
    rw [if_neg (by decide)] at herr
    simp at herr
  · exact ⟨bytes, (h (sampleTarget [97])).2⟩

def longName : Bytes := replicate 256 97

theorem length_longName : longName.length = 256 := length_replicate

def zonedTarget : Protocol.Metadata :=
  ⟨.ipv6, ascii "0000:0000:0000:0000:0000:0000:0000:0000%1", 53, .v6 (.ofBytes 16 []), 0, false⟩

/-- By itself the inline encoder cuts a name of 256 bytes, which `BytesFromPool` refuses; and from
what both make of an address with a zone, that zone is not decoded. -/
theorem encoders_differ :
    (sampleText.parseMetadata (longName ++ ascii ":53") = .ok (sampleTarget longName) ∧
      (∃ err, bytesFromDirtyPool sampleText (sampleTarget longName) 0 (fun _ => 0) =
        some (.error err)) ∧
      (writeMetadataInline sampleText (replicate 259 0) (sampleTarget longName) 0).map Prod.snd =
        some 259) ∧
    sampleText.parseMetadata (91 :: (zonedTarget.hostname ++ ascii "]:53")) = .ok zonedTarget ∧
      ∃ bytes d zone, Encodes sampleText zonedTarget bytes ∧ newMetadata bytes = .ok d ∧
        sampleText.parseAddr zonedTarget.hostname = some (d.ip, zone) ∧ zone ≠ [] := by
  have hlong : longName.length > 255 := by rw [length_longName]; decide
  have hencodes : Encodes sampleText zonedTarget _ := encodes_ipv6 rfl rfl
  have hdecoded := newMetadata_encode (.ipv6 (.ofBytes 16 []) zonedTarget.port) []
  refine ⟨⟨by decide +kernel, ?_, by decide +kernel⟩, by decide +kernel, _, _, ascii "1", hencodes,
    hdecoded, by decide +kernel, by decide⟩
  simp only [bytesFromDirtyPool, sampleTarget]
  exact ⟨_, if_pos hlong⟩

end Outbound.Shadowsocks
