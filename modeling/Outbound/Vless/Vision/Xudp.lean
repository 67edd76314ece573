import Outbound.Vless.Vision.Packet

/-! The frames of an XUDP stream, and which of them the packet connection reads in step. -/
namespace Outbound.Vless.Vision.Xudp

open Lib List Option PacketConn

inductive Kind where
  | keep
  | keepAlive
deriving DecidableEq

def Kind.code : Kind → UInt8
  | keep => 0x02
  | keepAlive => 0x04

inductive Host where
  | ipv4 (ip : Octets 4)
  | domain (name : Bytes) (short : name.length < 256)
  | ipv6 (ip : Octets 16)

def Host.encode : Host → Bytes
  | ipv4 ip => 1 :: ip.1
  | domain name _ => 2 :: UInt8.ofNat name.length :: name
  | ipv6 ip => 3 :: ip.1

def Host.addr : Host → Option Addr
  | ipv4 ip => some (.v4 ip)
  | domain _ _ => none
  | ipv6 ip => some (.v6 ip)

/-- What the metadata of a frame has behind its header: nothing, an address with whatever follows
it, or less than an address takes. -/
inductive Metadata where
  | none
  | address (network : UInt8) (port : UInt16) (host : Host) (trailing : Bytes)
  | short (b : Bytes) (nonempty : b ≠ []) (length_lt : b.length < 8)

def Metadata.encode : Metadata → Bytes
  | none => []
  | address network port host trailing =>
    network :: (beBytes 2 port.toNat ++ (host.encode ++ trailing))
  | short b _ _ => b

/-- The address of the datagram; without metadata it is the zero address. -/
def Metadata.source : Metadata → Option AddrPort
  | none => some .zero
  | address _ port host _ => host.addr.map fun a => ⟨a, port⟩
  | short _ _ _ => Option.none

structure Frame where
  sessionID : Octets 2
  kind : Kind
  option : UInt8
  metadata : Metadata
  payload : Bytes
  metadata_le : 4 + metadata.encode.length ≤ 65535
  payload_le : payload.length ≤ 65535

namespace Frame

variable (f : Frame)

def hasData : Bool := f.option &&& 1 = 1

def header : Bytes := f.sessionID.1 ++ [f.kind.code, f.option]

def data : Bytes :=
  if f.hasData then beBytes 2 f.payload.length ++ f.payload else []

def encode : Bytes :=
  beBytes 2 (4 + f.metadata.encode.length) ++ (f.header ++ (f.metadata.encode ++ f.data))

/-- A read with a buffer of `l` bytes answers for the data frame `f`: with its payload and address,
or with a dropped datagram when it does not fit or has no usable address. -/
def Reports (l : ℕ) (res : ReadResult) : Prop :=
  match f.metadata.source with
  | some a =>
    if f.payload.length ≤ l then res = .ok f.payload a
    else ∃ cause, res = .fail (.datagramDropped cause)
  | none => ∃ cause, res = .fail (.datagramDropped cause)

/-- The frames that are read in step: without metadata; or `keep` frames with an IP address, or with
a domain when there is no data and its block is as long as that of an IPv6 address. -/
def InStep : Prop :=
  match f.kind, f.metadata with
  | _, .none => True
  | .keep, .address _ _ host trailing =>
    host.addr.isSome ∨ f.hasData = false ∧ 17 ≤ (host.encode ++ trailing).length
  | _, _ => False

end Frame

variable (network : UInt8) (port : UInt16) (fs : List Frame)

def wire : Bytes := (fs.map Frame.encode).flatten

/-- The calls with buffers `ls` answer for the data frames `fs` one by one, and with the end of the
stream after them. -/
def Answers : List Frame → List ℕ → List ReadResult → Prop
  | _, [], [] => True
  | [], _ :: ls, res :: rs => res = .fail (.sentinel .eof) ∧ Answers [] ls rs
  | f :: fs, l :: ls, res :: rs => f.Reports l res ∧ Answers fs ls rs
  | _, _, _ => False

section Fetch

variable {s : Source UInt8}

theorem fetch_eq (a b : Bytes) (k : ℕ) (hk : a.length = k) (hs : s.rest = a ++ b) :
    ∃ s', fetch s k = ⟨a, none, s'⟩ ∧ s'.rest = b := by
  obtain ⟨s', hfull, hrest, _⟩ := Source.streams.readFull_append hk hs
  refine ⟨s', ?_, hrest⟩
  simp [fetch, hfull, hk]

theorem fetch_eof (k : ℕ) (hk : 0 < k) (hs : s.rest = []) :
    ∃ s', fetch s k = ⟨[], some (.sentinel .eof), s'⟩ ∧ s'.rest = [] := by
  obtain ⟨s', hfull, hrest, _⟩ := Source.streams.readFull_nil k hs
  refine ⟨s', ?_, hrest⟩
  simp [fetch, hfull, hk]

end Fetch

theorem readPacketAddr_eq (ipType : UInt8) (body : Bytes)
    (ipAddr : Addr) (hlen : (if ipType = 1 then 4 else 16) ≤ body.length)
    (hip : addrFromSlice (body.take (if ipType = 1 then 4 else 16)) = some ipAddr) :
    readPacketAddr (network :: (beBytes 2 port.toNat ++ ipType :: body)) = .ok ⟨ipAddr, port⟩ := by
  have hport : beNat (beBytes 2 port.toNat) = port.toNat := beNat_beBytes_of_lt port.toNat_lt
  have hbody : 4 ≤ body.length := by
    split_ifs at hlen <;> omega
  have hblock : ¬ (network :: (beBytes 2 port.toNat ++ ipType :: body)).length < 1 + 2 + 1 + 4 := by
    simp only [length_cons, length_append, length_beBytes]
    omega
  have htype : (beBytes 2 port.toNat ++ ipType :: body).getD 2 0 = ipType := by
    simp
  have hrest : (beBytes 2 port.toNat ++ ipType :: body).drop 3 = body := by
    rfl
  rw [readPacketAddr, if_neg hblock]
  simp only [drop_succ_cons, drop_zero, htype, hrest,
    take_left' (length_beBytes 2 port.toNat), hport, hip, Nat.not_lt.mpr hlen, if_false]
  rw [UInt16.ofNat_toNat]

theorem addrFromSlice_sixteen (b : Bytes) (h : b.length = 16) :
    addrFromSlice b = some (.v6 ⟨b, h⟩) := by
  rw [addrFromSlice, dif_neg (by omega), dif_pos h]

/-- An address block that is long enough for its type is read, and an IP address for what it is. -/
theorem readPacketAddr_address (host : Host) (trailing : Bytes)
    (h : host.addr.isSome ∨ 17 ≤ (host.encode ++ trailing).length) :
    ∃ a, readPacketAddr (Metadata.address network port host trailing).encode = .ok a ∧
      ∀ b, (Metadata.address network port host trailing).source = some b → b = a := by
  cases host with
  | ipv4 ip =>
    have hip : addrFromSlice ((ip.1 ++ trailing).take 4) = some (.v4 ip) := by
      rw [take_left' ip.2, addrFromSlice, dif_pos ip.2]
      rfl
    have hlen : 4 ≤ (ip.1 ++ trailing).length := by
      rw [length_append, ip.2]
      omega
    refine ⟨⟨.v4 ip, port⟩, readPacketAddr_eq network port 1 _ _ hlen hip, ?_⟩
    intro b hb
    exact (some.inj hb).symm
  | ipv6 ip =>
    have hip : addrFromSlice ((ip.1 ++ trailing).take 16) = some (.v6 ip) := by
      rw [take_left' ip.2, addrFromSlice_sixteen ip.1 ip.2]
      rfl
    have hlen : 16 ≤ (ip.1 ++ trailing).length := by
      rw [length_append, ip.2]
      omega
    refine ⟨⟨.v6 ip, port⟩, readPacketAddr_eq network port 3 _ _ hlen hip, ?_⟩
    intro b hb
    exact (some.inj hb).symm
  | domain name short =>
    have hlen : 16 ≤ (UInt8.ofNat name.length :: (name ++ trailing)).length := by
      rcases h with h | h
      · exact absurd h (by simp [Host.addr])
      · simp only [Host.encode, cons_append, length_cons] at h ⊢
        omega
    refine ⟨_, readPacketAddr_eq network port 2 _ _ hlen
      (addrFromSlice_sixteen _ (length_take_of_le hlen)), ?_⟩
    intro b hb
    exact absurd hb (by simp [Metadata.source, Host.addr])

variable {s : Source UInt8}

theorem readMetadata_keep (b : Bytes) (hb : b ≠ []) (rest : Bytes) (hs : s.rest = b ++ rest) :
    ∃ s', readMetadata s (4 + b.length) Kind.keep.code = (readPacketAddr b, s') ∧
      s'.rest = rest := by
  have hpos := length_pos_of_ne_nil hb
  obtain ⟨s', hfetch, hrest⟩ := fetch_eq b rest (4 + b.length - 4) (by omega) hs
  refine ⟨s', ?_, hrest⟩
  rw [readMetadata, if_neg (by decide), if_pos (show Kind.keep.code = 2 from rfl),
    if_pos (by omega), hfetch]
  rfl

/-- The metadata of a frame that is read in step is read as a whole, and with data its address is
the frame's. -/
theorem readMetadata_inStep (f : Frame) (hf : f.InStep) (rest : Bytes)
    (hs : s.rest = f.metadata.encode ++ rest) :
    ∃ a s', readMetadata s (4 + f.metadata.encode.length) f.kind.code = (.ok a, s') ∧
      s'.rest = rest ∧ (f.hasData = true → f.metadata.source = some a) := by
  unfold Frame.InStep at hf
  cases hmeta : f.metadata with
  | none =>
    rw [hmeta] at hs
    exact ⟨.zero, s, by cases f.kind <;> rfl, hs, fun _ => rfl⟩
  | short b hne hlt => simp [hmeta] at hf
  | address network port host trailing =>
    rw [hmeta] at hf hs
    cases hkind : f.kind with
    | keepAlive => simp [hkind] at hf
    | keep =>
      simp only [hkind] at hf
      obtain ⟨a, haddr, hsource⟩ := readPacketAddr_address network port host trailing
        (hf.imp_right And.right)
      obtain ⟨s', hread, hrest⟩ := readMetadata_keep
        (Metadata.address network port host trailing).encode (cons_ne_nil _ _) rest hs
      rw [haddr] at hread
      refine ⟨a, s', hread, hrest, ?_⟩
      intro hdata
      have hip : host.addr.isSome := by
        rcases hf with hip | ⟨hno, _⟩
        · exact hip
        · exact absurd hdata (by simp [hno])
      obtain ⟨ip, hip⟩ := isSome_iff_exists.mp hip
      have hsome : (Metadata.address network port host trailing).source = some ⟨ip, port⟩ := by
        simp [Metadata.source, hip]
      rw [hsome, hsource _ hsome]

theorem readData_reports (f : Frame) {a : AddrPort} (ha : f.metadata.source = some a) (rest : Bytes)
    (hs : s.rest = beBytes 2 f.payload.length ++ (f.payload ++ rest)) (l : ℕ) :
    ∃ res s', readData s a l = (res, s') ∧ s'.rest = rest ∧ f.Reports l res := by
  obtain ⟨s₁, hlength, hs₁⟩ := fetch_eq _ _ 2 (length_beBytes 2 _) hs
  have hle := f.payload_le
  have hnat : beNat (beBytes 2 f.payload.length) = f.payload.length :=
    beNat_beBytes_of_lt (by omega)
  rw [readData, hlength]
  simp only [hnat, readPayload]
  by_cases hfit : f.payload.length ≤ l
  · obtain ⟨s₂, hpayload, hs₂⟩ := fetch_eq f.payload rest _ rfl hs₁
    rw [if_neg (Nat.not_lt.mpr hfit), hpayload]
    exact ⟨_, s₂, rfl, hs₂, by simp [Frame.Reports, ha, hfit, ReadResult.ok]⟩
  · obtain ⟨s₂, hskip, hs₂, _⟩ := Source.streams.readFull_append rfl hs₁
    rw [if_pos (Nat.not_le.mp hfit), PacketConn.discard, hskip]
    exact ⟨_, s₂, rfl, hs₂, by simp [Frame.Reports, ha, hfit, ReadResult.fail]⟩

namespace Frame

variable (f : Frame)

theorem length_header : f.header.length = 4 := by
  simp [header, f.sessionID.2]

theorem kind_header : f.header.getD 2 0 = f.kind.code := by
  rw [header, getD_eq_getElem?_getD, getElem?_append_right (by rw [f.sessionID.2]), f.sessionID.2]
  rfl

theorem option_header : f.header.getD 3 0 = f.option := by
  simp [header, f.sessionID.2]

theorem length_encode_pos : 0 < f.encode.length := by
  rw [encode, length_append, length_beBytes]
  omega

end Frame

section Frames

variable (next : Source UInt8 → Option (ReadResult × Source UInt8)) (l : ℕ)

theorem readFrame_metadata (f : Frame) (hf : f.InStep) (rest : Bytes)
    (hs : s.rest = f.encode ++ rest) :
    ∃ a s', s'.rest = f.data ++ rest ∧ (f.hasData = true → f.metadata.source = some a) ∧
      readFrame next s l =
        if f.hasData = true then some (readData s' a l) else next s' := by
  have hle := f.metadata_le
  have hnat : beNat (beBytes 2 (4 + f.metadata.encode.length)) = 4 + f.metadata.encode.length :=
    beNat_beBytes_of_lt (by omega)
  simp only [Frame.encode, append_assoc] at hs
  obtain ⟨s₁, hlength, hs₁⟩ := fetch_eq _ _ 2 (length_beBytes 2 _) hs
  obtain ⟨s₂, hheader, hs₂⟩ := fetch_eq _ _ 4 f.length_header hs₁
  obtain ⟨a, s₃, hmeta, hs₃, hsource⟩ := readMetadata_inStep f hf _ hs₂
  refine ⟨a, s₃, hs₃, hsource, ?_⟩
  simp only [readFrame, hlength, hheader, readBody, hnat, f.kind_header, hmeta,
    f.option_header, Frame.hasData, decide_eq_true_eq]
  by_cases hdata : f.option &&& 1 = 1
  · simp
  · simp

theorem readFrame_eof (hs : s.rest = []) :
    ∃ s', readFrame next s l = some (.fail (.sentinel .eof), s') ∧ s'.rest = [] := by
  obtain ⟨s', hfetch, hrest⟩ := fetch_eof 2 (by omega) hs
  refine ⟨s', ?_, hrest⟩
  simp only [readFrame, hfetch]

end Frames

/-- One call answers for the next data frame, or with the end of the stream, and leaves the stream
in front of a frame. -/
theorem readFromLoop_answers (fs : List Frame) (hfs : ∀ f ∈ fs, f.InStep) (fuel : ℕ)
    (hfuel : fs.length < fuel) (hs : s.rest = wire fs) (l : ℕ) :
    ∃ res s' rest, readFromLoop fuel s l = some (res, s') ∧ s'.rest = wire rest ∧
      rest <:+ fs ∧ Answers (fs.filter Frame.hasData) [l] [res] ∧
      rest.filter Frame.hasData = (fs.filter Frame.hasData).drop 1 := by
  induction fuel generalizing fs s with
  | zero => omega
  | succ fuel ih =>
    rw [readFromLoop]
    cases fs with
    | nil =>
      obtain ⟨s', hframe, hs'⟩ := readFrame_eof _ l hs
      exact ⟨_, s', [], hframe, hs', suffix_rfl, ⟨rfl, trivial⟩, rfl⟩
    | cons f fs =>
      obtain ⟨a, s₁, hs₁, hsource, hframe⟩ := readFrame_metadata
        (fun s => readFromLoop fuel s l) l f (hfs f mem_cons_self) (wire fs) hs
      rw [hframe]
      by_cases hdata : f.hasData = true
      · rw [Frame.data, if_pos hdata, append_assoc] at hs₁
        obtain ⟨res, s₂, hread, hs₂, hreports⟩ := readData_reports f (hsource hdata) _ hs₁ l
        rw [if_pos hdata, hread]
        refine ⟨res, s₂, fs, rfl, hs₂, suffix_cons f fs, ?_, ?_⟩
        · rw [filter_cons_of_pos hdata]
          exact ⟨hreports, trivial⟩
        · rw [filter_cons_of_pos hdata]
          rfl
      · rw [Frame.data, if_neg hdata] at hs₁
        rw [if_neg hdata, filter_cons_of_neg hdata]
        rw [length_cons] at hfuel
        obtain ⟨res, s₂, rest, hloop, hs₂, hsuffix, hanswers⟩ :=
          ih fs (fun g hg => hfs g (mem_cons_of_mem f hg)) (by omega) hs₁
        exact ⟨res, s₂, rest, hloop, hs₂, hsuffix.trans (suffix_cons f fs), hanswers⟩

def reads : Source UInt8 → List ℕ → Option (List ReadResult × Source UInt8)
  | s, [] => some ([], s)
  | s, l :: ls =>
    (readFrom s l).bind fun r => (reads r.2 ls).map fun rs => (r.1 :: rs.1, rs.2)

theorem length_le_wire : fs.length ≤ (wire fs).length := by
  induction fs with
  | nil => exact Nat.le_refl 0
  | cons f fs ih =>
    have hpos := f.length_encode_pos
    have hwire : (wire (f :: fs)).length = f.encode.length + (wire fs).length := length_append
    rw [hwire, length_cons]
    omega

theorem readFrom_answers (fs : List Frame) (hfs : ∀ f ∈ fs, f.InStep)
    (hs : s.rest = wire fs) (l : ℕ) :
    ∃ res s' rest, readFrom s l = some (res, s') ∧ s'.rest = wire rest ∧
      rest <:+ fs ∧ Answers (fs.filter Frame.hasData) [l] [res] ∧
      rest.filter Frame.hasData = (fs.filter Frame.hasData).drop 1 := by
  have hlen := length_le_wire fs
  apply readFromLoop_answers fs hfs _ _ hs
  rw [hs]
  omega

theorem Answers.cons {fs : List Frame} {l : ℕ} {res : ReadResult} {ls : List ℕ}
    {rs : List ReadResult} (h : Answers fs [l] [res]) (htail : Answers (fs.drop 1) ls rs) :
    Answers fs (l :: ls) (res :: rs) := by
  cases fs with
  | nil => exact ⟨h.1, htail⟩
  | cons f fs => exact ⟨h.1, htail⟩

/-- On every stream of frames that are read in step, in any chunking, every sequence of calls
answers for the data frames in order, each with its payload and address or with a dropped datagram,
and leaves the stream in front of a frame. -/
theorem xudp_frames_read_in_step (hfs : ∀ f ∈ fs, f.InStep) (s : Source UInt8)
    (hs : s.rest = wire fs) (ls : List ℕ) :
    ∃ results s' rest, reads s ls = some (results, s') ∧ s'.rest = wire rest ∧ rest <:+ fs ∧
      Answers (fs.filter Frame.hasData) ls results ∧
      rest.filter Frame.hasData = (fs.filter Frame.hasData).drop ls.length := by
  induction ls generalizing fs s with
  | nil =>
    refine ⟨[], s, fs, rfl, hs, suffix_rfl, ?_, rfl⟩
    cases fs.filter Frame.hasData <;> trivial
  | cons l ls ih =>
    obtain ⟨res, s₁, mid, hread, hs₁, hmid, hanswer, hfilter⟩ := readFrom_answers fs hfs hs l
    obtain ⟨results, s₂, rest, hreads, hs₂, hrest, hanswers, hleft⟩ :=
      ih mid (fun f hf => hfs f (hmid.subset hf)) s₁ hs₁
    refine ⟨res :: results, s₂, rest, ?_, hs₂, hrest.trans hmid, ?_, ?_⟩
    · simp [reads, hread, hreads]
    · rw [hfilter] at hanswers
      exact hanswer.cons hanswers
    · simp [hleft, hfilter]

def sampleSession : Octets 2 := ⟨[0, 0], rfl⟩

def sampleAddress : Metadata := .address 2 53 (.ipv4 ⟨[1, 2, 3, 4], rfl⟩) []

def pingFrame : Frame := ⟨sampleSession, .keepAlive, 0, .none, [], by decide, by decide⟩

def dataFrame : Frame := ⟨sampleSession, .keep, 1, sampleAddress, [42], by decide, by decide⟩

theorem xudp_frames_read_in_step_ping :
    ∃ results s' rest, reads (.ofList (wire [pingFrame, dataFrame, pingFrame])) [1, 1] =
        some (results, s') ∧ s'.rest = wire rest ∧ rest <:+ [pingFrame, dataFrame, pingFrame] ∧
      Answers [dataFrame] [1, 1] results ∧ rest.filter Frame.hasData = [] := by
  have hfs : ∀ f ∈ [pingFrame, dataFrame, pingFrame], f.InStep := by
    simp [Frame.InStep, pingFrame, dataFrame, sampleAddress, Host.addr]
  exact xudp_frames_read_in_step [pingFrame, dataFrame, pingFrame] hfs
    (.ofList (wire [pingFrame, dataFrame, pingFrame])) (Source.rest_ofList _) [1, 1]

def pingWithAddress : Frame :=
  ⟨sampleSession, .keepAlive, 0, sampleAddress, [], by decide, by decide⟩

def domainFrame : Frame :=
  ⟨sampleSession, .keep, 1, .address 2 53 (.domain [97] (by decide)) [], [7], by decide, by decide⟩

theorem metadata_taken_for_header :
    (reads (.ofList (wire [pingWithAddress, dataFrame])) [100]).map Prod.fst =
        some [.fail (.errorf "unexpected frame new")] ∧
      ¬ Answers [dataFrame] [100] [.fail (.errorf "unexpected frame new")] ∧
      (reads (.ofList (wire [domainFrame, dataFrame])) [100, 100]).map Prod.fst =
        some [.fail (.sentinel .unexpectedEOF), .fail (.errorf "unsupported frame header: c")] ∧
      ¬ Answers [domainFrame, dataFrame] [100, 100]
        [.fail (.sentinel .unexpectedEOF), .fail (.errorf "unsupported frame header: c")] := by
  refine ⟨by decide, ?_, by decide, ?_⟩
  · rintro ⟨h, _⟩
    have hok : ReadResult.fail (.errorf "unexpected frame new") =
        .ok [42] ⟨.v4 ⟨[1, 2, 3, 4], rfl⟩, 53⟩ := h
    cases hok
  · rintro ⟨⟨cause, hcause⟩, _⟩
    simp [ReadResult.fail] at hcause

end Outbound.Vless.Vision.Xudp
