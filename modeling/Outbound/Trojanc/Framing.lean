import Outbound.Trojanc.Packet

/-! Which targets keep a Trojan or Juicity stream in frame. -/
namespace Outbound.Trojanc

open Lib Protocol List Sender.Call

variable {t : NetText} {v : Variant}

/-- The target of a datagram is what its text parses to, and its length fields suffice. -/
structure Datagram.WellFormed (t : NetText) (d : Datagram) : Prop where
  parsed : t.parseMetadata d.addr = .ok d.target
  data : d.data.length ≤ 65535
  hostname : d.target.type = .domain → d.target.hostname.length ≤ 255

theorem Datagram.WellFormed.type {d : Datagram} (h : d.WellFormed t) :
    d.target.type = t.hostType d.target.hostname := by
  have hparsed := h.parsed
  unfold NetText.parseMetadata at hparsed
  split at hparsed
  · simp at hparsed
  · split at hparsed
    · simp at hparsed
    · rw [← Except.ok.inj hparsed]

def frame (t : NetText) (v : Variant) (m : Metadata) (data : Bytes) : Bytes :=
  encode t m ++ (beBytes 2 data.length ++ (v.trailer ++ data))

theorem sealUDP_eq {m : Metadata} (htype : m.type = t.hostType m.hostname) (h : Encodable t m)
    {b : Bytes} (c : Bytes) {data : Bytes} (hb : b.length = frameLen v m data) :
    sealUDP t v m (b ++ c) data = some (frame t v m data ++ c) := by
  unfold frameLen at hb
  obtain ⟨b₁, b₂, b₃, rfl, h₁, h₂⟩ := exists_three_parts b (len m) 2 (by omega)
  obtain ⟨b₄, b₅, b₆, rfl, h₄, h₅⟩ :=
    exists_three_parts b₃ v.trailer.length data.length (by
      simp only [length_append] at hb
      omega)
  have h₆ : b₆ = [] := by
    apply eq_nil_of_length_eq_zero
    simp only [length_append] at hb
    omega
  subst h₆
  have hoff : (b₁ ++ (b₂ ++ b₄)).length = len m + 2 + v.trailer.length := by
    simp only [length_append]
    omega
  have hcopy : copyAt (b₁ ++ (b₂ ++ (b₄ ++ (b₅ ++ []))) ++ c) (len m + 2 + v.trailer.length) data =
      some (b₁ ++ (b₂ ++ (b₄ ++ (data ++ c)))) := by
    have hcopy := copyAt_append (b₁ ++ (b₂ ++ b₄)) c data hoff h₅
    simpa only [append_assoc, append_nil] using hcopy
  have hpack : packTo t m (b₁ ++ (b₂ ++ (b₄ ++ (data ++ c)))) =
      some (encode t m ++ (b₂ ++ (b₄ ++ (data ++ c))), len m) := packTo_eq _ htype h h₁
  have hput : putAt (encode t m ++ (b₂ ++ (b₄ ++ (data ++ c)))) (len m) (beBytes 2 data.length) =
      some (encode t m ++ (beBytes 2 data.length ++ (b₄ ++ (data ++ c)))) :=
    putAt_append _ _ _ (length_encode htype) (h₂.trans (length_beBytes 2 _).symm)
  have hlen : (encode t m ++ beBytes 2 data.length).length = len m + 2 := by
    simp [length_encode htype, length_beBytes]
  have htrailer := copyAt_append (encode t m ++ beBytes 2 data.length) (data ++ c) v.trailer hlen h₄
  simp only [append_assoc] at htrailer
  unfold sealUDP
  simp only [Option.bind_eq_bind, hcopy, Option.bind_some, hpack, hput]
  rw [htrailer]
  simp [frame]

namespace Sender

def Keeps (t : NetText) (c : Sender) : Prop :=
  ∀ entry, c.writeTarget = some entry → t.parseMetadata entry.1 = .ok entry.2

variable {c : Sender}

theorem metadataForAddr_eq (h : c.Keeps t) {addr : Bytes} {m : Metadata}
    (hm : t.parseMetadata addr = .ok m) :
    ∃ c', c.metadataForAddr t addr = (.ok m, c') ∧ c'.Keeps t := by
  unfold metadataForAddr
  cases hcache : c.writeTarget.filter (fun entry => entry.1 = addr) with
  | some entry =>
    obtain ⟨hentry, hkey⟩ := Option.filter_eq_some_iff.mp hcache
    have hparsed := h entry hentry
    rw [of_decide_eq_true hkey, hm] at hparsed
    exact ⟨c, by rw [Except.ok.inj hparsed], h⟩
  | none =>
    refine ⟨⟨some (addr, m)⟩, by simp only [hm], ?_⟩
    intro entry hentry
    cases hentry
    exact hm

theorem length_borrow (memory : ℕ → UInt8) (size : ℕ) : (borrow memory size).length = size := by
  simp [borrow]

theorem writeTo_eq (hc : c.Keeps t) {d : Datagram} (hd : d.WellFormed t)
    (h : Encodable t d.target) (memory : ℕ → UInt8) :
    ∃ c', c.writeTo t v d.data d.addr memory =
        some (⟨d.data.length, none, frame t v d.target d.data⟩, c') ∧ c'.Keeps t := by
  obtain ⟨c', hm, hkeeps⟩ := metadataForAddr_eq hc hd.parsed
  have hseal := sealUDP_eq (v := v) hd.type h [] (length_borrow memory (frameLen v d.target d.data))
  rw [append_nil, append_nil] at hseal
  refine ⟨c', ?_, hkeeps⟩
  simp [writeTo, hm, hseal]

theorem metadatas_eq (hc : c.Keeps t) (ds : List Datagram) (hds : ∀ d ∈ ds, d.WellFormed t) :
    ∃ c', c.metadatas t v (ds.map fun d => (d.data, d.addr)) =
        (.ok (ds.map fun d => d.target), c') ∧ c'.Keeps t := by
  induction ds generalizing c with
  | nil => exact ⟨c, rfl, hc⟩
  | cons d ds ih =>
    have hd := hds d mem_cons_self
    have hdata := hd.data
    obtain ⟨c₁, hm, hkeeps₁⟩ := metadataForAddr_eq hc hd.parsed
    obtain ⟨c₂, hms, hkeeps₂⟩ := ih hkeeps₁ (fun d hd => hds d (mem_cons_of_mem _ hd))
    refine ⟨c₂, ?_, hkeeps₂⟩
    simp only [map_cons, metadatas, hm, hms]
    rw [if_neg (by omega)]

theorem sealAll_eq (fs : List (Metadata × Bytes))
    (hfs : ∀ f ∈ fs, f.1.type = t.hostType f.1.hostname ∧ Encodable t f.1) (a b : Bytes)
    (hb : b.length = (fs.map fun f => frameLen v f.1 f.2).sum) :
    sealAll t v fs a.length (a ++ b) = some (a ++ fs.flatMap fun f => frame t v f.1 f.2) := by
  induction fs generalizing a b with
  | nil =>
    have hnil : b = [] := eq_nil_of_length_eq_zero hb
    subst hnil
    rfl
  | cons f fs ih =>
    obtain ⟨htype, hencodable⟩ := hfs f mem_cons_self
    rw [map_cons, sum_cons] at hb
    obtain ⟨b₁, b₂, rfl, h₁⟩ : ∃ b₁ b₂, b = b₁ ++ b₂ ∧ b₁.length = frameLen v f.1 f.2 :=
      ⟨b.take (frameLen v f.1 f.2), b.drop (frameLen v f.1 f.2), (take_append_drop _ _).symm,
        by rw [length_take]; omega⟩
    have hrest := ih (fun f hf => hfs f (mem_cons_of_mem _ hf)) (a ++ frame t v f.1 f.2) b₂
      (by rw [length_append] at hb; omega)
    have hlen : (frame t v f.1 f.2).length = frameLen v f.1 f.2 := by
      simp only [frame, frameLen, length_append, length_encode htype, length_beBytes]
      omega
    rw [length_append, hlen, append_assoc] at hrest
    simp [sealAll, sealUDP_eq htype hencodable b₂ h₁, hrest]

theorem writeBatch_eq (hc : c.Keeps t) (ds : List Datagram)
    (hds : ∀ d ∈ ds, d.WellFormed t ∧ Encodable t d.target) (memory : ℕ → UInt8) :
    ∃ c', c.writeBatch t v (ds.map fun d => (d.data, d.addr)) memory =
        some (⟨ds.length, none, ds.flatMap fun d => frame t v d.target d.data⟩, c') ∧
      c'.Keeps t := by
  by_cases hne : ds = []
  · subst hne
    exact ⟨c, rfl, hc⟩
  · obtain ⟨c', hms, hkeeps⟩ := metadatas_eq (v := v) hc ds (fun d hd => (hds d hd).1)
    have hzip : (ds.map fun d => d.target).zip ((ds.map fun d => (d.data, d.addr)).map Prod.fst) =
        ds.map fun d => (d.target, d.data) := by
      rw [map_map]
      exact zip_map'
    have hfs : ∀ f ∈ ds.map fun d => (d.target, d.data),
        f.1.type = t.hostType f.1.hostname ∧ Encodable t f.1 :=
      forall_mem_map.mpr fun d hd => ⟨(hds d hd).1.type, (hds d hd).2⟩
    have hseal := sealAll_eq (v := v) _ hfs [] _ (length_borrow memory _)
    rw [nil_append, nil_append, length_nil, flatMap_map] at hseal
    refine ⟨c', ?_, hkeeps⟩
    simp only [writeBatch, map_eq_nil_iff, hne, if_false, hms, hzip, hseal, Option.map_some,
      length_map]

theorem calls_eq (hc : c.Keeps t) (xs : List Call)
    (hxs : ∀ d ∈ xs.flatMap Call.datagrams, d.WellFormed t ∧ Encodable t d.target) :
    ∃ outs, c.calls t v xs = some outs ∧ (∀ out ∈ outs, out.err = none) ∧
      outs.flatMap WriteOut.sent =
        (xs.flatMap Call.datagrams).flatMap fun d => frame t v d.target d.data := by
  induction xs generalizing c with
  | nil => exact ⟨[], rfl, by simp, rfl⟩
  | cons x xs ih =>
    have hx : ∀ d ∈ x.datagrams, d.WellFormed t ∧ Encodable t d.target :=
      fun d hd => hxs d (mem_append_left _ hd)
    obtain ⟨out, c', hcall, herr, hsent, hkeeps⟩ : ∃ out c', c.call t v x = some (out, c') ∧
        out.err = none ∧ out.sent = (x.datagrams.flatMap fun d => frame t v d.target d.data) ∧
        c'.Keeps t := by
      cases x with
      | writeTo d memory =>
        obtain ⟨hd, hencodable⟩ := hx d (by simp [Call.datagrams])
        obtain ⟨c', hc', hkeeps⟩ := writeTo_eq (v := v) hc hd hencodable memory
        exact ⟨_, c', hc', rfl, by simp [Call.datagrams], hkeeps⟩
      | writeBatch ds memory =>
        obtain ⟨c', hc', hkeeps⟩ := writeBatch_eq (v := v) hc ds hx memory
        exact ⟨_, c', hc', rfl, rfl, hkeeps⟩
    obtain ⟨outs, hcalls, herrs, hframes⟩ := ih hkeeps (fun d hd => hxs d (mem_append_right _ hd))
    refine ⟨out :: outs, ?_, ?_, ?_⟩
    · simp only [calls, hcall, hcalls, Option.bind_eq_bind, Option.bind_some]
      rfl
    · exact forall_mem_cons.mpr ⟨herr, herrs⟩
    · simp [hsent, hframes]

end Sender

def targetAddr (t : NetText) (lookup : Lookup) (m : Metadata) : Except Error AddrPort :=
  match t.parseAddr m.hostname with
  | some (a, _) => .ok ⟨a.unmap, m.port⟩
  | none =>
    match lookup m.hostname with
    | .error err => .error (.wrap s!"datapath domain resolution failed: {text m.hostname}" err)
    | .ok a => .ok ⟨a, m.port⟩

/-- What a read with room for `l` bytes owes for a datagram: its payload and its target, or, where
it does not fit, its front and the report of the drop; and the failure to find the address. -/
def owed (t : NetText) (v : Variant) (lookup : Lookup) (d : Datagram) (l : ℕ) : ReadResult :=
  match targetAddr t lookup d.target with
  | .error err => .fail (v.addrError err)
  | .ok addr =>
    if d.data.length ≤ l then .ok d.data addr
    else ⟨d.data.take l, addr, some (.datagramDropped (.sentinel .shortBuffer))⟩

theorem domainIpMapping_of_recovers {m m' : Metadata} (htype : m.type = t.hostType m.hostname)
    (h : Recovers t m m') (lookup : Lookup) :
    m'.domainIpMapping t lookup = targetAddr t lookup m := by
  unfold NetText.hostType at htype
  unfold Metadata.domainIpMapping targetAddr
  rcases hparse : t.parseAddr m.hostname with _ | ⟨a, zone⟩
  · rw [hparse] at htype
    have hdomain : m'.type = .domain := by rw [h.type, htype]
    cases hl : lookup m.hostname <;>
      simp [hdomain, h.hostname htype, h.port, hl]
  · have hip : m.type = .ipv4 ∨ m.type = .ipv6 := by
      rw [htype, hparse]
      rcases a with _ | ip | ip
      · exact .inr rfl
      · exact .inl rfl
      · exact .inr rfl
    obtain ⟨a', ha', hhost⟩ := h.address hip
    obtain rfl : a = a' := by
      rw [hparse] at ha'
      exact (Prod.mk.inj (Option.some.inj ha')).1
    have haddr : m'.addrPort t = .ok ⟨a.unmap, m.port⟩ := by
      unfold Metadata.addrPort
      rcases hip with hip | hip <;>
        simp [h.type, hip, h.ip, hhost, h.port]
    have hne : m'.type ≠ .domain := by
      rcases hip with hip | hip <;> simp [h.type, hip]
    rw [if_pos hne, haddr]

/-- A read at a frame returns what it owes for the datagram and leaves the stream at the next
frame, whatever the size of the buffer and whether or not the address is found. -/
theorem readFrom_frame {d : Datagram} (hd : d.WellFormed t) (h : Encodable t d.target)
    (lookup : Lookup) {s : Source UInt8} {rest : Bytes}
    (hs : s.rest = frame t v d.target d.data ++ rest) (l : ℕ) :
    ∃ s', readFrom t v lookup s l = (owed t v lookup d l, s') ∧ s'.rest = rest := by
  simp only [frame, append_assoc] at hs
  obtain ⟨m', s₁, hunpack, hrecovers, hrest₁⟩ := unpack_encode hd.type h hs
  have haddr := domainIpMapping_of_recovers hd.type hrecovers lookup
  have hlen : (beBytes 2 d.data.length ++ v.trailer).length = 2 + v.trailer.length := by
    simp
  obtain ⟨s₂, hlength, hrest₂⟩ := Io.readFull_append hlen hrest₁
  have hdrop : (beBytes 2 d.data.length ++ v.trailer).drop 2 = v.trailer :=
    drop_left' (length_beBytes 2 _)
  have hnat : beNat ((beBytes 2 d.data.length ++ v.trailer).take 2) = d.data.length := by
    have hdata := hd.data
    simpa using beNat_beBytes_of_lt (by omega)
  by_cases hl : d.data.length ≤ l
  · obtain ⟨s₃, hpayload, hrest₃⟩ := Io.readFull_append rfl hrest₂
    refine ⟨s₃, ?_, hrest₃⟩
    simp only [readFrom, hunpack, hlength, hdrop, ne_eq, not_true_eq_false, if_false, hnat,
      readPayload, hpayload, withAddr, haddr, owed]
    rw [if_neg (by omega)]
    cases targetAddr t lookup d.target with
    | error err => rfl
    | ok addr => simp [hl, ReadResult.ok]
  · have hcut : (d.data.take l).length = l := by
      rw [length_take]
      omega
    have hdropped : (d.data.drop l).length = d.data.length - l := length_drop
    rw [← take_append_drop l d.data, append_assoc] at hrest₂
    obtain ⟨s₃, hpayload, hrest₃⟩ := Io.readFull_append hcut hrest₂
    obtain ⟨s₄, hdiscard, hrest₄⟩ := Io.discard_append hdropped hrest₃
    refine ⟨s₄, ?_, hrest₄⟩
    simp only [readFrom, hunpack, hlength, hdrop, ne_eq, not_true_eq_false, if_false, hnat,
      readPayload, hpayload, hdiscard, withAddr, haddr, owed]
    rw [if_pos (by omega)]
    cases targetAddr t lookup d.target with
    | error err => rfl
    | ok addr => simp [hl]

/-- Reads, one for each datagram or fewer, return what they owe, and the stream is at the frame of
the next datagram. -/
theorem reads_frames (ds : List Datagram)
    (hds : ∀ d ∈ ds, d.WellFormed t ∧ Encodable t d.target) {s : Source UInt8} {rest : Bytes}
    (hs : s.rest = (ds.flatMap fun d => frame t v d.target d.data) ++ rest)
    (reads : List (Lookup × ℕ)) (hreads : reads.length ≤ ds.length) :
    Run.answers (fun s read => readFrom t v read.1 s read.2) s reads =
        zipWith (fun d read => owed t v read.1 d read.2) ds reads ∧
      (Run.exec (fun s read => readFrom t v read.1 s read.2) s reads).rest =
        ((ds.drop reads.length).flatMap fun d => frame t v d.target d.data) ++ rest := by
  induction reads generalizing ds s with
  | nil => exact ⟨by simp [Run.answers], hs⟩
  | cons read reads ih =>
    cases ds with
    | nil => simp at hreads
    | cons d ds =>
      obtain ⟨hd, hencodable⟩ := hds d mem_cons_self
      rw [flatMap_cons, append_assoc] at hs
      obtain ⟨s', hread, hrest⟩ := readFrom_frame hd hencodable read.1 hs read.2
      obtain ⟨hanswers, hexec⟩ := ih ds (fun d hd => hds d (mem_cons_of_mem _ hd)) hrest
        (by simpa using hreads)
      simp [Run.answers, Run.exec_cons, hread, hanswers, hexec]

/-- The datagrams of a sequence of calls go through: their targets pack and are recovered, no call
panics or fails, and reads with any buffers get what they are owed, frame by frame. -/
structure InFrame (t : NetText) (v : Variant) (xs : List Sender.Call) : Prop where
  packs : ∀ d ∈ xs.flatMap datagrams, PacksWell t d.target
  written : ∃ outs, Sender.calls t v ⟨none⟩ xs = some outs ∧ ∀ out ∈ outs, out.err = none
  read : ∀ outs, Sender.calls t v ⟨none⟩ xs = some outs → ∀ (s : Source UInt8) (rest : Bytes),
    s.rest = outs.flatMap WriteOut.sent ++ rest → ∀ reads : List (Lookup × ℕ),
    reads.length ≤ (xs.flatMap datagrams).length →
    Run.answers (fun s read => readFrom t v read.1 s read.2) s reads =
        zipWith (fun d read => owed t v read.1 d read.2)
          (xs.flatMap datagrams) reads ∧
      (Run.exec (fun s read => readFrom t v read.1 s read.2) s reads).rest =
        (((xs.flatMap datagrams).drop reads.length).flatMap fun d =>
          frame t v d.target d.data) ++ rest

/-- Datagrams to any target of the protocol go through exactly when no target is a domain name of
more than 253 bytes or an address with a zone. -/
theorem udp_frames_in_frame_iff (t : NetText) (v : Variant) (xs : List Sender.Call)
    (hxs : ∀ d ∈ xs.flatMap datagrams, d.WellFormed t) :
    InFrame t v xs ↔ ∀ d ∈ xs.flatMap datagrams, Encodable t d.target := by
  constructor
  · intro h d hd
    exact (packsWell_iff (hxs d hd).type (hxs d hd).hostname).mp (h.packs d hd)
  · intro h
    have hboth : ∀ d ∈ xs.flatMap datagrams, d.WellFormed t ∧ Encodable t d.target :=
      fun d hd => ⟨hxs d hd, h d hd⟩
    have hkeeps : Sender.Keeps t ⟨none⟩ := fun entry hentry => by simp at hentry
    obtain ⟨outs, hcalls, herrs, hsent⟩ := Sender.calls_eq (v := v) hkeeps xs hboth
    refine ⟨?_, ⟨outs, hcalls, herrs⟩, ?_⟩
    · intro d hd
      exact packsWell_of_encodable (hxs d hd).type (h d hd)
    · intro outs' houts' s rest hs reads hreads
      obtain rfl : outs = outs' := Option.some.inj (hcalls.symm.trans houts')
      rw [hsent] at hs
      exact reads_frames _ hboth hs reads hreads

def sampleDatagram : Datagram :=
  ⟨[1, 2, 3], ascii "9.9.9.9:53",
    ⟨.ipv4, ascii "9.9.9.9", 53, .v4 ⟨[9, 9, 9, 9], rfl⟩, 0, false⟩⟩

theorem udp_frames_in_frame_iff_sample :
    InFrame sampleText .trojan [.writeTo sampleDatagram (fun _ => 7),
      .writeBatch [sampleDatagram, sampleDatagram] (fun _ => 8)] := by
  have hmem : ∀ d ∈ [writeTo sampleDatagram (fun _ => 7),
      .writeBatch [sampleDatagram, sampleDatagram] (fun _ => 8)].flatMap datagrams,
        d = sampleDatagram := by
    simp [datagrams]
  apply (udp_frames_in_frame_iff sampleText .trojan _ ?_).mpr
  · intro d hd
    rw [hmem d hd]
    rfl
  · intro d hd
    rw [hmem d hd]
    exact ⟨rfl, by decide, fun h => absurd h (by decide)⟩

def longName : Bytes := replicate 254 97

def longDatagram : Datagram :=
  ⟨[1, 2, 3], longName ++ ascii ":53", ⟨.domain, longName, 53, .zero, 0, false⟩⟩

theorem length_longName : longName.length = 254 := length_replicate

/-- The port goes over the type and the length of the name, and the frame does not decode. -/
theorem long_name_out_of_frame :
    longDatagram.WellFormed sampleText ∧
      packTo sampleText longDatagram.target
          (replicate (4 + longDatagram.target.hostname.length) 0) =
        some (0 :: 53 :: (longDatagram.target.hostname ++ [0, 0]), 57) ∧
      ¬ InFrame sampleText .trojan [.writeTo longDatagram (fun _ => 0)] := by
  refine ⟨⟨?_, ?_, ?_⟩, ?_, ?_⟩
  · decide +kernel
  · decide
  · intro _
    change longName.length ≤ 255
    rw [length_longName]
    decide
  · have hpack := packTo_zeros_254 (t := sampleText) (m := longDatagram.target) rfl length_longName
    exact hpack
  · intro h
    exact not_packsWell_254 rfl length_longName (h.packs longDatagram (by simp [datagrams]))

end Outbound.Trojanc
