import Outbound.Lib.Bytes
import Outbound.Lib.Feed
import Outbound.Lib.Sink

/-! The client side of the multiplexing that the v2ray plugin speaks, with its one session. -/
namespace Outbound.Transport.Mux

open Lib List

def sessionStatusNew : UInt8 := 1

def sessionStatusKeep : UInt8 := 2

def sessionStatusKeepAlive : UInt8 := 4

def optionNone : UInt8 := 0

def optionData : UInt8 := 1

/-- An IP address, an IPv4 one in its short form. -/
inductive Ip where
  | v4 (octets : Octets 4)
  | v6 (octets : Octets 16)

structure MuxOption where
  id : Octets 2
  port : UInt16
  host : Bytes
  type : String

inductive MuxErr where
  | eof
  | unexpectedEOF
  | conn (text : String)
  | errorf (text : String)
deriving DecidableEq

abbrev MuxRead := ReadOut UInt8 MuxErr

structure Written where
  n : ℕ
  err : Option MuxErr
deriving DecidableEq

/-- A connection with what its underlying one is still to receive and has sent. The positions at
which `Read` took frame headers off the stream, as the number of bytes that were left, are kept for
the statements. -/
structure Conn where
  id : Octets 2
  otb : Option Bytes
  remain : ℕ
  feed : Feed UInt8 MuxErr
  sent : Bytes
  headersAt : List ℕ

variable (frames : List Frame) (parseIP : Bytes → Option Ip)

def address (host : Bytes) : Bytes :=
  match parseIP host with
  | none => 2 :: host
  | some (.v4 octets) => 1 :: octets.1
  | some (.v6 octets) => 3 :: octets.1

def subConnection (o : MuxOption) : Bytes :=
  let netType : UInt8 := if o.type = "udp" then 2 else 1
  let metadata := [0, 0] ++ o.id.1 ++ [sessionStatusNew, optionNone] ++ [netType] ++
    beBytes 2 o.port.toNat ++ address parseIP o.host
  beBytes 2 (metadata.length - 2) ++ metadata.drop 2

def newConn (o : MuxOption) (feed : Feed UInt8 MuxErr) : Conn :=
  ⟨o.id, some (subConnection parseIP o), 0, feed, [], []⟩

def shortErr (got : Bytes) (e : MuxErr) : MuxErr :=
  if e = .eof ∧ got ≠ [] then .unexpectedEOF else e

namespace Conn

variable (c : Conn) (l : ℕ) (b : Bytes)

def setFeed (feed : Feed UInt8 MuxErr) : Conn := { c with feed := feed }

def setRemain (remain : ℕ) : Conn := { c with remain := remain }

def storeId (got : Bytes) : Conn :=
  { c with id := Octets.ofBytes 2 (got ++ c.id.1.drop got.length) }

def atHeader : Conn := { c with headersAt := c.headersAt ++ [c.feed.rest.length] }

/-- Reads two bytes, stores them and goes on with them, or returns the error. -/
def readTwo (store : Conn → Bytes → Conn)
    (next : Conn → Bytes → Option (MuxRead × Conn)) : Option (MuxRead × Conn) :=
  let r := c.feed.readFull .eof 2
  let c := store (c.setFeed r.2.2) r.1
  match r.2.1 with
  | some e => some (⟨[], some (shortErr r.1 e)⟩, c)
  | none => next c r.1

def scratch (_ : Bytes) : Conn := c

def readPayload : MuxRead × Conn :=
  let r := c.feed.read .eof (min c.remain l)
  (⟨r.1.data, r.1.err⟩, (c.setFeed r.2).setRemain (c.remain - r.1.data.length))

/-- More of the payload of a frame. An error leaves the count as it was, whatever came with it. -/
def readRemain : MuxRead × Conn :=
  let r := c.feed.read .eof (min c.remain l)
  match r.1.err with
  | some e => (⟨r.1.data, some e⟩, c.setFeed r.2)
  | none => (⟨r.1.data, none⟩, (c.setFeed r.2).setRemain (c.remain - r.1.data.length))

variable (again : Conn → Option (MuxRead × Conn))

def readStatus (l : ℕ) (c : Conn) (status : Bytes) : Option (MuxRead × Conn) :=
  let opcode := status.getD 0 0
  let opts := status.getD 1 0
  if opcode = sessionStatusKeepAlive then again c
  else if opts ≠ optionData then again c
  else c.readTwo scratch fun c length => some ((c.setRemain (beNat length)).readPayload l)

def readMetadata (l : ℕ) (c : Conn) (length : Bytes) : Option (MuxRead × Conn) :=
  if 512 < beNat length then some (⟨[], some (.errorf "invalid metalen")⟩, c)
  else c.readTwo storeId fun c _ => c.readTwo scratch (readStatus again l)

/-- The headers up to the first frame with a payload. -/
def readLoop : ℕ → Conn → ℕ → Option (MuxRead × Conn)
  | 0, _, _ => none
  | fuel + 1, c, l => c.atHeader.readTwo scratch (readMetadata (fun c => readLoop fuel c l) l)

/-- One `Read` into `l` bytes. Every header takes bytes off the stream. -/
def read : Option (MuxRead × Conn) :=
  if c.remain ≠ 0 then some (c.readRemain l) else c.readLoop (c.feed.rest.length + 1) l

def send (p : Bytes) (w : WriteEnd MuxErr) : Conn := { c with sent := c.sent ++ w.taken p }

def keepFrame : Bytes :=
  beBytes 2 4 ++ c.id.1 ++ [sessionStatusKeep] ++ [optionData] ++ beBytes 2 b.length ++ b

def writeFrame (w : WriteEnd MuxErr) : Written × Conn :=
  if 65535 < b.length then
    (⟨0, some (.errorf "mux: frame payload exceeds 65535 bytes")⟩, c)
  else (⟨(w.taken (c.keepFrame b)).length, w.err⟩, c.send (c.keepFrame b) w)

def write (sub frame : WriteEnd MuxErr) : Written × Conn :=
  match c.otb with
  | none => c.writeFrame b frame
  | some otb =>
    match sub.err with
    | some e => (⟨0, some e⟩, c.send otb sub)
    | none => ({ c.send otb sub with otb := none }.writeFrame b frame)

inductive Op where
  | read (l : ℕ)
  | write (b : Bytes) (sub frame : WriteEnd MuxErr)

inductive Answer where
  | read (out : MuxRead)
  | wrote (w : Written)

def step : Op → Option (Answer × Conn)
  | .read l => (c.read l).map fun r => (.read r.1, r.2)
  | .write b sub frame => some (.wrote (c.write b sub frame).1, (c.write b sub frame).2)

end Conn

def carriesData (opts : UInt8) : Bool := opts &&& optionData != 0

/-- A frame of the peer: its metadata may go on after the options. -/
structure Frame where
  id : Octets 2
  status : UInt8
  opts : UInt8
  extra : Bytes
  payload : Option Bytes
  metaLen : 4 + extra.length ≤ 512
  flagged : payload.isSome = carriesData opts
  short : ∀ d ∈ payload, d.length ≤ 65535

namespace Frame

variable (f : Frame)

def payloadBytes : Bytes :=
  match f.payload with
  | none => []
  | some d => beBytes 2 d.length ++ d

def encode : Bytes :=
  beBytes 2 (4 + f.extra.length) ++ (f.id.1 ++ ([f.status, f.opts] ++ (f.extra ++ f.payloadBytes)))

def data : Bytes := f.payload.getD []

/-- The frames that `Read` takes apart as they are meant: the metadata ends with the options, and
data is announced by the one option, on a frame that is not there to keep the connection alive. -/
def Plain : Prop :=
  f.extra = [] ∧ (f.payload ≠ none → f.status ≠ sessionStatusKeepAlive ∧ f.opts = optionData)

theorem Plain.length_encode {f : Frame} (h : f.Plain) :
    f.encode.length = 6 + f.payloadBytes.length := by
  simp only [encode, h.1, length_append, length_beBytes, f.id.2, length_cons, length_nil]
  omega

end Frame

def wire : Bytes := frames.flatMap Frame.encode

def content : Bytes := frames.flatMap Frame.data

@[simp] theorem wire_cons (f : Frame) (fs : List Frame) : wire (f :: fs) = f.encode ++ wire fs := rfl

namespace Conn

theorem readTwo_append {c : Conn} (h : c.feed.Clean) {a b : Bytes} (ha : a.length = 2)
    (hrest : c.feed.rest = a ++ b) (store : Conn → Bytes → Conn)
    (next : Conn → Bytes → Option (MuxRead × Conn)) :
    ∃ feed, c.readTwo store next = next (store (c.setFeed feed) a) a ∧ feed.Clean ∧
      feed.rest = b := by
  obtain ⟨feed, hread, hclean, hb⟩ := h.readFull_append .eof ha hrest
  refine ⟨feed, ?_, hclean, hb⟩
  unfold readTwo
  rw [hread]

theorem readTwo_end {c : Conn} (h : c.feed.Clean) (hrest : c.feed.rest = [])
    (store : Conn → Bytes → Conn) (next : Conn → Bytes → Option (MuxRead × Conn)) :
    c.readTwo store next = some (⟨[], some .eof⟩, store c []) := by
  have hnil := h.eq_nil hrest
  have hfeed : c.setFeed [] = c := by
    rw [← hnil]
    rfl
  unfold readTwo
  rw [hnil, Feed.readFull]
  dsimp only
  rw [hfeed]
  rfl

theorem readStatus_pair (again : Conn → Option (MuxRead × Conn)) (l : ℕ) (c : Conn)
    (opcode opts : UInt8) :
    readStatus again l c [opcode, opts] =
      if opcode = sessionStatusKeepAlive then again c
      else if opts ≠ optionData then again c
      else c.readTwo scratch fun c length => some ((c.setRemain (beNat length)).readPayload l) := rfl

def takeHeader (c : Conn) (id : Octets 2) (feed : Feed UInt8 MuxErr) : Conn :=
  { c.atHeader with id := id, feed := feed }

theorem readLoop_header {c : Conn} (h : c.feed.Clean) {f : Frame} (hextra : f.extra = [])
    {rest : Bytes} (hrest : c.feed.rest = f.encode ++ rest) (fuel l : ℕ) :
    ∃ feed, feed.Clean ∧ feed.rest = f.payloadBytes ++ rest ∧
      c.readLoop (fuel + 1) l = readStatus (fun c => readLoop fuel c l) l
        (c.takeHeader f.id feed) [f.status, f.opts] := by
  have hwire : c.atHeader.feed.rest =
      beBytes 2 4 ++ (f.id.1 ++ ([f.status, f.opts] ++ (f.payloadBytes ++ rest))) := by
    change c.feed.rest = _
    rw [hrest, Frame.encode, hextra]
    simp
  obtain ⟨feed₁, hlength, hclean₁, hrest₁⟩ := readTwo_append (c := c.atHeader) h (length_beBytes 2 4)
    hwire scratch (readMetadata (fun c => readLoop fuel c l) l)
  obtain ⟨feed₂, hid, hclean₂, hrest₂⟩ := readTwo_append (c := c.atHeader.setFeed feed₁) hclean₁
    f.id.2 hrest₁ storeId fun c _ => c.readTwo scratch (readStatus (fun c => readLoop fuel c l) l)
  obtain ⟨feed₃, hstatus, hclean₃, hrest₃⟩ := readTwo_append
    (c := c.takeHeader f.id feed₂) (a := [f.status, f.opts]) hclean₂ rfl hrest₂
    scratch (readStatus (fun c => readLoop fuel c l) l)
  have hstored : ((c.atHeader.setFeed feed₁).setFeed feed₂).storeId f.id.1 =
      c.takeHeader f.id feed₂ := by
    unfold storeId
    rw [Octets.ofBytes_append]
    rfl
  refine ⟨feed₃, hclean₃, hrest₃, ?_⟩
  rw [readLoop, hlength, readMetadata, if_neg (by decide)]
  rw [hstored] at hid
  exact hid.trans hstatus

/-- Where a connection stands in the stream of the frames: it has `cur` of a payload still to return
and then the frames `fs`. -/
structure Stands (c : Conn) (cur : Bytes) (fs : List Frame) : Prop where
  clean : c.feed.Clean
  rest : c.feed.rest = cur ++ wire fs
  remain : c.remain = cur.length

/-- The stream of `c` is past the beginning of the frame `f`. -/
def HasRead (c : Conn) (frames : List Frame) (f : Frame) : Prop :=
  ∃ fs, f :: fs <:+ frames ∧ c.feed.rest.length < (wire (f :: fs)).length

/-- What a `Read` does to a connection that stands in the stream of the frames: it stays in it, and
takes headers off only at the beginning of frames. -/
structure ReadsOn (c : Conn) (cur : Bytes) (fs : List Frame) (out : MuxRead) (c' : Conn) :
    Prop where
  sent : c'.sent = c.sent
  otb : c'.otb = c.otb
  id : c'.id = c.id ∨ ∃ f, c'.HasRead fs f ∧ c'.id = f.id
  headersAt : ∀ k ∈ c'.headersAt, k ∈ c.headersAt ∨ ∃ gs, gs <:+ fs ∧ k = (wire gs).length
  stands : ∃ cur' fs', fs' <:+ fs ∧ c'.Stands cur' fs' ∧
    cur ++ content fs = out.data ++ (cur' ++ content fs')
  le : c'.feed.rest.length ≤ c.feed.rest.length

variable {c c' : Conn} {cur : Bytes} {f : Frame} {fs : List Frame} {l : ℕ} {out : MuxRead}

section

variable (h : c.Stands cur fs)

include h

theorem Stands.read (l : ℕ) :
    ∃ cur', cur = (c.feed.read .eof (min c.remain l)).1.data ++ cur' ∧
      ((c.setFeed (c.feed.read .eof (min c.remain l)).2).setRemain
        (c.remain - (c.feed.read .eof (min c.remain l)).1.data.length)).Stands cur' fs ∧
      (cur ≠ [] → (c.feed.read .eof (min c.remain l)).1.err = none ∧
        (0 < l → (c.feed.read .eof (min c.remain l)).1.data ≠ [])) := by
  obtain ⟨hclean, hrest, hlen, hmore⟩ := h.clean.read_spec .eof (min c.remain l)
  generalize c.feed.read .eof (min c.remain l) = r at hclean hrest hlen hmore ⊢
  rw [h.rest] at hrest
  have hremain := h.remain
  obtain ⟨cur', hcur, hrest'⟩ := exists_append_of_length_le hrest (by omega)
  refine ⟨cur', hcur, ⟨hclean, hrest', ?_⟩, fun hne => ?_⟩
  · change c.remain - r.1.data.length = cur'.length
    rw [hremain, hcur, length_append]
    omega
  · have hrestNe : c.feed.rest ≠ [] := by
      rw [h.rest]
      exact fun hnil => hne (append_eq_nil_iff.mp hnil).1
    refine ⟨(hmore hrestNe).1, fun hl => (hmore hrestNe).2 ?_⟩
    have hpos := length_pos_of_ne_nil hne
    omega

theorem Stands.length_rest : c.feed.rest.length = cur.length + (wire fs).length := by
  simp [h.rest]

theorem readPayload_on (l : ℕ) : c.ReadsOn cur fs (c.readPayload l).1 (c.readPayload l).2 := by
  obtain ⟨cur', hcur, hstands, -⟩ := h.read l
  have hlen := hstands.length_rest
  have hcurLen := congrArg length hcur
  rw [length_append] at hcurLen
  refine ⟨rfl, rfl, .inl rfl, fun k hk => .inl hk, ⟨cur', fs, suffix_refl fs, hstands, ?_⟩, ?_⟩
  · rw [← append_assoc]
    exact congrArg (· ++ content fs) hcur
  · rw [h.length_rest]
    change ((c.setFeed _).setRemain _).feed.rest.length ≤ _
    omega

/-- In the middle of a payload there is no error, and a read with room gets something. -/
theorem readRemain_on (hne : cur ≠ []) (l : ℕ) :
    c.ReadsOn cur fs (c.readRemain l).1 (c.readRemain l).2 ∧
      (0 < l → (c.readRemain l).2.feed.rest.length < c.feed.rest.length) := by
  obtain ⟨cur', hcur, hstands, hmore⟩ := h.read l
  have hread : c.readRemain l = c.readPayload l := by
    unfold readRemain readPayload
    dsimp only
    rw [(hmore hne).1]
  rw [hread]
  refine ⟨readPayload_on h l, fun hl => ?_⟩
  have hlen := hstands.length_rest
  have hcurLen := congrArg length hcur
  have hpos := length_pos_of_ne_nil ((hmore hne).2 hl)
  rw [length_append] at hcurLen
  rw [h.length_rest]
  change ((c.setFeed _).setRemain _).feed.rest.length < _
  omega

end

theorem ReadsOn.frame {c₁ : Conn} (h : c₁.ReadsOn f.data fs out c') {feed : Feed UInt8 MuxErr}
    (hrest : c.feed.rest = wire (f :: fs)) (hless : feed.rest.length < c.feed.rest.length)
    (hstate : c₁.sent = c.sent ∧ c₁.otb = c.otb ∧ c₁.id = f.id ∧
      c₁.headersAt = c.headersAt ++ [c.feed.rest.length])
    (hfeed : c₁.feed.rest.length ≤ feed.rest.length) :
    c.ReadsOn [] (f :: fs) out c' ∧ c'.feed.rest.length < c.feed.rest.length := by
  obtain ⟨hsent, hotb, hid, hheaders⟩ := hstate
  have hlt : c'.feed.rest.length < c.feed.rest.length := Nat.lt_of_le_of_lt (h.le.trans hfeed) hless
  refine ⟨⟨h.sent.trans hsent, h.otb.trans hotb, .inr ?_, fun k hk => ?_, ?_, Nat.le_of_lt hlt⟩, hlt⟩
  · rcases h.id with hid' | ⟨g, ⟨gs, hgs, hread⟩, hid'⟩
    · exact ⟨f, ⟨fs, suffix_refl _, hrest ▸ hlt⟩, hid'.trans hid⟩
    · exact ⟨g, ⟨gs, hgs.trans (suffix_cons f fs), hread⟩, hid'⟩
  · rcases h.headersAt k hk with hk | ⟨gs, hgs, hlen⟩
    · rw [hheaders] at hk
      rcases mem_append.mp hk with hk | hk
      · exact .inl hk
      · refine .inr ⟨f :: fs, suffix_refl _, ?_⟩
        rw [mem_singleton.mp hk, hrest]
    · exact .inr ⟨gs, hgs.trans (suffix_cons f fs), hlen⟩
  · obtain ⟨cur', fs', hsuffix, hstands, hdata⟩ := h.stands
    exact ⟨cur', fs', hsuffix.trans (suffix_cons f fs), hstands, hdata⟩

theorem readLoop_on (hplain : ∀ f ∈ fs, f.Plain) (h : c.Stands [] fs) (fuel : ℕ)
    (hfuel : (wire fs).length < fuel) (l : ℕ) :
    ∃ out c', c.readLoop fuel l = some (out, c') ∧ c.ReadsOn [] fs out c' ∧
      (c'.feed.rest.length < c.feed.rest.length ∨ c.feed.rest = []) := by
  induction fs generalizing c fuel with
  | nil =>
    obtain ⟨fuel, rfl⟩ := Nat.exists_eq_succ_of_ne_zero (Nat.ne_of_gt hfuel)
    have hrest : c.feed.rest = [] := h.rest
    refine ⟨⟨[], some .eof⟩, c.atHeader, readTwo_end (c := c.atHeader) h.clean hrest scratch _,
      ⟨rfl, rfl, .inl rfl, fun k hk => ?_, ⟨[], [], suffix_refl _, ⟨h.clean, h.rest, h.remain⟩,
        rfl⟩, Nat.le_refl _⟩, .inr hrest⟩
    rcases mem_append.mp hk with hk | hk
    · exact .inl hk
    · refine .inr ⟨[], suffix_refl _, ?_⟩
      rw [mem_singleton.mp hk, hrest]
      rfl
  | cons f fs ih =>
    obtain ⟨fuel, rfl⟩ := Nat.exists_eq_succ_of_ne_zero (Nat.ne_of_gt (Nat.zero_lt_of_lt hfuel))
    have hf := hplain f mem_cons_self
    have hrest : c.feed.rest = f.encode ++ wire fs := h.rest
    obtain ⟨feed, hclean, hfeed, hloop⟩ := readLoop_header h.clean hf.1 hrest fuel l
    have hlen := hf.length_encode
    have hwire : (wire (f :: fs)).length = f.encode.length + (wire fs).length := by
      simp
    have hless : feed.rest.length < c.feed.rest.length := by
      rw [hfeed, hrest, length_append, length_append]
      omega
    rw [hloop]
    cases hpayload : f.payload with
    | none =>
      -- nothing follows the header, and the loop goes on
      have hempty : f.payloadBytes = [] := by rw [Frame.payloadBytes, hpayload]
      have hnodata : f.data = [] := by rw [Frame.data, hpayload]; rfl
      have hopts : f.opts ≠ optionData := by
        intro hopts
        have hflag := f.flagged
        rw [hpayload, hopts] at hflag
        cases hflag
      obtain ⟨out, c', hread, hon, -⟩ := ih (c := c.takeHeader f.id feed)
        (fun g hg => hplain g (mem_cons_of_mem f hg))
        ⟨hclean, by rw [hempty] at hfeed; exact hfeed, h.remain⟩ fuel (by omega)
      rw [← hnodata] at hon
      obtain ⟨hon, hlt⟩ := hon.frame hrest hless ⟨rfl, rfl, rfl, rfl⟩ (Nat.le_refl _)
      refine ⟨out, c', ?_, hon, .inl hlt⟩
      simpa [readStatus_pair, hopts] using hread
    | some d =>
      obtain ⟨hstatus, hopts⟩ := hf.2 (by rw [hpayload]; exact Option.some_ne_none d)
      have hbytes : feed.rest = beBytes 2 d.length ++ (d ++ wire fs) := by
        simp [hfeed, Frame.payloadBytes, hpayload]
      have hd : d.length ≤ 65535 := f.short d hpayload
      obtain ⟨feed', hlength, hclean', hfeed'⟩ := readTwo_append
        (c := c.takeHeader f.id feed) hclean (length_beBytes 2 d.length) hbytes
        scratch fun c length => some ((c.setRemain (beNat length)).readPayload l)
      rw [beNat_beBytes_of_lt (by omega)] at hlength
      have hdata : f.data = d := by rw [Frame.data, hpayload]; rfl
      have hstands : (((c.takeHeader f.id feed).setFeed feed').setRemain d.length).Stands d fs :=
        ⟨hclean', hfeed', rfl⟩
      have hon := readPayload_on hstands l
      rw [← hdata] at hon
      obtain ⟨hon, hlt⟩ := hon.frame hrest hless ⟨rfl, rfl, rfl, rfl⟩ (by
        change feed'.rest.length ≤ feed.rest.length
        rw [hfeed', hbytes]
        exact (suffix_append (beBytes 2 d.length) _).length_le)
      refine ⟨_, _, ?_, hon, .inl hlt⟩
      rw [readStatus_pair, if_neg hstatus, if_neg (not_not.mpr hopts), hlength, hdata]
      rfl

end Conn

end Outbound.Transport.Mux
