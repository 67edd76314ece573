import Outbound.Vmess.Packet
import Outbound.Vmess.Stream

/-! Which datagrams a VMess connection carries, by single writes and in batches. -/
namespace Outbound.Vmess

open Lib List Writer Run

namespace Writer

variable {w : Writer} {b : Bytes}

theorem session_initWriteOnce (w : Writer) : w.initWriteOnce.2.session = w.session := by
  unfold initWriteOnce
  split_ifs <;> rfl

theorem write_udp (hopen : w.writeClosed = false) (hudp : w.session.network = .udp)
    (hb : b ≠ []) : w.write b = w.initWriteOnce.2.writePacket b w.initWriteOnce.1 := by
  simp [write, hopen, hb, session_initWriteOnce, hudp]

theorem writePacket_of_fits (h : FitsSize w.cipher w.codecs b) (preWrite : Option Bytes) :
    w.writePacket b preWrite = (⟨b.length, none, preWrite.getD [] ++ (sealPackets [b] w).1⟩,
      (sealPackets [b] w).2) := by
  have hle : ¬ b.length + w.cipher.overhead + w.codecs.maxPaddingLen.toNat > 0xffff := by
    unfold FitsSize at h
    omega
  simp [writePacket, hle, sealPackets]

theorem writePacket_of_not_fits (h : ¬ FitsSize w.cipher w.codecs b) (preWrite : Option Bytes) :
    ∃ err, w.writePacket b preWrite = (⟨0, some err, []⟩, w) := by
  have hgt : b.length + w.cipher.overhead + w.codecs.maxPaddingLen.toNat > 0xffff := by
    unfold FitsSize at h
    omega
  unfold writePacket
  rw [if_pos hgt]
  exact ⟨_, rfl⟩

theorem writeClosed_write_nil (w : Writer) : (w.write []).2.writeClosed = true := by
  by_cases hclosed : w.writeClosed = true
  · simp [write, hclosed]
  · simp only [write, hclosed, if_true, sealFromPool_snd]
    rfl

theorem fitsSize_sealPackets (ts : List Bytes) (w : Writer) (b : Bytes) :
    FitsSize (sealPackets ts w).2.cipher (sealPackets ts w).2.codecs b ↔
      FitsSize w.cipher w.codecs b := by
  simp only [sealPackets_snd, FitsSize, cipher, Codecs.maxPaddingLen_iterate]

def fitting (w : Writer) (ts : List Bytes) : List Bytes :=
  ts.filter fun t => FitsSize w.cipher w.codecs t

theorem write_of_initWrite (hinit : w.initWrite = true) (hopen : w.writeClosed = false)
    (hudp : w.session.network = .udp) (hb : b ≠ []) :
    ((w.write b).1.err = none ↔ FitsSize w.cipher w.codecs b) ∧
      (w.write b).1.sent = (sealPackets (w.fitting [b]) w).1 ∧
      (w.write b).2 = (sealPackets (w.fitting [b]) w).2 := by
  rw [write_udp hopen hudp hb, initWriteOnce_of_initWrite hinit]
  by_cases hfits : FitsSize w.cipher w.codecs b
  · rw [writePacket_of_fits hfits]
    simp [fitting, hfits]
  · obtain ⟨err, hrefused⟩ := writePacket_of_not_fits hfits none
    rw [hrefused]
    simp [fitting, hfits, sealPackets]

/-- Single writes on an initialised datagram connection seal the texts that fit and refuse the
others. -/
theorem run_udp_of_initWrite (hinit : w.initWrite = true) (hopen : w.writeClosed = false)
    (hudp : w.session.network = .udp) (ts : List Bytes) (hts : ∀ t ∈ ts, t ≠ []) :
    List.Forall₂ (fun t out => out.err = none ↔ FitsSize w.cipher w.codecs t) ts
        (answers write w ts) ∧
      w.emitted ts = (sealPackets (w.fitting ts) w).1 ∧
      exec write w ts = (sealPackets (w.fitting ts) w).2 := by
  induction ts generalizing w with
  | nil => exact ⟨.nil, rfl, rfl⟩
  | cons t ts ih =>
    obtain ⟨herr, hsent, hnext⟩ := write_of_initWrite hinit hopen hudp (hts t mem_cons_self)
    have hsame := sealPackets_snd (w.fitting [t]) w
    have hiff := fitsSize_sealPackets (w.fitting [t]) w
    rw [← hnext] at hsame hiff
    have hfitting : (w.write t).2.fitting = w.fitting := by
      funext us
      simp only [fitting, hiff]
    obtain ⟨herrs, hemitted, hexec⟩ := ih (w := (w.write t).2) (by rw [hsame]; exact hinit)
      (by rw [hsame]; exact hopen) (by rw [hsame]; exact hudp)
      fun t ht => hts t (mem_cons_of_mem _ ht)
    simp only [hiff] at herrs
    have hcons : w.fitting (t :: ts) = w.fitting [t] ++ w.fitting ts := filter_append [t] ts
    rw [hcons, sealPackets_append, ← hnext, ← hsent, ← hfitting]
    refine ⟨.cons herr herrs, ?_, ?_⟩
    · rw [← hemitted]
      rfl
    · rw [exec_cons, hexec]

/-- A batch is accepted when its texts fit with two bytes to spare. -/
def BatchFits (cipher : Aead) (c : Codecs) (b : Bytes) : Prop :=
  c.sizeBytes + b.length + cipher.overhead + c.maxPaddingLen.toNat ≤ 0xffff

theorem writePackets_eq (hopen : w.writeClosed = false) (datas : List Bytes)
    (h : ∀ d ∈ datas, BatchFits w.initWriteOnce.2.cipher w.initWriteOnce.2.codecs d) :
    w.writePackets datas = (⟨datas.length, none,
        w.initWriteOnce.1.getD [] ++ (sealPackets datas w.initWriteOnce.2).1⟩,
      (sealPackets datas w.initWriteOnce.2).2) := by
  unfold writePackets
  rw [if_neg (by simp [hopen])]
  dsimp only
  rw [find?_eq_none.mpr fun d hd => by simpa [BatchFits] using h d hd]

theorem writePackets_refused (hopen : w.writeClosed = false) {d : Bytes}
    (h : ¬ BatchFits w.initWriteOnce.2.cipher w.initWriteOnce.2.codecs d) :
    ∃ err, w.writePackets [d] = (⟨0, some err, []⟩, w.initWriteOnce.2) := by
  unfold writePackets
  rw [if_neg (by simp [hopen])]
  dsimp only
  rw [find?_singleton, if_pos (by simpa [BatchFits] using h)]
  exact ⟨_, rfl⟩

end Writer

/-- A datagram and the text of its address; `target` is what the text stands for. -/
structure Datagram where
  payload : Bytes
  addr : String
  target : AddrPort

/-- One direction of a datagram connection, with the same resolver and dial target at both ends. -/
structure Link where
  session : Session
  udp : session.network = .udp
  fromClient : Bool
  noise : ℕ → ℕ → UInt8
  dialTgt : String
  resolve : Resolver

namespace Link

variable (k : Link) (ts : List Bytes) (d : Datagram)

def sender : Sender := .new (.new k.session k.fromClient k.noise) k.dialTgt

def receiver (stream : Source UInt8) : Receiver :=
  .new (.new k.session (!k.fromClient) stream) k.dialTgt

def writer : Writer := { new k.session k.fromClient k.noise with initWrite := true }

def Names (addr : String) (target : AddrPort) : Prop :=
  target.addr ≠ .zero ∧ ∃ a, k.resolve addr = .ok a ∧ target = ⟨a.addr.unmap, a.port⟩

/-- The address of a datagram is its own in packet-addr mode, and otherwise that of the
connection. -/
def Addressed : Prop :=
  k.Names (if k.session.isPacketAddr then d.addr else k.dialTgt) d.target

def text : Bytes :=
  (if k.session.isPacketAddr then (putPacketAddr d.target).toOption.getD [] else []) ++ d.payload

def Fits : Prop := FitsSize k.writer.cipher k.writer.codecs (k.text d)

instance : Decidable (k.Fits d) := inferInstanceAs (Decidable (_ ≤ _))

def stream : Bytes :=
  (if ts = [] then [] else k.session.preamble k.fromClient) ++ (sealPackets ts k.writer).1

theorem initWriteOnce_new : (new k.session k.fromClient k.noise).initWriteOnce =
    (if k.fromClient then none else some (k.session.encryptRespHeader k.session.respHeader),
      k.writer) := by
  unfold writer
  cases k.fromClient <;> rfl

theorem getD_initWriteOnce_new :
    (new k.session k.fromClient k.noise).initWriteOnce.1.getD [] =
      k.session.preamble k.fromClient := by
  cases k.fromClient <;> rfl

theorem sealPackets_writer_isOpen : (sealPackets ts k.writer).2.writeClosed = false := by
  rw [sealPackets_snd]
  rfl

/-- Single writes on a new connection. On a server the first text has to fit: the response header
goes out with it. -/
theorem run_new (hts : ∀ t ∈ ts, t ≠ [])
    (hserver : k.fromClient = false → ∀ t ∈ ts, FitsSize k.writer.cipher k.writer.codecs t) :
    List.Forall₂ (fun t out => out.err = none ↔ FitsSize k.writer.cipher k.writer.codecs t) ts
        (answers write k.sender.writer ts) ∧
      k.sender.writer.emitted ts = k.stream (k.writer.fitting ts) ∧
      (exec write k.sender.writer ts).writeClosed = false := by
  obtain ⟨herrs, hemitted, hexec⟩ := run_udp_of_initWrite (w := k.writer) rfl rfl k.udp ts hts
  cases hclient : k.fromClient with
  | true =>
    have hsender : k.sender.writer = k.writer := by
      simp only [sender, Sender.new, writer, new, hclient]
    have hpre : k.session.preamble true = [] := rfl
    rw [hsender]
    refine ⟨herrs, ?_, ?_⟩
    · simp [hemitted, stream, hclient, hpre]
    · rw [hexec]
      exact k.sealPackets_writer_isOpen _
  | false =>
    have hfitting : k.writer.fitting ts = ts := by
      rw [fitting, filter_eq_self]
      intro t ht
      exact decide_eq_true (hserver hclient t ht)
    rw [hfitting] at hemitted hexec ⊢
    cases ts with
    | nil => exact ⟨.nil, rfl, rfl⟩
    | cons t ts =>
      have hfits := hserver hclient t mem_cons_self
      have hne := hts t mem_cons_self
      have hfirst := write_udp (w := k.sender.writer) rfl k.udp hne
      change _ = (new k.session k.fromClient k.noise).initWriteOnce.2.writePacket t
        (new k.session k.fromClient k.noise).initWriteOnce.1 at hfirst
      rw [initWriteOnce_new, writePacket_of_fits hfits, ← k.initWriteOnce_new] at hfirst
      have hsecond := write_udp (w := k.writer) rfl k.udp hne
      rw [initWriteOnce_of_initWrite rfl, writePacket_of_fits hfits] at hsecond
      -- The first write differs from that of an initialised writer in the response header only.
      simp only [emitted, answers, flatMap_cons, hsecond, exec_cons,
        Option.getD_none, nil_append] at herrs hemitted hexec
      simp only [emitted, answers, flatMap_cons, hfirst, exec_cons]
      refine ⟨?_, ?_, ?_⟩
      · cases herrs with
        | cons hhead htail => exact .cons (by simp [hfits]) htail
      · simp [hemitted, k.getD_initWriteOnce_new, stream]
      · rw [hexec]
        exact k.sealPackets_writer_isOpen _

end Link

theorem session_write {w : Writer} (hudp : w.session.network = .udp) (b : Bytes) :
    (w.write b).2.session = w.session := by
  by_cases hclosed : w.writeClosed = true
  · simp [write, hclosed]
  by_cases hb : b = []
  · simp only [write, hclosed, hb, if_true, sealFromPool_snd]
    exact w.session_initWriteOnce
  · rw [write_udp (by simpa using hclosed) hudp hb]
    by_cases hfits : FitsSize w.initWriteOnce.2.cipher w.initWriteOnce.2.codecs b
    · rw [writePacket_of_fits hfits, sealPackets_snd]
      exact w.session_initWriteOnce
    · obtain ⟨err, hrefused⟩ := writePacket_of_not_fits hfits w.initWriteOnce.1
      rw [hrefused]
      exact w.session_initWriteOnce

theorem session_writePackets (w : Writer) (datas : List Bytes) :
    (w.writePackets datas).2.session = w.session := by
  unfold writePackets
  split_ifs
  · rfl
  · dsimp only
    split
    · exact w.session_initWriteOnce
    · rw [sealPackets_snd]
      exact w.session_initWriteOnce

theorem exists_putPacketAddr {a : AddrPort} (h : a.addr ≠ .zero) :
    ∃ b, putPacketAddr a = .ok b ∧ b ≠ [] ∧ b.length ≤ 19 := by
  rcases a with ⟨_ | ip | ip, port⟩
  · exact absurd rfl h
  · exact ⟨_, rfl, by simp, by simp [ip.2]⟩
  · exact ⟨_, rfl, by simp, by simp [ip.2]⟩

theorem extractPacketAddr_append {a : AddrPort} {b : Bytes} (h : putPacketAddr a = .ok b)
    (p : Bytes) : extractPacketAddr (b ++ p) = .ok (b.length, a) := by
  have hfields {n : ℕ} (ip : Octets n) (port : UInt16) :
      Octets.ofBytes n (ip.1 ++ beBytes 2 port.toNat ++ p) = ip ∧
        UInt16.ofNat (beNat (((ip.1 ++ beBytes 2 port.toNat ++ p).drop n).take 2)) = port := by
    rw [append_assoc, Octets.ofBytes_append, drop_left' ip.2,
      take_left' (length_beBytes _ _), beNat_beBytes_of_lt port.toNat_lt, UInt16.ofNat_toNat]
    exact ⟨rfl, rfl⟩
  rcases a with ⟨_ | ip | ip, port⟩
  · simp [putPacketAddr] at h
  all_goals
    obtain rfl : _ = b := Except.ok.inj h
    obtain ⟨hip, hport⟩ := hfields ip port
    simp only [extractPacketAddr, cons_append, getD_cons_zero, length_cons, length_append, ip.2,
      length_beBytes, drop_succ_cons, drop_zero, hip, hport]
    simp

/-- The kept address of the dial target is the resolved one. -/
structure DialTarget.Keeps (k : Link) (d : DialTarget) : Prop where
  dialTgt : d.dialTgt = k.dialTgt
  addrPort : d.dialTgtAddrPort.isValid = true → ∃ a, k.resolve k.dialTgt = .ok a ∧
    d.dialTgtAddrPort = ⟨a.addr.unmap, a.port⟩

theorem DialTarget.dialTargetAddrPort_eq {k : Link} {d : DialTarget} (h : d.Keeps k)
    {target : AddrPort} (hn : k.Names k.dialTgt target) :
    ∃ d', d.dialTargetAddrPort k.resolve = (.ok target, d') ∧ d'.Keeps k := by
  obtain ⟨_, a, ha, rfl⟩ := hn
  by_cases hvalid : d.dialTgtAddrPort.isValid = true
  · obtain ⟨a', ha', haddr⟩ := h.addrPort hvalid
    obtain rfl : a = a' := Except.ok.inj (ha.symm.trans ha')
    refine ⟨d, ?_, h⟩
    rw [dialTargetAddrPort, if_pos hvalid, haddr]
  · refine ⟨{ d with dialTgtAddrPort := ⟨a.addr.unmap, a.port⟩ }, ?_, h.dialTgt, fun _ => ⟨a, ha, rfl⟩⟩
    rw [dialTargetAddrPort, if_neg hvalid, h.dialTgt, ha]

namespace Sender

/-- What a sender keeps between its writes agrees with the resolver. -/
structure Keeps (k : Link) (c : Sender) : Prop where
  session : c.writer.session = k.session
  target : c.target.Keeps k
  writeCache : ∀ entry, c.writeCache = some entry → ∃ a, k.resolve entry.1 = .ok a ∧
    entry.2 = ⟨a.addr.unmap, a.port⟩

variable {k : Link} {c : Sender}

section

variable (h : c.Keeps k)

include h

theorem writeTargetAddrPort_eq {addr : String} {target : AddrPort} (hn : k.Names addr target) :
    ∃ c', c.writeTargetAddrPort k.resolve addr = (.ok target, c') ∧ c'.writer = c.writer ∧
      c'.Keeps k := by
  by_cases hdial : addr = c.target.dialTgt
  · have hn' : k.Names k.dialTgt target := by rwa [← h.target.dialTgt, ← hdial]
    obtain ⟨d', hd', hkeeps⟩ := DialTarget.dialTargetAddrPort_eq h.target hn'
    refine ⟨{ c with target := d' }, ?_, rfl, h.session, hkeeps, h.writeCache⟩
    simp [writeTargetAddrPort, hdial, hd']
  · obtain ⟨_, a, ha, rfl⟩ := hn
    cases hcache : c.writeCache.filter (fun entry => entry.1 = addr) with
    | some entry =>
      obtain ⟨hentry, hkey⟩ := Option.filter_eq_some_iff.mp hcache
      obtain ⟨a', ha', hvalue⟩ := h.writeCache entry hentry
      rw [of_decide_eq_true hkey] at ha'
      obtain rfl : a = a' := Except.ok.inj (ha.symm.trans ha')
      refine ⟨c, ?_, rfl, h⟩
      simp [writeTargetAddrPort, hdial, hcache, hvalue]
    | none =>
      refine ⟨{ c with writeCache := some (addr, ⟨a.addr.unmap, a.port⟩) }, ?_, rfl, h.session,
        h.target, ?_⟩
      · simp [writeTargetAddrPort, hdial, hcache, ha]
      · intro entry hentry
        cases hentry
        exact ⟨a, ha, rfl⟩

theorem chunkText_eq {d : Datagram} (hd : k.Addressed d) :
    ∃ c', c.chunkText k.resolve d.payload d.addr = (.ok (k.text d), c') ∧ c'.writer = c.writer ∧
      c'.Keeps k := by
  unfold Link.Addressed at hd
  unfold chunkText Link.text
  rw [h.session]
  by_cases hmode : k.session.isPacketAddr = true
  · rw [if_pos hmode] at hd
    obtain ⟨c', hc', hwriter, hkeeps⟩ := writeTargetAddrPort_eq h hd
    obtain ⟨b, hb, _⟩ := exists_putPacketAddr hd.1
    refine ⟨c', ?_, hwriter, hkeeps⟩
    simp only [if_pos hmode, hc', hb]
    rfl
  · refine ⟨c, ?_, rfl, h⟩
    simp [hmode]

theorem writeTo_eq {d : Datagram} (hd : k.Addressed d) :
    ∃ c', c.writeTo k.resolve d.payload d.addr = ((c.writer.write (k.text d)).1, c') ∧
      c'.writer = (c.writer.write (k.text d)).2 ∧ c'.Keeps k := by
  obtain ⟨c', hc', hwriter, hkeeps⟩ := chunkText_eq h hd
  have hudp : c.writer.session.network = .udp := by rw [h.session, k.udp]
  refine ⟨{ c' with writer := (c.writer.write (k.text d)).2 }, ?_, rfl, ?_, hkeeps.target,
    hkeeps.writeCache⟩
  · simp only [writeTo, hc', hwriter]
  · rw [session_write hudp, h.session]

variable (ds : List Datagram)

theorem answers_writeTo (hds : ∀ d ∈ ds, k.Addressed d) :
    answers (fun c d => writeTo k.resolve c d.payload d.addr) c ds =
        answers write c.writer (ds.map k.text) ∧
      (exec (fun c d => writeTo k.resolve c d.payload d.addr) c ds).writer =
        exec write c.writer (ds.map k.text) := by
  induction ds generalizing c with
  | nil => exact ⟨rfl, rfl⟩
  | cons d ds ih =>
    obtain ⟨c', hc', hwriter, hkeeps⟩ := writeTo_eq h (hds d mem_cons_self)
    obtain ⟨hanswers, hexec⟩ := ih hkeeps (fun d hd => hds d (mem_cons_of_mem _ hd))
    rw [hwriter] at hanswers hexec
    simp [answers, exec_cons, hc', hanswers, hexec]

theorem chunkTexts_eq (hds : ∀ d ∈ ds, k.Addressed d) :
    ∃ c', c.chunkTexts k.resolve (ds.map fun d => (d.payload, d.addr)) = (.ok (ds.map k.text), c') ∧
      c'.writer = c.writer ∧ c'.Keeps k := by
  induction ds generalizing c with
  | nil => exact ⟨c, rfl, rfl, h⟩
  | cons d ds ih =>
    obtain ⟨c₁, hc₁, hwriter₁, hkeeps₁⟩ := chunkText_eq h (hds d mem_cons_self)
    obtain ⟨c₂, hc₂, hwriter₂, hkeeps₂⟩ := ih hkeeps₁ (fun d hd => hds d (mem_cons_of_mem _ hd))
    refine ⟨c₂, ?_, hwriter₂.trans hwriter₁, hkeeps₂⟩
    simp only [map_cons, chunkTexts, hc₁, hc₂]

theorem writeBatch_eq (hne : ds ≠ []) (hds : ∀ d ∈ ds, k.Addressed d) :
    ∃ c', c.writeBatch k.resolve (ds.map fun d => (d.payload, d.addr)) =
        ((c.writer.writePackets (ds.map k.text)).1, c') ∧
      c'.writer = (c.writer.writePackets (ds.map k.text)).2 ∧ c'.Keeps k := by
  obtain ⟨c', hc', hwriter, hkeeps⟩ := chunkTexts_eq h ds hds
  have hudp : c.writer.session.network = .udp := by rw [h.session, k.udp]
  refine ⟨{ c' with writer := (c.writer.writePackets (ds.map k.text)).2 }, ?_, rfl,
    (session_writePackets _ _).trans h.session, hkeeps.target, hkeeps.writeCache⟩
  simp [writeBatch, hne, hudp, hc', hwriter]

end

end Sender

namespace Reader

variable {w : Writer} {done : List Bytes}

/-- A reader between two chunks, `done` read and `todo` to come. -/
structure Awaits (w : Writer) (done todo : List Bytes) (r : Reader) : Prop where
  session : r.session = w.session
  peer : r.isClient = !w.isClient
  fresh : w.codecs = w.session.bodyCodecs w.isClient
  left : r.leftToRead = []
  codecs : r.codecs = (sealPackets done w).2.codecs
  standing : r.Standing w done todo

theorem init_awaits {todo : List Bytes} (hne : todo ≠ []) {r : Reader} (h : r.Awaits w done todo) :
    ∃ r', r.init = (none, r') ∧ r'.initRead = .ready ∧ r'.Awaits w done todo := by
  have hstanding := h.standing
  unfold Standing at hstanding
  cases hr : r.initRead with
  | pending =>
    rw [hr] at hstanding
    obtain ⟨rfl, hleft, hrest | ⟨htodo, _⟩⟩ := hstanding
    · rw [← h.session] at hrest
      obtain ⟨s', hinit, hrest'⟩ := init_append hr hrest
      refine ⟨_, hinit, rfl, h.session, h.peer, h.fresh, hleft, ?_, hrest'⟩
      change r.session.bodyCodecs (!r.isClient) = w.codecs
      simp [h.session, h.peer, h.fresh]
    · exact absurd htodo hne
  | ready => exact ⟨r, init_of_ne_pending (by simp [hr]), hr, h⟩
  | failed =>
    rw [hr] at hstanding
    exact absurd hstanding.1 hne

theorem read_awaits {ts : List Bytes} {t : Bytes} (hne : t ≠ [])
    (hfits : FitsSize w.cipher w.codecs t) {r : Reader} (h : r.Awaits w done (t :: ts)) {l : ℕ}
    (hl : t.length ≤ l) : ∃ r', r.read l = (⟨t, none⟩, r') ∧ r'.Awaits w (done ++ [t]) ts := by
  obtain ⟨r', hinit, hready, h'⟩ := init_awaits (by simp) h
  have hstanding := h'.standing
  simp only [Standing, hready] at hstanding
  obtain ⟨s', hread, hrest⟩ := readChunk_standing hne hfits hstanding
  refine ⟨{ r' with codecs := (sealPackets (done ++ [t]) w).2.codecs, stream := s' }, ?_,
    h'.session, h'.peer, h'.fresh, h'.left, rfl, ?_⟩
  · simp only [read, hinit, readReady, hready, h'.left, reduceCtorEq, if_false, ne_eq,
      not_true_eq_false, readNext, cipher_eq h'.session h'.peer, h'.codecs, hread]
    rw [if_neg (by omega)]
  · simp only [Standing, hready]
    exact hrest

end Reader

namespace Receiver

variable {k : Link}

theorem splitPacketAddr_append {a : AddrPort} {b : Bytes} (h : putPacketAddr a = .ok b)
    (hne : b ≠ []) (p : Bytes) : splitPacketAddr (b ++ p) = .ok p a := by
  unfold splitPacketAddr
  rw [if_neg (by simp [hne]), extractPacketAddr_append h]
  simp

theorem readFrom_eq {done ts : List Bytes} {d : Datagram} (hd : k.Addressed d)
    (hne : k.text d ≠ []) (hfits : k.Fits d) {c : Receiver}
    (h : c.reader.Awaits k.writer done (k.text d :: ts)) (hkeeps : c.target.Keeps k) {l : ℕ}
    (hl : (k.text d).length ≤ l) :
    ∃ c', c.readFrom k.resolve l = (.ok d.payload d.target, c') ∧
      c'.reader.Awaits k.writer (done ++ [k.text d]) ts ∧ c'.target.Keeps k := by
  obtain ⟨r', hread, h'⟩ := Reader.read_awaits hne hfits h hl
  have hsession : r'.session = k.session := h'.session
  unfold Link.Addressed at hd
  by_cases hmode : k.session.isPacketAddr = true
  · rw [if_pos hmode] at hd
    obtain ⟨b, hb, hbne, _⟩ := exists_putPacketAddr hd.1
    have htext : k.text d = b ++ d.payload := by
      unfold Link.text
      rw [if_pos hmode, hb]
      rfl
    refine ⟨{ c with reader := r' }, ?_, h', hkeeps⟩
    simp [readFrom, hread, hsession, hmode, htext, splitPacketAddr_append hb hbne]
  · rw [if_neg hmode] at hd
    obtain ⟨t', ht', hkeeps'⟩ := DialTarget.dialTargetAddrPort_eq hkeeps hd
    have htext : k.text d = d.payload := by
      unfold Link.text
      simp [hmode]
    refine ⟨{ reader := r', target := t' }, ?_, h', hkeeps'⟩
    simp only [readFrom, hread, hsession, hmode, withDialTarget, ht', htext]
    rfl

theorem answers_readFrom (done : List Bytes) (ds : List Datagram)
    (hds : ∀ d ∈ ds, k.Addressed d ∧ k.text d ≠ [] ∧ k.Fits d) {c : Receiver}
    (h : c.reader.Awaits k.writer done (ds.map k.text)) (hkeeps : c.target.Keeps k) (ls : List ℕ)
    (hls : List.Forall₂ (fun d l => (k.text d).length ≤ l) ds ls) :
    answers (readFrom k.resolve) c ls = ds.map (fun d => .ok d.payload d.target) := by
  induction hls generalizing done c with
  | nil => rfl
  | cons hl _ ih =>
    obtain ⟨hd, hne, hfits⟩ := hds _ mem_cons_self
    obtain ⟨c', hc', h', hkeeps'⟩ := readFrom_eq hd hne hfits h hkeeps hl
    simp [answers, hc', ih _ (fun d hd => hds d (mem_cons_of_mem _ hd)) h' hkeeps']

end Receiver

namespace Link

variable (k : Link)

/-- After a step that was given the datagram `d`, the connection still carries the datagram `e`. -/
structure Survives (d e : Datagram) (step : WriteOut × Sender) : Prop where
  accepts : step.1.err = none ↔ k.Fits d
  isOpen : step.2.writer.writeClosed = false
  goesOn : step.1.sent ++ (step.2.writeTo k.resolve e.payload e.addr).1.sent =
    k.stream (([d, e].filter (k.Fits ·)).map k.text)

/-- Single writes put the datagrams that fit on the stream, a batch of such datagrams puts the same
chunks there, no datagram stops those after it, and the peer gets what fits, in order and with
addresses. -/
structure Transparent (ds : List Datagram) : Prop where
  accepts : List.Forall₂ (fun d out => out.err = none ↔ k.Fits d) ds
    (answers (fun c d => Sender.writeTo k.resolve c d.payload d.addr) k.sender ds)
  sent : (answers (fun c d => Sender.writeTo k.resolve c d.payload d.addr) k.sender ds).flatMap
    WriteOut.sent = k.stream ((ds.filter (k.Fits ·)).map k.text)
  isOpen : (exec (fun c d => Sender.writeTo k.resolve c d.payload d.addr) k.sender
    ds).writer.writeClosed = false
  batch : (∀ d ∈ ds, k.Fits d) →
    (k.sender.writeBatch k.resolve (ds.map fun d => (d.payload, d.addr))).1 =
        ⟨ds.length, none, k.stream (ds.map k.text)⟩ ∧
      (k.sender.writeBatch k.resolve (ds.map fun d => (d.payload, d.addr))).2.writer.writeClosed =
        false
  survives : ∀ d ∈ ds, ∀ e, k.Addressed e → k.text e ≠ [] → k.Fits e →
    k.Survives d e (k.sender.writeTo k.resolve d.payload d.addr) ∧
      k.Survives d e (k.sender.writeBatch k.resolve [(d.payload, d.addr)])
  received : ∀ (stream : Source UInt8) (ls : List ℕ),
    stream.rest = k.stream ((ds.filter (k.Fits ·)).map k.text) →
    List.Forall₂ (fun d l => (k.text d).length ≤ l) (ds.filter (k.Fits ·)) ls →
    answers (Receiver.readFrom k.resolve) (k.receiver stream) ls =
      (ds.filter (k.Fits ·)).map (fun d => .ok d.payload d.target)

/-- The chunk has a text, and is within the limit of a batch where it is within that of a single
write; and on a server, whose header waits for the first chunk, it fits. -/
structure Carries (d : Datagram) : Prop where
  nonempty : k.text d ≠ []
  batch : k.Fits d → Writer.BatchFits k.writer.cipher k.writer.codecs (k.text d)
  server : k.fromClient = false → k.Fits d

theorem dialTarget_keeps : (DialTarget.new k.dialTgt).Keeps k :=
  ⟨rfl, fun h => by simp [DialTarget.new, AddrPort.isValid, AddrPort.zero] at h⟩

theorem sender_keeps : k.sender.Keeps k :=
  ⟨rfl, k.dialTarget_keeps, fun _ h => by simp [sender, Sender.new] at h⟩

variable {ds : List Datagram}

theorem run_sender (hds : ∀ d ∈ ds, k.Addressed d)
    (hcarries : ∀ d ∈ ds, k.text d ≠ [] ∧ (k.fromClient = false → k.Fits d)) :
    List.Forall₂ (fun d out => out.err = none ↔ k.Fits d) ds
        (answers (fun c d => Sender.writeTo k.resolve c d.payload d.addr) k.sender ds) ∧
      (answers (fun c d => Sender.writeTo k.resolve c d.payload d.addr) k.sender ds).flatMap
        WriteOut.sent = k.stream ((ds.filter (k.Fits ·)).map k.text) ∧
      (exec (fun c d => Sender.writeTo k.resolve c d.payload d.addr) k.sender
        ds).writer.writeClosed = false := by
  obtain ⟨hanswers, hexec⟩ := Sender.answers_writeTo k.sender_keeps ds hds
  obtain ⟨herrs, hemitted, hopen⟩ := k.run_new (ds.map k.text)
    (forall_mem_map.mpr fun d hd => (hcarries d hd).1)
    fun hclient => forall_mem_map.mpr fun d hd => (hcarries d hd).2 hclient
  rw [fitting, filter_map] at hemitted
  rw [forall₂_map_left_iff] at herrs
  rw [hanswers, hexec]
  exact ⟨herrs, hemitted, hopen⟩

theorem writeBatch_sender (ds : List Datagram) (hds : ∀ d ∈ ds, k.Addressed d)
    (hfits : ∀ d ∈ ds, Writer.BatchFits k.writer.cipher k.writer.codecs (k.text d)) (hne : ds ≠ []) :
    ∃ c', k.sender.writeBatch k.resolve (ds.map fun d => (d.payload, d.addr)) =
        (⟨ds.length, none, k.stream (ds.map k.text)⟩, c') ∧
      c'.writer = (sealPackets (ds.map k.text) k.writer).2 ∧ c'.Keeps k := by
  obtain ⟨c', hc', hwriter, hkeeps⟩ := Sender.writeBatch_eq k.sender_keeps ds hne hds
  have hpackets : k.sender.writer.writePackets (ds.map k.text) =
      (⟨ds.length, none, k.stream (ds.map k.text)⟩,
        (sealPackets (ds.map k.text) k.writer).2) := by
    have hinit := k.initWriteOnce_new
    have heq := writePackets_eq (w := new k.session k.fromClient k.noise) rfl
      (ds.map k.text) (by
        rw [hinit]
        exact forall_mem_map.mpr hfits)
    rw [k.getD_initWriteOnce_new, hinit, length_map] at heq
    rwa [stream, if_neg (by simpa using hne)]
  rw [hpackets] at hc' hwriter
  exact ⟨c', hc', hwriter, hkeeps⟩

theorem writeTo_sent {c : Sender} (hkeeps : c.Keeps k) (ts : List Bytes)
    (hwriter : c.writer = (sealPackets ts k.writer).2) {e : Datagram} (he : k.Addressed e)
    (hne : k.text e ≠ []) (hfits : k.Fits e) :
    (c.writeTo k.resolve e.payload e.addr).1.sent = (sealPackets [k.text e] c.writer).1 := by
  obtain ⟨c', hc', _⟩ := Sender.writeTo_eq hkeeps he
  have hinit : c.writer.initWrite = true := by
    rw [hwriter, sealPackets_snd]
    rfl
  have hopen : c.writer.writeClosed = false := by
    rw [hwriter]
    exact k.sealPackets_writer_isOpen ts
  have hfits' : FitsSize c.writer.cipher c.writer.codecs (k.text e) := by
    rwa [hwriter, fitsSize_sealPackets]
  rw [hc', write_udp hopen (by rw [hkeeps.session, k.udp]) hne,
    initWriteOnce_of_initWrite hinit, writePacket_of_fits hfits']
  rfl

variable {d : Datagram}

/-- On a new connection a datagram that fits neither way leaves the writer as it was, but for the
response header that is gone. -/
theorem writeBatch_refused (hd : k.Addressed d)
    (h : ¬ Writer.BatchFits k.writer.cipher k.writer.codecs (k.text d)) :
    ∃ err c', k.sender.writeBatch k.resolve [(d.payload, d.addr)] = (⟨0, some err, []⟩, c') ∧
      c'.writer = k.writer ∧ c'.Keeps k := by
  obtain ⟨c', hc', hwriter, hkeeps⟩ := Sender.writeBatch_eq k.sender_keeps [d] (by simp)
    (by simpa using hd)
  have hinit := k.initWriteOnce_new
  obtain ⟨err, hrefused⟩ := writePackets_refused
    (w := new k.session k.fromClient k.noise) (d := k.text d) rfl (by rw [hinit]; exact h)
  rw [hinit] at hrefused
  change k.sender.writer.writePackets [k.text d] = _ at hrefused
  simp only [map_singleton, hrefused] at hc' hwriter
  exact ⟨err, c', hc', hwriter, hkeeps⟩

theorem survives_writeBatch {e : Datagram} (hd : k.Addressed d) (hcarries : k.Carries d)
    (he : k.Addressed e) (hne : k.text e ≠ []) (hfits : k.Fits e) :
    k.Survives d e (k.sender.writeBatch k.resolve [(d.payload, d.addr)]) := by
  by_cases hd' : k.Fits d
  · obtain ⟨c', hc', hwriter, hkeeps⟩ := k.writeBatch_sender [d] (by simpa using hd)
      (by simpa using hcarries.batch hd') (by simp)
    rw [map_singleton] at hc' hwriter
    rw [hc']
    refine ⟨by simp [hd'], ?_, ?_⟩
    · rw [hwriter]
      exact k.sealPackets_writer_isOpen _
    · have happend := sealPackets_append [k.text d] [k.text e] k.writer
      have hfilter : [d, e].filter (k.Fits ·) = [d, e] := by simp [hd', hfits]
      rw [k.writeTo_sent hkeeps _ hwriter he hne hfits, hwriter, hfilter]
      simp only [stream, map_cons, map_nil, reduceCtorEq, if_false, append_assoc]
      rw [← singleton_append (x := k.text d) (l := [k.text e]), happend]
  · have hclient : k.fromClient = true := by
      cases hc : k.fromClient with
      | true => rfl
      | false => exact absurd (hcarries.server hc) hd'
    obtain ⟨err, c', hc', hwriter, hkeeps⟩ :=
      k.writeBatch_refused hd fun h => hd' (by
        unfold Writer.BatchFits at h
        unfold Fits FitsSize
        omega)
    have hfilter : [d, e].filter (k.Fits ·) = [e] := by simp [hd', hfits]
    have hpre : k.session.preamble true = [] := rfl
    rw [hc']
    refine ⟨by simp [hd'], by rw [hwriter]; rfl, ?_⟩
    simp [k.writeTo_sent hkeeps [] hwriter he hne hfits, hwriter, hfilter, stream, hclient, hpre]

theorem survives_writeTo {e : Datagram} (hd : k.Addressed d) (hcarries : k.Carries d)
    (he : k.Addressed e) (hne : k.text e ≠ []) (hfits : k.Fits e) :
    k.Survives d e (k.sender.writeTo k.resolve d.payload d.addr) := by
  have hcarry := And.intro hcarries.nonempty hcarries.server
  obtain ⟨haccepts, _, hopen⟩ := k.run_sender (forall_mem_singleton.mpr hd)
    (forall_mem_singleton.mpr hcarry)
  obtain ⟨_, hsent, _⟩ := k.run_sender (forall_mem_cons.mpr ⟨hd, forall_mem_singleton.mpr he⟩)
    (forall_mem_cons.mpr ⟨hcarry, forall_mem_singleton.mpr ⟨hne, fun _ => hfits⟩⟩)
  simp only [answers, forall₂_cons, List.Forall₂.nil, and_true] at haccepts
  simp only [answers, flatMap_cons, flatMap_nil, append_nil] at hsent
  exact ⟨haccepts, hopen, hsent⟩

theorem receiver_awaits {stream : Source UInt8} {ts : List Bytes} (hne : ts ≠ [])
    (hstream : stream.rest = k.stream ts) : (k.receiver stream).reader.Awaits k.writer [] ts := by
  rw [Link.stream, if_neg hne] at hstream
  refine ⟨rfl, rfl, rfl, rfl, ?_, ?_⟩
  · change k.session.bodyCodecs (!!k.fromClient) = k.session.bodyCodecs k.fromClient
    simp
  · unfold Reader.Standing
    cases hclient : k.fromClient <;> rw [hclient] at hstream <;>
      simp only [receiver, Receiver.new, Reader.new, hclient]
    · exact ⟨trivial, trivial, .inl hstream⟩
    · exact hstream

def probe (d : Datagram) : Datagram := ⟨[0], d.addr, d.target⟩

theorem probe_carried (hd : k.Addressed d) :
    k.Addressed (probe d) ∧ k.text (probe d) ≠ [] ∧ k.Fits (probe d) := by
  have hpad := k.writer.codecs.toNat_maxPaddingLen_le
  refine ⟨hd, by simp [text, probe], ?_⟩
  unfold Fits FitsSize text
  rw [overhead_cipher, length_append]
  split_ifs with hmode
  · unfold Addressed at hd
    rw [if_pos hmode] at hd
    obtain ⟨b, hb, _, hlen⟩ := exists_putPacketAddr hd.1
    simp only [probe, hb, Except.toOption, Option.getD_some, length_singleton]
    omega
  · simp only [probe, length_nil, length_singleton]
    omega

theorem carries_of_transparent (h : k.Transparent ds)
    (hmem : d ∈ ds) (hd : k.Addressed d) : k.Carries d := by
  obtain ⟨he, hne, hfits⟩ := k.probe_carried hd
  obtain ⟨hsingle, hbatch⟩ := h.survives d hmem (probe d) he hne hfits
  obtain ⟨c', hc', hwriter, hkeeps⟩ := Sender.writeTo_eq k.sender_keeps hd
  rw [hc'] at hsingle
  have hnonempty : k.text d ≠ [] := by
    intro hnil
    have hopen : c'.writer.writeClosed = false := hsingle.isOpen
    rw [hwriter, hnil, writeClosed_write_nil] at hopen
    cases hopen
  refine ⟨hnonempty, fun hd' => ?_, fun hclient => ?_⟩
  · by_contra hlimit
    obtain ⟨err, c', hc', _⟩ := k.writeBatch_refused hd hlimit
    rw [hc'] at hbatch
    cases hbatch.accepts.mpr hd'
  · by_contra hd'
    obtain ⟨err, hrefused⟩ := writePacket_of_not_fits hd'
      (new k.session k.fromClient k.noise).initWriteOnce.1
    have hwrite := write_udp (w := new k.session k.fromClient k.noise) rfl k.udp
      hnonempty
    rw [k.initWriteOnce_new] at hwrite hrefused
    rw [hrefused] at hwrite
    change k.sender.writer.write (k.text d) = _ at hwrite
    rw [hwrite] at hsingle hwriter
    change c'.writer = k.writer at hwriter
    have hsent := congrArg length hsingle.goesOn
    have hfilter : [d, probe d].filter (k.Fits ·) = [probe d] := by simp [hd', hfits]
    have hpos : 0 < (k.session.preamble k.fromClient).length := by
      rw [Session.preamble, hclient, if_neg (by decide), Session.encryptRespHeader, length_append,
        Aead.length_seal, length_beBytes]
      omega
    -- The header that the refused datagram took along is missing in front of the next one.
    rw [k.writeTo_sent hkeeps [] hwriter he hne hfits, hwriter, hfilter, nil_append,
      map_singleton, stream, if_neg (by simp), length_append] at hsent
    omega

end Link

/-- A connection carries a list of datagrams transparently, one by one and in a batch, if and only
if the chunk of each is not empty, is within the limit of a batch where it is within that of a
single write, and fits where the response header waits for it. -/
theorem vmess_datagrams_transparent_iff (k : Link) (ds : List Datagram)
    (hds : ∀ d ∈ ds, k.Addressed d) : k.Transparent ds ↔ ∀ d ∈ ds, k.Carries d := by
  constructor
  · intro h d hmem
    exact k.carries_of_transparent h hmem (hds d hmem)
  · intro h
    obtain ⟨haccepts, hsent, hopen⟩ :=
      k.run_sender hds (fun d hd => ⟨(h d hd).nonempty, (h d hd).server⟩)
    refine ⟨haccepts, hsent, hopen, ?_, ?_, ?_⟩
    · intro hfits
      by_cases hne : ds = []
      · subst hne
        exact ⟨rfl, rfl⟩
      · obtain ⟨c', hc', hwriter, _⟩ :=
          k.writeBatch_sender ds hds (fun d hd => (h d hd).batch (hfits d hd)) hne
        rw [hc']
        refine ⟨rfl, ?_⟩
        rw [hwriter]
        exact k.sealPackets_writer_isOpen _
    · intro d hmem e he hne hfits
      exact ⟨k.survives_writeTo (hds d hmem) (h d hmem) he hne hfits,
        k.survives_writeBatch (hds d hmem) (h d hmem) he hne hfits⟩
    · intro stream ls hstream hls
      by_cases hne : ds.filter (k.Fits ·) = []
      · rw [hne] at hls ⊢
        cases hls
        rfl
      · apply Receiver.answers_readFrom [] _ _ (k.receiver_awaits (by simpa using hne) hstream)
          k.dialTarget_keeps ls hls
        intro d hd
        obtain ⟨hmem, hfits⟩ := mem_filter.mp hd
        exact ⟨hds d hmem, (h d hmem).nonempty, of_decide_eq_true hfits⟩

theorem length_sampleIp : ([9, 9, 9, 9] : Bytes).length = 4 := rfl

def sampleLink : Link where
  session := sampleSession .udp
  udp := rfl
  fromClient := true
  noise _ _ := 0
  dialTgt := "9.9.9.9:53"
  resolve _ := .ok ⟨.v4 ⟨[9, 9, 9, 9], length_sampleIp⟩, 53⟩

def sampleDatagram (payload : Bytes) : Datagram :=
  ⟨payload, "9.9.9.9:53", ⟨.v4 ⟨[9, 9, 9, 9], length_sampleIp⟩, 53⟩⟩

theorem vmess_datagrams_transparent_iff_two :
    sampleLink.Transparent [sampleDatagram [1, 2], sampleDatagram [3]] := by
  apply (vmess_datagrams_transparent_iff sampleLink _ ?_).mpr
  · intro d hd
    simp only [mem_cons, not_mem_nil, or_false] at hd
    rcases hd with rfl | rfl <;>
      exact ⟨by decide, fun _ => by unfold Writer.BatchFits; decide, fun h => absurd h (by decide)⟩
  · intro d hd
    simp only [mem_cons, not_mem_nil, or_false] at hd
    rcases hd with rfl | rfl <;> exact ⟨by simp [sampleDatagram], _, rfl, rfl⟩

theorem readFrom_empty {k : Link} {stream : Source UInt8} (hclient : k.fromClient = true)
    (hstream : stream.rest = (sealPackets [[]] k.writer).1) (l : ℕ) :
    ((k.receiver stream).readFrom k.resolve l).1 = .fail (.sentinel .eof) := by
  have hread := readChunk_sealChunk_nil hstream
  have hcipher : (k.receiver stream).reader.cipher = k.writer.cipher := Reader.cipher_eq rfl rfl
  have hcodecs : (k.receiver stream).reader.codecs = k.writer.codecs := by
    change k.session.bodyCodecs (!!k.fromClient) = k.session.bodyCodecs k.fromClient
    simp
  have hready : (k.receiver stream).reader.initRead = .ready := by
    simp only [Link.receiver, Receiver.new, Reader.new, hclient]
    rfl
  have hout : ((k.receiver stream).reader.read l).1 = ⟨[], some (.sentinel .eof)⟩ := by
    rw [Reader.read, Reader.init_of_ne_pending (by simp [hready])]
    simp only [Reader.readReady, hready, reduceCtorEq, if_false, Reader.readNext, hcipher, hcodecs]
    rw [if_neg (by simp [Link.receiver, Receiver.new, Reader.new])]
    change (readChunk k.writer.cipher k.writer.codecs (k.receiver stream).reader.stream).1 = _ at hread
    rcases hchunk : readChunk k.writer.cipher k.writer.codecs (k.receiver stream).reader.stream with
      ⟨res, c, s⟩
    rw [hchunk] at hread
    obtain rfl : res = _ := hread
    rfl
  simp only [Receiver.readFrom, hout]

/-- The empty datagram fits. Written singly, it closes the writing half; written in a batch, it ends
the session of the peer. -/
theorem empty_datagram_ends_session :
    sampleLink.Fits (sampleDatagram []) ∧
      ((sampleLink.sender.writeTo sampleLink.resolve [] "9.9.9.9:53").2.writeTo sampleLink.resolve [1]
        "9.9.9.9:53").1 = ⟨0, some (.sentinel .closed), []⟩ ∧
      ((sampleLink.receiver (.ofList (sampleLink.sender.writeBatch sampleLink.resolve
        [([], "9.9.9.9:53")]).1.sent)).readFrom sampleLink.resolve 2048).1 = .fail (.sentinel .eof) := by
  refine ⟨by decide, by rfl, ?_⟩
  apply readFrom_empty rfl
  rfl

end Outbound.Vmess
