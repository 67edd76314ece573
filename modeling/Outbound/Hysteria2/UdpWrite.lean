import Outbound.Hysteria2.RoundTrip

/-! Sending one datagram over a Hysteria2 session: the serialization buffer, the datagram limit of
the QUIC connection and the two ways into fragmentation. -/
namespace Outbound.Hysteria2

open Lib List UDPMessage

structure UdpConn where
  id : UInt32
  sendBuf : Option ℕ
  closed : Bool

def UdpConn.new (id : UInt32) : UdpConn := ⟨id, some maxUDPSize, false⟩

/-- `SendDatagram` of a QUIC connection with datagram limit `M`: the datagrams handed over so far
grow by the new one, unless it is too large. -/
def sendDatagram (M : ℕ) (sent : List Bytes) (b : Bytes) : Option Error × List Bytes :=
  if b.length > M then (some (.datagramTooLarge M), sent) else (none, sent ++ [b])

def sendMessage (M buf : ℕ) (sent : List Bytes) (msg : UDPMessage) : Option Error × List Bytes :=
  match msg.serialize buf with
  | none => (some (.datagramTooLarge buf), sent)
  | some b => sendDatagram M sent b

def sendAll (M buf : ℕ) : List Bytes → List UDPMessage → Option Error × List Bytes
  | sent, [] => (none, sent)
  | sent, f :: fs =>
    match sendMessage M buf sent f with
    | (some err, sent) => (some err, sent)
    | (none, sent) => sendAll M buf sent fs

/-- What `WriteTo` returns, and the datagrams it handed to the connection. -/
structure Written where
  n : ℕ
  err : Option Error
  sent : List Bytes
deriving DecidableEq

variable (u : UdpConn)

def UdpConn.message (b addr : Bytes) (packetID : UInt16) : UDPMessage :=
  ⟨u.id, packetID, 0, 1, addr, b, none⟩

def Written.ofFragments (b : Bytes) : Option Error × List Bytes → Written
  | (some err, sent) => ⟨0, some err, sent⟩
  | (none, sent) => ⟨b.length, none, sent⟩

/-- The fragmenting half of `writeLocked`, after an error that names the limit `maxDataLen`. -/
def UdpConn.writeFragments (M buf : ℕ) (packetID : UInt16) (b addr : Bytes)
    (maxDataLen : ℤ) (sent : List Bytes) : Written :=
  match fragUDPMessage (u.message b addr packetID) maxDataLen with
  | .error err => ⟨0, some err, sent⟩
  | .ok fMsgs => .ofFragments b (sendAll M buf sent fMsgs)

/-- The first attempt of `writeLocked`: the whole message, if the serialization buffer holds it. -/
def UdpConn.tryWhole (M buf : ℕ) (b addr : Bytes) : Option Error × List Bytes :=
  let msg := u.message b addr 0
  if msg.size > buf then (some (.datagramTooLarge buf), []) else sendMessage M buf [] msg

def UdpConn.finishWrite (M buf : ℕ) (rnd : Fin 65535) (b addr : Bytes) :
    Option Error × List Bytes → Written
  | (some (.datagramTooLarge maxDataLen), sent) =>
    u.writeFragments M buf (.ofNat rnd + 1) b addr maxDataLen sent
  | (err, sent) => ⟨b.length, err, sent⟩

/-- Send `b` to `addr` over a connection with datagram limit `M`; `rnd` is the random number below
65535 that the packet id of the fragments is made from. -/
def UdpConn.writeTo (M : ℕ) (rnd : Fin 65535) (b addr : Bytes) : Written :=
  match u.closed, u.sendBuf with
  | false, some buf => u.finishWrite M buf rnd b addr (u.tryWhole M buf b addr)
  | _, _ => ⟨0, some (.sentinel .closed), []⟩

/-- The bytes of a message to `addr` in front of its data. -/
abbrev overhead (addr : Bytes) : ℕ := 8 + varintLen addr.length + addr.length

/-- The payload can be cut into one to 255 pieces whose messages all fit into `M` bytes. -/
def Splittable (M : ℕ) (b addr : Bytes) : Prop :=
  ∃ pieces : List Bytes, pieces ≠ [] ∧ pieces.length ≤ 255 ∧ pieces.flatten = b ∧
    ∀ p ∈ pieces, (mk 0 0 0 0 addr p none).size ≤ M

/-- The write succeeds, no datagram is over the limit, and the peer gets the payload and the
address back from the datagrams. -/
def UdpConn.Delivers (M : ℕ) (rnd : Fin 65535) (b addr : Bytes) : Prop :=
  (u.writeTo M rnd b addr).n = b.length ∧ (u.writeTo M rnd b addr).err = none ∧
    (∀ dg ∈ (u.writeTo M rnd b addr).sent, dg.length ≤ M) ∧
    ∃ (msgs : List UDPMessage) (packetID : UInt16), msgs ≠ [] ∧
      (u.writeTo M rnd b addr).sent.map parseUDPMessage = msgs.map .ok ∧
      (∀ f ∈ msgs, f.packetID = packetID) ∧ Reassembles msgs (u.message b addr packetID)

theorem length_flatten_le (pieces : List Bytes) {k : ℕ} (h : ∀ p ∈ pieces, p.length ≤ k) :
    pieces.flatten.length ≤ pieces.length * k := by
  induction pieces with
  | nil => simp
  | cons p pieces ih =>
    have hp := h p mem_cons_self
    have hps := ih fun q hq => h q (mem_cons_of_mem p hq)
    rw [flatten_cons, length_append, length_cons, Nat.succ_mul]
    omega

theorem Splittable.bounds {M : ℕ} {b addr : Bytes} (h : Splittable M b addr) (hb : 0 < b.length) :
    overhead addr < M ∧
      chunkCount (M - overhead addr) b.length ≤ 255 := by
  obtain ⟨pieces, -, hcount, rfl, hall⟩ := h
  obtain ⟨x, hx⟩ := exists_mem_of_length_pos hb
  obtain ⟨p, hp, hxp⟩ := mem_flatten.mp hx
  have hpos := length_pos_of_mem hxp
  have hsize : overhead addr + p.length ≤ M := hall p hp
  have hroom : overhead addr < M := by omega
  refine ⟨hroom, ?_⟩
  have hpieces : ∀ q ∈ pieces, q.length ≤ M - overhead addr := by
    intro q hq
    have hq' : overhead addr + q.length ≤ M := hall q hq
    omega
  have hlen := length_flatten_le pieces hpieces
  have hmul := Nat.mul_le_mul_right (M - overhead addr) hcount
  have hnot := (lt_chunkCount_iff (Nat.sub_pos_of_lt hroom) pieces.flatten.length 255).not
  omega

theorem splittable_of_bounds {M : ℕ} {b addr : Bytes} (hb : 0 < b.length)
    (hroom : overhead addr < M) (hn : chunkCount (M - overhead addr) b.length ≤ 255) :
    Splittable M b addr := by
  have hk := Nat.sub_pos_of_lt hroom
  have hpos := (lt_chunkCount_iff hk b.length 0).mpr (by omega)
  refine ⟨(range (chunkCount _ b.length)).map (chunk _ b), ?_, ?_, flatten_chunks hk b, ?_⟩
  · apply ne_nil_of_length_pos
    simpa using hpos
  · simpa using hn
  · intro p hp
    obtain ⟨j, hj, rfl⟩ := mem_map.mp hp
    have hle := length_chunk_le (M - overhead addr) b j
    change overhead addr + (chunk (M - overhead addr) b j).length ≤ M
    omega

section send

variable {M buf : ℕ} {sent : List Bytes}

theorem sendMessage_of_le {msg : UDPMessage} (hbuf : msg.size ≤ buf) (hM : msg.size ≤ M) :
    sendMessage M buf sent msg = (none, sent ++ [msg.encode]) := by
  have hlen := msg.length_encode
  unfold sendMessage serialize
  rw [if_neg (by omega)]
  simp only [sendDatagram]
  rw [if_neg (by omega)]

theorem sendMessage_of_lt {msg : UDPMessage} (hbuf : msg.size ≤ buf) (hM : M < msg.size) :
    sendMessage M buf sent msg = (some (.datagramTooLarge M), sent) := by
  have hlen := msg.length_encode
  unfold sendMessage serialize
  rw [if_neg (by omega)]
  simp only [sendDatagram]
  rw [if_pos (by omega)]

theorem sendAll_of_le (sent : List Bytes) (fs : List UDPMessage)
    (h : ∀ f ∈ fs, f.size ≤ buf ∧ f.size ≤ M) :
    sendAll M buf sent fs = (none, sent ++ fs.map encode) := by
  induction fs generalizing sent with
  | nil => simp [sendAll]
  | cons f fs ih =>
    obtain ⟨hbuf, hM⟩ := h f mem_cons_self
    have hfs := ih (sent ++ [f.encode]) fun g hg => h g (mem_cons_of_mem f hg)
    unfold sendAll
    simp [sendMessage_of_le hbuf hM, hfs]

end send

theorem Reassembles.map_wire {frags : List UDPMessage} {m : UDPMessage} (h : Reassembles frags m) :
    Reassembles (frags.map wire) m := by
  intro d ms last hfree hcopy hlast hall
  rw [length_map] at hfree
  apply h d ms last hfree _ hlast
  · intro f hf
    exact hall f.wire (mem_map_of_mem hf)
  · intro x hx
    obtain ⟨g, hg, hxg⟩ := hcopy x hx
    obtain ⟨f, hf, rfl⟩ := mem_map.mp hg
    exact ⟨f, hf, hxg⟩

namespace UdpConn

variable {id : UInt32} {M : ℕ} {rnd : Fin 65535} {b addr : Bytes}

theorem size_message (b addr : Bytes) (packetID : UInt16) :
    (u.message b addr packetID).size = overhead addr + b.length := rfl

theorem headerSize_message (b addr : Bytes) (packetID : UInt16) :
    (u.message b addr packetID).headerSize = overhead addr := rfl

theorem map_parse_encode (fs : List UDPMessage) (h : ∀ f ∈ fs, f.WellFormed) :
    (fs.map encode).map parseUDPMessage = (fs.map wire).map .ok := by
  rw [map_map, map_map]
  apply map_congr_left
  intro f hf
  exact parse_encode (h f hf)

theorem writeTo_new (id : UInt32) (M : ℕ) (rnd : Fin 65535) (b addr : Bytes) :
    (UdpConn.new id).writeTo M rnd b addr = (UdpConn.new id).finishWrite M maxUDPSize rnd b addr
      ((UdpConn.new id).tryWhole M maxUDPSize b addr) := rfl

theorem writeTo_over_buffer (hbuf : maxUDPSize < ((UdpConn.new id).message b addr 0).size) :
    (UdpConn.new id).writeTo M rnd b addr =
      (UdpConn.new id).writeFragments M maxUDPSize (.ofNat rnd + 1) b addr maxUDPSize [] := by
  have htry : (UdpConn.new id).tryWhole M maxUDPSize b addr =
      (some (.datagramTooLarge maxUDPSize), []) := by
    unfold tryWhole
    rw [if_pos (by omega)]
  rw [writeTo_new, htry]
  rfl

theorem delivers_of_fragments {limit : ℕ} (haddr : 0 < addr.length)
    (hmax : addr.length ≤ maxMessageLength) (hb : 0 < b.length) (hroom : overhead addr < limit)
    (hn : chunkCount (limit - overhead addr) b.length ≤ 255)
    (hbuf : limit ≤ maxUDPSize) (hM : limit ≤ M)
    (hwrite : (UdpConn.new id).writeTo M rnd b addr =
      (UdpConn.new id).writeFragments M maxUDPSize (.ofNat rnd + 1) b addr limit []) :
    (UdpConn.new id).Delivers M rnd b addr := by
  obtain ⟨frags, hok, hall, hdata, hrun⟩ := fragUDPMessage_spec
    ((UdpConn.new id).message b addr (.ofNat rnd + 1)) (Nat.sub_pos_of_lt hroom) hn
  have hsum : ((UdpConn.new id).message b addr (.ofNat rnd + 1)).headerSize +
      (limit - overhead addr) = limit := by
    rw [headerSize_message]
    omega
  rw [hsum] at hok hall hrun
  have hwf : ∀ f ∈ frags, f.WellFormed := by
    intro f hf
    obtain ⟨_, _, _, hfaddr, hne⟩ := hall f hf
    have hpos := length_pos_of_ne_nil (hne (ne_nil_of_length_pos hb))
    rw [UDPMessage.WellFormed, hfaddr]
    exact ⟨haddr, hmax, hpos⟩
  have hsend : sendAll M maxUDPSize [] frags = (none, [] ++ frags.map encode) := by
    apply sendAll_of_le
    intro f hf
    have hsize := (hall f hf).1
    omega
  rw [writeFragments, hok] at hwrite
  simp only [hsend, nil_append] at hwrite
  unfold Delivers
  rw [hwrite]
  refine ⟨rfl, rfl, ?_, frags.map wire, .ofNat rnd + 1, ?_, map_parse_encode frags hwf, ?_,
    (hrun fun _ => Nat.le_refl 1).map_wire⟩
  · intro dg hdg
    obtain ⟨f, hf, rfl⟩ := mem_map.mp hdg
    have hsize := (hall f hf).1
    rw [f.length_encode]
    omega
  · intro hnil
    rw [map_eq_nil_iff.mp hnil] at hdata
    have hempty : b = [] := hdata.symm
    rw [hempty] at hb
    cases hb
  · exact forall_mem_map.mpr fun f hf => (hall f hf).2.2.1

theorem delivers_of_whole (haddr : 0 < addr.length) (hmax : addr.length ≤ maxMessageLength)
    (hb : 0 < b.length) (hbuf : ((UdpConn.new id).message b addr 0).size ≤ maxUDPSize)
    (hM : ((UdpConn.new id).message b addr 0).size ≤ M) :
    (UdpConn.new id).Delivers M rnd b addr := by
  have htry : (UdpConn.new id).tryWhole M maxUDPSize b addr =
      (none, [((UdpConn.new id).message b addr 0).encode]) := by
    unfold tryWhole
    rw [if_neg (by omega), sendMessage_of_le hbuf hM]
    rfl
  unfold Delivers
  rw [writeTo_new, htry]
  refine ⟨rfl, rfl, ?_, [((UdpConn.new id).message b addr 0).wire], 0, by simp, ?_,
    by simp [wire, message], ?_⟩
  · intro dg hdg
    rwa [mem_singleton.mp hdg, length_encode]
  · exact map_parse_encode [(UdpConn.new id).message b addr 0] (by
      intro f hf
      rw [mem_singleton.mp hf]
      exact ⟨haddr, hmax, hb⟩)
  · exact (reassembles_single (Nat.le_refl 1)).map_wire

theorem Delivers.wellFormed {u : UdpConn} (h : u.Delivers M rnd b addr) :
    0 < addr.length ∧ addr.length ≤ maxMessageLength ∧ 0 < b.length := by
  obtain ⟨-, -, -, msgs, packetID, hne, hparse, -, hmsgs⟩ := h
  apply hmsgs.wellFormed hne
  intro f hf
  have hmem : Except.ok f ∈ (u.writeTo M rnd b addr).sent.map parseUDPMessage := by
    rw [hparse]
    exact mem_map_of_mem hf
  obtain ⟨dg, -, hdg⟩ := mem_map.mp hmem
  exact wellFormed_of_parse hdg

variable (hmax : addr.length ≤ maxMessageLength)

include hmax

theorem header_lt_maxUDPSize : overhead addr < maxUDPSize := by
  have hle := varintLen_le addr.length
  unfold maxMessageLength at hmax
  unfold maxUDPSize overhead
  omega

variable (hbuf : maxUDPSize < ((UdpConn.new id).message b addr 0).size)

include hbuf

/-- A message that the buffer cannot hold is cut for the buffer, whatever the limit of the
connection is: the first fragment is refused if that limit is smaller. -/
theorem writeTo_refused (hM : M < maxUDPSize)
    (hn : chunkCount (maxUDPSize - overhead addr) b.length ≤ 255) :
    (UdpConn.new id).writeTo M rnd b addr = ⟨0, some (.datagramTooLarge M), []⟩ := by
  have hheader := header_lt_maxUDPSize hmax
  have hk := Nat.sub_pos_of_lt hheader
  rw [size_message] at hbuf
  have hok := fragUDPMessage_eq ((UdpConn.new id).message b addr (.ofNat rnd + 1)) hk
    (by rw [headerSize_message, size_message]; omega) hn
  rw [headerSize_message, Nat.add_sub_cancel' (Nat.le_of_lt hheader)] at hok
  have hpos : 0 < chunkCount (maxUDPSize - overhead addr) b.length :=
    (lt_chunkCount_iff hk b.length 0).mpr (by omega)
  obtain ⟨n, hsucc⟩ := Nat.exists_eq_succ_of_ne_zero (Nat.ne_of_gt hpos)
  have hsize : (fragment ((UdpConn.new id).message b addr (.ofNat rnd + 1))
      (maxUDPSize - overhead addr) (n + 1) 0).size = maxUDPSize := by
    change overhead addr +
      (chunk (maxUDPSize - overhead addr) b 0).length = maxUDPSize
    rw [length_chunk]
    omega
  rw [writeTo_over_buffer hbuf, writeFragments, hok]
  change Written.ofFragments b (sendAll M maxUDPSize [] ((range (chunkCount _ b.length)).map
    (fragment _ _ (chunkCount _ b.length)))) = _
  rw [hsucc, range_succ_eq_map, map_cons, sendAll,
    sendMessage_of_lt (by rw [hsize]) (by rw [hsize]; exact hM)]
  rfl

/-- A message that would need more than 255 fragments of the size of the buffer is refused. -/
theorem writeTo_too_many
    (hn : 255 < chunkCount (maxUDPSize - overhead addr) b.length) :
    ((UdpConn.new id).writeTo M rnd b addr).err ≠ none := by
  have hheader := header_lt_maxUDPSize hmax
  have herr : ∃ err, fragUDPMessage ((UdpConn.new id).message b addr (.ofNat rnd + 1)) maxUDPSize =
      .error err := by
    rw [size_message] at hbuf
    unfold fragUDPMessage
    rw [if_neg (by rw [size_message]; omega), headerSize_message]
    have hsub : ((maxUDPSize : ℤ) - (overhead addr : ℤ)) =
        ((maxUDPSize - overhead addr : ℕ) : ℤ) := by omega
    simp only [hsub, Int.toNat_natCast]
    rw [if_neg (by omega), if_pos (by exact hn)]
    exact ⟨_, rfl⟩
  obtain ⟨err, herr⟩ := herr
  rw [writeTo_over_buffer hbuf, writeFragments, herr]
  exact Option.some_ne_none err

end UdpConn

/-- A payload that can be cut into fragments for the datagram limit `M` arrives exactly if it is not
empty, its address has 1 to 2048 bytes, and its message fits the serialization buffer, or the limit
is not below the size of that buffer and 255 fragments of it are enough. -/
theorem writeTo_delivers_iff (id : UInt32) (M : ℕ) (rnd : Fin 65535) (b addr : Bytes)
    (h : Splittable M b addr) :
    (UdpConn.new id).Delivers M rnd b addr ↔
      (0 < addr.length ∧ addr.length ≤ maxMessageLength ∧ 0 < b.length) ∧
      (overhead addr + b.length ≤ maxUDPSize ∨
        (maxUDPSize ≤ M ∧
          chunkCount (maxUDPSize - overhead addr) b.length ≤ 255)) := by
  by_cases hwf : 0 < addr.length ∧ addr.length ≤ maxMessageLength ∧ 0 < b.length
  swap
  · exact iff_of_false (fun hdel => hwf hdel.wellFormed) (fun hcond => hwf hcond.1)
  rw [and_iff_right hwf]
  obtain ⟨haddr, hmax, hb⟩ := hwf
  obtain ⟨hroom, hn⟩ := h.bounds hb
  have hsize : ((UdpConn.new id).message b addr 0).size =
      overhead addr + b.length := rfl
  by_cases hbuf : overhead addr + b.length ≤ maxUDPSize
  · refine iff_of_true ?_ (.inl hbuf)
    by_cases hM : ((UdpConn.new id).message b addr 0).size ≤ M
    · exact UdpConn.delivers_of_whole haddr hmax hb hbuf hM
    · apply UdpConn.delivers_of_fragments haddr hmax hb hroom hn (by omega) (Nat.le_refl M)
      have htry : (UdpConn.new id).tryWhole M maxUDPSize b addr =
          (some (.datagramTooLarge M), []) := by
        rw [← hsize] at hbuf
        unfold UdpConn.tryWhole
        rw [if_neg (by omega), sendMessage_of_lt hbuf (by omega)]
      rw [UdpConn.writeTo_new, htry]
      rfl
  · have hlarge : maxUDPSize < ((UdpConn.new id).message b addr 0).size := by omega
    by_cases hcount : chunkCount (maxUDPSize - overhead addr)
        b.length ≤ 255
    · by_cases hM : maxUDPSize ≤ M
      · refine iff_of_true ?_ (.inr ⟨hM, hcount⟩)
        exact UdpConn.delivers_of_fragments haddr hmax hb (UdpConn.header_lt_maxUDPSize hmax) hcount
          (Nat.le_refl _) hM (UdpConn.writeTo_over_buffer hlarge)
      · refine iff_of_false ?_ (by omega)
        intro hdel
        rw [UdpConn.Delivers, UdpConn.writeTo_refused hmax hlarge (by omega) hcount] at hdel
        cases hdel.2.1
    · refine iff_of_false ?_ (by omega)
      intro hdel
      exact UdpConn.writeTo_too_many hmax hlarge (by omega) hdel.2.1

theorem writeTo_delivers_iff_three_bytes : (UdpConn.new 9).Delivers 11 0 [1, 2, 3] [97] :=
  (writeTo_delivers_iff 9 11 0 [1, 2, 3] [97]
    (splittable_of_bounds (by decide) (by decide) (by decide))).mpr (by decide)

/-- Five thousand bytes could go out in five datagrams of 1200 bytes, but are cut for the
serialization buffer and refused. -/
theorem writeTo_refuses_fragmentable_payload :
    Splittable 1200 (replicate 5000 0) [97] ∧
      (UdpConn.new 9).writeTo 1200 0 (replicate 5000 0) [97] =
        ⟨0, some (.datagramTooLarge 1200), []⟩ := by
  have hlen : (replicate 5000 (0 : UInt8)).length = 5000 := length_replicate
  constructor
  · apply splittable_of_bounds
    · rw [hlen]
      decide
    · decide
    · rw [hlen]
      decide
  · apply UdpConn.writeTo_refused
    · decide
    · rw [UdpConn.size_message, hlen]
      decide
    · decide
    · rw [hlen]
      decide

end Outbound.Hysteria2
