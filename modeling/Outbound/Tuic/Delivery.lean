import Outbound.Tuic.RoundTrip

/-! Fragmented TUIC datagrams over whole runs of an association: what the sender cuts, the receiver
puts together again. -/
namespace Outbound.Tuic

open Lib List PacketConn Run

/-- What reaches the caller when a datagram is complete; a caller's buffer that is too small gets
an error with the address. -/
def Path.outcome (payload : Bytes) (addr : AddrPort) : Path → Outcome
  | .push => .handed ⟨payload, addr, none⟩
  | .pull p => .returned (copyOut payload addr p)

def Path.cap : Path → ℕ
  | .push => 0
  | .pull p => p

variable (c : Packet Address)

/-- The arrival is a fragment under the packet id `id`. -/
def Arrival.Own (id : UInt16) (a : Arrival) : Prop :=
  a.packet.packet.pktID = id ∧ ¬ a.packet.packet.fragTotal ≤ 1

instance (id : UInt16) (a : Arrival) : Decidable (a.Own id) := by
  unfold Arrival.Own
  infer_instance

/-- The fragment ids delivered under `id`, in order. -/
def ownIds (id : UInt16) (as : List Arrival) : List ℕ :=
  (as.filter fun a => a.Own id).map fun a => a.packet.packet.fragID.toNat

namespace PacketConn

def sets (q : PacketConn) (id : UInt16) : List DeFragger := (q.loadBucket id).deFraggers

/-- The cleanup at `nowNano` does not evict the oldest set under `id`. -/
def Spares (id : UInt16) (q : PacketConn) (nowNano : ℤ) : Prop :=
  ((q.maybeCleanupDeFraggers nowNano).sets id).head? = (q.sets id).head?

/-- No arrival of the run evicts the oldest set under `id`. -/
def Undisturbed (pool : Pool) (id : UInt16) : PacketConn → List Arrival → Prop
  | _, [] => True
  | q, a :: as =>
    (¬ a.packet.packet.fragTotal ≤ 1 → Spares id q a.nowNano) ∧
      Undisturbed pool id (q.step pool a).2 as

instance (id : UInt16) (q : PacketConn) (nowNano : ℤ) : Decidable (Spares id q nowNano) :=
  inferInstanceAs (Decidable (_ = _))

instance decidableUndisturbed (pool : Pool) (id : UInt16) :
    ∀ (q : PacketConn) (as : List Arrival), Decidable (Undisturbed pool id q as)
  | _, [] => .isTrue trivial
  | q, a :: as =>
    have := decidableUndisturbed pool id (q.step pool a).2 as
    inferInstanceAs (Decidable (_ ∧ _))

theorem undisturbed_append (pool : Pool) (id : UInt16) (q : PacketConn) (as bs : List Arrival) :
    Undisturbed pool id q (as ++ bs) ↔
      Undisturbed pool id q as ∧ Undisturbed pool id (exec (step pool) q as) bs := by
  induction as generalizing q with
  | nil => simp [Undisturbed]
  | cons a as ih =>
    simp [Undisturbed, ih, exec_cons, and_assoc]

theorem closed_cleanup (q : PacketConn) (nowNano : ℤ) :
    (q.maybeCleanupDeFraggers nowNano).closed = q.closed := by
  unfold maybeCleanupDeFraggers
  split_ifs <;> rfl

theorem sets_cleanup (q : PacketConn) (nowNano : ℤ) (id : UInt16) :
    (q.maybeCleanupDeFraggers nowNano).sets id = q.sets id ∨
      (q.maybeCleanupDeFraggers nowNano).sets id =
        (q.sets id).filter fun d => !d.isExpired nowNano deFraggerIdleTimeout := by
  unfold maybeCleanupDeFraggers
  split_ifs with hidle hrecent
  · exact .inl rfl
  · exact .inl rfl
  · right
    unfold sets loadBucket
    simp only
    cases q.deFraggers id with
    | none => rfl
    | some b =>
      simp only [Option.bind_some, DeFraggerBucket.pruneExpired, if_neg hidle, Option.getD_some]
      split_ifs with hnil
      · rw [hnil]
        rfl
      · rfl

theorem waiting_cleanup {F : Flow} {ids : List ℕ} {q : PacketConn} {nowNano : ℤ}
    (h : Waiting F ids (q.sets F.pktID)) (hspares : Spares F.pktID q nowNano) :
    Waiting F ids ((q.maybeCleanupDeFraggers nowNano).sets F.pktID) := by
  unfold Spares at hspares
  rcases sets_cleanup q nowNano F.pktID with heq | heq
  · rwa [heq]
  rw [heq] at hspares ⊢
  rcases h with ⟨rfl, hds⟩ | ⟨d, rest, hds, h⟩
  · rw [hds]
    exact .inl ⟨rfl, rfl⟩
  rw [hds, head?_cons] at hspares
  rw [hds]
  have hmem := mem_of_head? hspares
  have hkeep := (mem_filter.mp hmem).2
  rw [filter_cons, if_pos hkeep]
  refine .inr ⟨d, _, rfl, h.isOpen, ?_, h.held, h.routed, ?_⟩
  · exact fun e he => h.others e (mem_filter.mp he).1
  · intro hnodup hzero
    rw [h.alone hnodup hzero]
    rfl

theorem sets_setBucket (q : PacketConn) (id id' : UInt16) (b : DeFraggerBucket) :
    (q.setBucket id b).sets id' = if id' = id then b.deFraggers else q.sets id' := by
  unfold sets loadBucket setBucket
  by_cases h : id' = id
  · subst h
    simp
  · simp [h]

theorem sets_retire (q : PacketConn) (id id' : UInt16) (b : DeFraggerBucket) :
    (q.retire id b).sets id' = if id' = id then b.deFraggers else q.sets id' := by
  unfold retire
  split_ifs with hnil hid
  · simp [sets, loadBucket, hid, hnil]
  · simp [sets, loadBucket, hid]
  all_goals simp_all [sets_setBucket]

theorem closed_retire (q : PacketConn) (id : UInt16) (b : DeFraggerBucket) :
    (q.retire id b).closed = q.closed := by
  unfold retire
  split_ifs <;> rfl

section step

variable {pool : Pool} {q : PacketConn} {a : Arrival}

theorem step_quiet (hq : q.closed = false) (hfrag : ¬ a.packet.packet.fragTotal ≤ 1)
    {f : BucketFed} {b : DeFraggerBucket}
    (hfeed : ((q.maybeCleanupDeFraggers a.nowNano).loadBucket a.packet.packet.pktID).feed a.packet
      a.path.cap a.nowNano = (f, b)) (hquiet : DeFraggerBucket.Quiet f) :
    q.step pool a =
      (none, (q.maybeCleanupDeFraggers a.nowNano).setBucket a.packet.packet.pktID b) := by
  obtain ⟨hasm, hlen⟩ := hquiet
  obtain ⟨path, nowNano, packet⟩ := a
  cases path with
  | push =>
    simp only [Path.cap] at hfeed
    simp [step, deliverPacket, hq, hfrag, hfeed, deliverFed, hasm, hlen]
  | pull p =>
    simp only [Path.cap] at hfeed
    simp [step, readFromStep, hfrag, hfeed, readFed, hasm, hlen]

theorem step_complete {F : Flow} {d : DeFragger} {rest : List DeFragger} (hq : q.closed = false)
    (hfrag : ¬ a.packet.packet.fragTotal ≤ 1) (hd : Open F d) (hfull : Collecting.Full F d)
    (hshort : a.path.cap < F.payload.length →
      ∃ f, f.assembled = false ∧ f.assembledLen = F.payload.length ∧
        ((q.maybeCleanupDeFraggers a.nowNano).loadBucket a.packet.packet.pktID).feed a.packet
          a.path.cap a.nowNano = (f, ⟨d :: rest⟩))
    (hfits : F.payload.length ≤ a.path.cap →
      ∃ f b, f.assembled = true ∧ f.data = F.payload ∧ f.addr = F.addr ∧
        ((q.maybeCleanupDeFraggers a.nowNano).loadBucket a.packet.packet.pktID).feed a.packet
          a.path.cap a.nowNano = (f, b)) :
    (q.step pool a).1 = some (a.path.outcome F.payload F.addr) := by
  have hpos := F.payload_length_pos
  obtain ⟨f', b', hasm', hdata', haddr', hnil⟩ := DeFraggerBucket.feedNil_of_full hd hfull rest
    (pool.le_fullCap F.payload.length) a.nowNano
  obtain ⟨path, nowNano, packet⟩ := a
  cases path with
  | push =>
    obtain ⟨f, hasm, hlen, hfeed⟩ := hshort hpos
    have hne : F.payload.length ≠ 0 := by omega
    simp only [Path.cap] at hfeed hnil
    simp [step, deliverPacket, hq, hfrag, hfeed, deliverFed, hlen, hne, hnil, hasm', hdata',
      haddr', Path.outcome]
  | pull p =>
    by_cases hp : p < F.payload.length
    · obtain ⟨f, hasm, hlen, hfeed⟩ := hshort hp
      simp only [Path.cap] at hfeed hnil
      simp [step, readFromStep, hfrag, hfeed, readFed, hasm, hlen, hp, hnil, hasm', hdata', haddr',
        Path.outcome]
    · obtain ⟨f, b, hasm, hdata, haddr, hfeed⟩ := hfits (by simpa [Path.cap] using hp)
      simp only [Path.cap] at hfeed
      simp [step, readFromStep, hfrag, hfeed, readFed, hasm, hdata, haddr, Path.outcome, copyOut,
        hp]

/-- A fragment changes the bucket of its packet id, after the cleanup, and nothing else does. -/
theorem step_cases (pool : Pool) (q : PacketConn) (a : Arrival) :
    (q.step pool a).2 = q ∨ ¬ a.packet.packet.fragTotal ≤ 1 ∧
      ∃ b, (q.step pool a).2 =
          (q.maybeCleanupDeFraggers a.nowNano).setBucket a.packet.packet.pktID b ∨
        (q.step pool a).2 = (q.maybeCleanupDeFraggers a.nowNano).retire a.packet.packet.pktID b := by
  obtain ⟨path, nowNano, packet⟩ := a
  cases path with
  | push =>
    simp only [step, deliverPacket]
    split_ifs with hclosed hfrag
    · exact .inl rfl
    · cases packet.packet.addr <;> exact .inl rfl
    · refine .inr ⟨hfrag, ?_⟩
      simp only [deliverFed]
      split_ifs
      · exact ⟨_, .inl rfl⟩
      · exact ⟨_, .inl rfl⟩
      · exact ⟨_, .inr rfl⟩
  | pull p =>
    simp only [step, readFromStep]
    split_ifs with hfrag
    · cases packet.packet.addr <;> exact .inl rfl
    · refine .inr ⟨hfrag, ?_⟩
      simp only [readFed]
      split_ifs
      · exact ⟨_, .inr rfl⟩
      · exact ⟨_, .inr rfl⟩
      · exact ⟨_, .inl rfl⟩
      · exact ⟨_, .inl rfl⟩

theorem closed_step : (q.step pool a).2.closed = q.closed := by
  rcases step_cases pool q a with heq | ⟨-, b, heq | heq⟩
  · rw [heq]
  · exact (congrArg closed heq).trans (closed_cleanup q a.nowNano)
  · rw [heq, closed_retire, closed_cleanup]

theorem sets_step_other (pool : Pool) {id : UInt16} (ha : ¬ a.Own id) :
    (q.step pool a).2.sets id = q.sets id ∨
      (¬ a.packet.packet.fragTotal ≤ 1 ∧
        (q.step pool a).2.sets id = (q.maybeCleanupDeFraggers a.nowNano).sets id) := by
  rcases step_cases pool q a with heq | ⟨hfrag, b, heq⟩
  · exact .inl (by rw [heq])
  · have hid : id ≠ a.packet.packet.pktID := fun h => ha ⟨h.symm, hfrag⟩
    refine .inr ⟨hfrag, ?_⟩
    rcases heq with heq | heq
    · rw [heq, sets_setBucket, if_neg hid]
    · rw [heq, sets_retire, if_neg hid]

end step

section run

variable {F : Flow} {pool : Pool} {q : PacketConn} {ids : List ℕ} {a : Arrival}

theorem ownIds_cons_of_own {id : UInt16} (h : a.Own id) (as : List Arrival) :
    ownIds id (a :: as) = a.packet.packet.fragID.toNat :: ownIds id as := by
  simp [ownIds, h]

theorem step_own (pool : Pool) {k j : ℕ} (hw : Waiting F ids (q.sets F.pktID))
    (hq : q.closed = false) (hspares : Spares F.pktID q a.nowNano)
    (hm : F.Carries k a.packet.packet) (hj : j < F.total) (hmiss : j ∉ ids ++ [k]) :
    (q.step pool a).1 = none ∧ Waiting F (ids ++ [k]) ((q.step pool a).2.sets F.pktID) := by
  obtain ⟨f, ds', hquiet, hw', hfeed⟩ := feed_waiting (waiting_cleanup hw hspares) hm hj hmiss
    a.path.cap a.nowNano
  have hfeed' : ((q.maybeCleanupDeFraggers a.nowNano).loadBucket a.packet.packet.pktID).feed
      a.packet a.path.cap a.nowNano = (f, ⟨ds'⟩) := by
    rwa [hm.pktID]
  rw [step_quiet hq hm.one_lt hfeed' hquiet]
  refine ⟨rfl, ?_⟩
  rwa [sets_setBucket, if_pos hm.pktID.symm]

theorem run_waiting (as : List Arrival) (hw : Waiting F ids (q.sets F.pktID))
    (hq : q.closed = false) (hun : Undisturbed pool F.pktID q as)
    (hcarry : ∀ a ∈ as, a.Own F.pktID → ∃ i, F.Carries i a.packet.packet) {j : ℕ}
    (hj : j < F.total) (hmiss : j ∉ ids ++ ownIds F.pktID as) :
    Waiting F (ids ++ ownIds F.pktID as) ((exec (step pool) q as).sets F.pktID) ∧
      (exec (step pool) q as).closed = false ∧
      ∀ x ∈ as.zip (answers (step pool) q as), x.1.Own F.pktID → x.2 = none := by
  induction as generalizing q ids with
  | nil =>
    refine ⟨?_, hq, ?_⟩
    · simpa [ownIds] using hw
    · intro x hx
      cases hx
  | cons a as ih =>
    obtain ⟨hspares, hun⟩ := hun
    have hq' : (q.step pool a).2.closed = false := closed_step.trans hq
    have hcarry' : ∀ b ∈ as, b.Own F.pktID → ∃ i, F.Carries i b.packet.packet :=
      fun b hb => hcarry b (mem_cons_of_mem a hb)
    by_cases ha : a.Own F.pktID
    · obtain ⟨k, hm⟩ := hcarry a mem_cons_self ha
      rw [ownIds_cons_of_own ha, hm.id, append_cons] at hmiss ⊢
      have hmiss' : j ∉ ids ++ [k] := fun hmem => hmiss (mem_append_left _ hmem)
      obtain ⟨hnone, hw'⟩ := step_own pool hw hq (hspares ha.2) hm hj hmiss'
      obtain ⟨hend, hclosed, hquiet⟩ := ih hw' hq' hun hcarry' hmiss
      exact ⟨hend, hclosed, forall_mem_cons.mpr ⟨fun _ => hnone, hquiet⟩⟩
    · rw [ownIds, filter_cons_of_neg (by simpa using ha), ← ownIds] at hmiss ⊢
      have hw' : Waiting F ids ((q.step pool a).2.sets F.pktID) := by
        rcases sets_step_other pool ha with heq | ⟨hfrag, heq⟩
        · rwa [heq]
        · rw [heq]
          exact waiting_cleanup hw (hspares hfrag)
      obtain ⟨hend, hclosed, hquiet⟩ := ih hw' hq' hun hcarry' hmiss
      exact ⟨hend, hclosed, forall_mem_cons.mpr ⟨fun hown => absurd hown ha, hquiet⟩⟩

/-- The fragments of `F` in any order, with repetitions: nothing comes out before the last missing
fragment, and then the datagram does. -/
theorem run_delivers (as : List Arrival) (last : Arrival) (hq : q.closed = false)
    (hempty : q.sets F.pktID = []) (hown : last.Own F.pktID)
    (hcarry : ∀ a ∈ as ++ [last], a.Own F.pktID → ∃ i, F.Carries i a.packet.packet)
    (hmiss : last.packet.packet.fragID.toNat ∉ ownIds F.pktID as)
    (hrouted : ∀ j < F.total, Routed (ownIds F.pktID (as ++ [last])) j)
    (hun : Undisturbed pool F.pktID q (as ++ [last])) :
    (∀ x ∈ as.zip (answers (step pool) q as), x.1.Own F.pktID → x.2 = none) ∧
      ((exec (step pool) q as).step pool last).1 =
        some (last.path.outcome F.payload F.addr) := by
  obtain ⟨hun, hspares, _⟩ := (undisturbed_append pool F.pktID q as [last]).mp hun
  obtain ⟨k, hm⟩ := hcarry last (by simp) hown
  rw [hm.id] at hmiss
  have hids : ownIds F.pktID (as ++ [last]) = ownIds F.pktID as ++ [k] := by
    rw [ownIds, filter_append, map_append, ← ownIds]
    congr 1
    change ownIds F.pktID [last] = [k]
    rw [ownIds_cons_of_own hown, hm.id]
    rfl
  obtain ⟨hw, hclosed, hquiet⟩ := run_waiting as (.inl ⟨rfl, hempty⟩) hq hun
    (fun a ha => hcarry a (mem_append_left _ ha)) hm.lt hmiss
  rw [nil_append] at hw
  refine ⟨hquiet, ?_⟩
  rw [hids] at hrouted
  obtain ⟨d, rest, hd, hfull, hshort, hfits⟩ := feed_last (waiting_cleanup hw (hspares hown.2)) hm
    hmiss hrouted last.path.cap last.nowNano
  rw [← hm.pktID] at hshort hfits
  exact step_complete hclosed hown.2 hd hfull hshort hfits

end run

end PacketConn

def IsCopyOf (m : Packet (Option Address)) : Prop :=
  m.pktID = c.pktID ∧ m.fragTotal = c.fragTotal ∧ m.fragID = c.fragID ∧ m.data = c.data ∧
    packetFragmentAddrPort m = packetFragmentAddrPort c.received

instance (m : Packet (Option Address)) : Decidable (IsCopyOf c m) := by
  unfold IsCopyOf
  infer_instance

theorem isCopyOf_onWire : IsCopyOf c c.onWire := by
  refine ⟨rfl, rfl, rfl, rfl, ?_⟩
  unfold packetFragmentAddrPort Packet.onWire Packet.received Address.onWire
  simp only
  split_ifs <;> rfl

section sender

variable {heap : Heap} {packet : Packet ℕ} {k : ℕ}

def flowOf (heap : Heap) (packet : Packet ℕ) (hk : 0 < k)
    (h2 : 2 ≤ chunkCount k packet.data.length) (hip : (heap.deref packet.addr).IsIP) : Flow where
  pktID := packet.pktID
  total := chunkCount k packet.data.length
  piece := chunk k packet.data
  addr := (heap.deref packet.addr).udpAddrPort
  two_le := h2
  piece_pos := fun _ hi => length_chunk_pos hk hi
  addr_valid := hip.isValid

theorem toNat_ofNat_of_le {j : ℕ} (h : j ≤ 255) : (UInt8.ofNat j).toNat = j := by
  rw [UInt8.toNat_ofNat']
  omega

theorem carries_of_isCopyOf (hk : 0 < k) (h2 : 2 ≤ chunkCount k packet.data.length)
    (hip : (heap.deref packet.addr).IsIP) (hptr : packet.addr < heap.length)
    (hn : chunkCount k packet.data.length ≤ 255) {j : ℕ}
    (hj : j < chunkCount k packet.data.length) {m : Packet (Option Address)}
    (hm : IsCopyOf ((fragment packet heap.length k (chunkCount k packet.data.length) j).deref
      (fragHeap heap packet.addr (chunkCount k packet.data.length))) m) :
    (flowOf heap packet hk h2 hip).Carries j m := by
  obtain ⟨hpkt, htotal, hid, hdata, haddr⟩ := hm
  constructor
  · exact hpkt
  · rw [htotal]
    exact toNat_ofNat_of_le hn
  · rw [hid]
    exact toNat_ofNat_of_le (by omega)
  · exact hj
  · exact hdata
  · rintro rfl
    rw [haddr]
    unfold packetFragmentAddrPort Packet.received
    simp only [deref_fragment_zero heap packet k _ hptr]
    exact if_neg hip.type_ne_none

theorem decode_fragment (hip : (heap.deref packet.addr).IsIP) (hptr : packet.addr < heap.length)
    {n j : ℕ} (hj : j < n) (hsize : (chunk k packet.data j).length ≤ 65535) :
    ∃ m, readPacketFromMessage ((fragment packet heap.length k n j).deref
        (fragHeap heap packet.addr n)).writeToBytes = .ok m ∧
      IsCopyOf ((fragment packet heap.length k n j).deref (fragHeap heap packet.addr n)) m := by
  have hwf : ((fragment packet heap.length k n j).deref
      (fragHeap heap packet.addr n)).addr.WellFormed := by
    cases j with
    | zero =>
      rw [deref_fragment_zero heap packet k n hptr]
      exact .inl hip
    | succ j =>
      rw [deref_fragment_succ heap packet k n hj]
      exact .inr (.inr rfl)
  have hlen : (UInt16.ofNat (chunk k packet.data j).length).toNat =
      (chunk k packet.data j).length := by
    rw [UInt16.toNat_ofNat']
    omega
  refine ⟨_, ?_, isCopyOf_onWire _⟩
  have hdecode := readPacketFromMessage_writeToBytes _ hwf hlen []
  rwa [append_nil] at hdecode

theorem map_fragID_fragments (h n : ℕ) (hn : n ≤ 255) :
    ((range n).map (fragment packet h k n)).map (fun f => f.fragID.toNat) = range n := by
  rw [map_map]
  conv_rhs => rw [← map_id (range n)]
  apply map_congr_left
  intro j hj
  have hlt := mem_range.mp hj
  exact toNat_ofNat_of_le (by omega)

end sender

/-- Fragmentation and reassembly of a UDP datagram with an IP address. The fragments share the
packet id, carry the address in the first one only, make up the payload, fit behind the header of
the first and are decoded as they were; the addresses on the heap stay. However they arrive, the
caller gets nothing before the last missing fragment and then the datagram, if every fragment
arrives once before any repetition, or not before the first fragment. -/
theorem fragmentPackets_roundTrip (pool : Pool) (heap : Heap) (packet : Packet ℕ) (fragSize : ℤ)
    (r : Fragmented) (hptr : packet.addr < heap.length) (hip : (heap.deref packet.addr).IsIP)
    (hr : fragmentPackets heap packet fragSize = .ok r) (h2 : 2 ≤ r.frags.length) :
    r.frags.map (fun f => f.fragID.toNat) = range r.frags.length ∧
    (∀ f ∈ r.frags, f.pktID = packet.pktID ∧ f.fragTotal.toNat = r.frags.length) ∧
    (∀ j f, r.frags[j]? = some f → (f.deref r.heap).addr =
      if j = 0 then heap.deref packet.addr
      else { heap.deref packet.addr with type := atypNone }) ∧
    (r.frags.map fun f => f.data).flatten = packet.data ∧
    (∀ p < heap.length, r.heap.deref p = heap.deref p) ∧
    (∃ f₀, r.frags[0]? = some f₀ ∧ ∀ f ∈ r.frags,
      ((f.deref r.heap).writeToBytes.length : ℤ) ≤ (f₀.deref r.heap).headerLen + fragSize) ∧
    (∀ f ∈ r.frags, f.data.length ≤ 65535 →
      ∃ m, readPacketFromMessage (f.deref r.heap).writeToBytes = .ok m ∧
        IsCopyOf (f.deref r.heap) m) ∧
    ∀ (q : PacketConn) (as : List Arrival) (last : Arrival),
      q.closed = false → q.sets packet.pktID = [] → last.Own packet.pktID →
      (∀ a ∈ as ++ [last], a.Own packet.pktID →
        ∃ f ∈ r.frags, IsCopyOf (f.deref r.heap) a.packet.packet) →
      last.packet.packet.fragID.toNat ∉ ownIds packet.pktID as →
      (∀ j < r.frags.length, Routed (ownIds packet.pktID (as ++ [last])) j) →
      PacketConn.Undisturbed pool packet.pktID q (as ++ [last]) →
      (∀ x ∈ as.zip (answers (step pool) q as),
        x.1.Own packet.pktID → x.2 = none) ∧
      ((exec (step pool) q as).step pool last).1 =
        some (last.path.outcome packet.data (heap.deref packet.addr).udpAddrPort) := by
  obtain ⟨k, rfl, hk, hn⟩ := fragmentPackets_ok hr
  rw [fragmentPackets_eq heap packet hk hptr hn, Except.ok.injEq] at hr
  subst hr
  simp only [length_map, length_range] at h2 ⊢
  constructor
  · exact map_fragID_fragments _ _ hn
  constructor
  · exact forall_mem_map.mpr fun _ _ => ⟨rfl, toNat_ofNat_of_le hn⟩
  constructor
  · intro j f hf
    rw [getElem?_map, Option.map_eq_some_iff] at hf
    obtain ⟨i, hi, rfl⟩ := hf
    obtain ⟨hj, rfl⟩ := List.getElem?_eq_some_iff.mp hi
    rw [length_range] at hj
    rw [getElem_range]
    cases j with
    | zero => exact deref_fragment_zero heap packet k _ hptr
    | succ j => exact deref_fragment_succ heap packet k _ hj
  constructor
  · rw [map_map]
    exact flatten_chunks hk packet.data
  constructor
  · exact fun p hp => Heap.deref_append_left heap _ hp
  constructor
  · refine ⟨fragment packet heap.length k (chunkCount k packet.data.length) 0, ?_, ?_⟩
    · rw [getElem?_map, getElem?_range (by omega)]
      rfl
    · intro f hf
      obtain ⟨j, hj, rfl⟩ := mem_map.mp hf
      have hle := bytesLen_fragment_le heap packet k _ hptr (mem_range.mp hj)
      rw [Packet.length_writeToBytes]
      exact_mod_cast hle
  constructor
  · intro f hf hsize
    obtain ⟨j, hj, rfl⟩ := mem_map.mp hf
    exact decode_fragment hip hptr (mem_range.mp hj) hsize
  · intro q as last hq hempty hown hcopy hmiss hrouted hun
    have hcarry : ∀ a ∈ as ++ [last], a.Own packet.pktID →
        ∃ i, (flowOf heap packet hk h2 hip).Carries i a.packet.packet := by
      intro a ha hao
      obtain ⟨f, hf, hm⟩ := hcopy a ha hao
      obtain ⟨j, hj, rfl⟩ := mem_map.mp hf
      exact ⟨j, carries_of_isCopyOf hk h2 hip hptr hn (mem_range.mp hj) hm⟩
    have hrun := run_delivers (F := flowOf heap packet hk h2 hip) as last
      hq hempty hown hcarry hmiss hrouted hun
    have hpayload : (flowOf heap packet hk h2 hip).payload = packet.data :=
      flatten_chunks hk packet.data
    rwa [hpayload] at hrun

section sample

def sampleHeap : Heap := [⟨atypIPv4, [10, 0, 0, 1], 53⟩]

def samplePacket : Packet ℕ := ⟨5, 1, 7, 1, 0, 5, 0, [1, 2, 3, 4, 5]⟩

def samplePool : Pool := ⟨id, fun _ => Nat.le_refl _⟩

def sampleArrival (ref j : ℕ) : Arrival :=
  ⟨.push, 1 + ref, ⟨((fragment samplePacket 1 2 3 j).deref (fragHeap sampleHeap 0 3)).received, ref⟩⟩

theorem fragmentPackets_roundTrip_sample :
    ((exec (step samplePool) .new
        [sampleArrival 0 2, sampleArrival 1 0, sampleArrival 2 0]).step samplePool
          (sampleArrival 3 1)).1 =
      some (Path.outcome [1, 2, 3, 4, 5] ⟨.v4 ⟨[10, 0, 0, 1], rfl⟩, 53⟩ .push) := by
  have h := fragmentPackets_roundTrip samplePool sampleHeap samplePacket 2 _ (by decide) (by decide)
    rfl (by decide)
  obtain ⟨_, _, _, _, _, _, _, hrun⟩ := h
  have hrouted : ∀ j < 3, Routed [2, 0, 0, 1] j := by
    intro j hj
    have hcases : j = 0 ∨ j = 1 ∨ j = 2 := by omega
    rcases hcases with rfl | rfl | rfl
    · exact routed_zero (by decide)
    · exact .inr ⟨[2], [0, 1], rfl, by decide⟩
    · exact .inl ⟨[2], by decide, by decide, by decide⟩
  exact (hrun .new [sampleArrival 0 2, sampleArrival 1 0, sampleArrival 2 0] (sampleArrival 3 1)
    rfl rfl (by decide) (by decide) (by decide) hrouted (by decide)).2

/-- A repetition before the first fragment opens a second set, and the next new fragment, which both
sets could take, is dropped: every fragment arrives and nothing comes out. -/
theorem repetition_before_first_fragment_loses_datagram :
    ∃ r, fragmentPackets sampleHeap samplePacket 2 = .ok r ∧ r.frags.length = 3 ∧
      (∀ a ∈ [sampleArrival 0 1, sampleArrival 1 1, sampleArrival 2 2, sampleArrival 3 0],
        ∃ f ∈ r.frags, IsCopyOf (f.deref r.heap) a.packet.packet) ∧
      ownIds samplePacket.pktID
        [sampleArrival 0 1, sampleArrival 1 1, sampleArrival 2 2, sampleArrival 3 0] =
          [1, 1, 2, 0] ∧
      PacketConn.Undisturbed samplePool samplePacket.pktID .new
        [sampleArrival 0 1, sampleArrival 1 1, sampleArrival 2 2, sampleArrival 3 0] ∧
      answers (step samplePool) .new
        [sampleArrival 0 1, sampleArrival 1 1, sampleArrival 2 2, sampleArrival 3 0] =
          [none, none, none, none] :=
  ⟨_, rfl, rfl, by decide, by decide, by decide, by decide⟩

end sample

end Outbound.Tuic
