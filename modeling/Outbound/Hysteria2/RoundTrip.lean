import Outbound.Hysteria2.Frag

/-! Hysteria2 fragments come back together, in any order and with repetitions. -/
namespace Outbound.Hysteria2

open Lib List Defragger

structure Flow where
  sessionID : UInt32
  pktID : UInt16
  addr : Bytes
  total : ℕ
  piece : ℕ → Bytes
  two_le : 2 ≤ total
  le_255 : total ≤ 255

namespace Flow

def payload (F : Flow) : Bytes := ((range F.total).map F.piece).flatten

structure Carries (F : Flow) (i : ℕ) (m : UDPMessage) : Prop where
  sessionID : m.sessionID = F.sessionID
  packetID : m.packetID = F.pktID
  fragCount : m.fragCount.toNat = F.total
  fragID : m.fragID.toNat = i
  lt : i < F.total
  addr : m.addr = F.addr
  data : m.data = F.piece i

variable {F : Flow} {i : ℕ} {m : UDPMessage} (h : F.Carries i m)

include h

theorem Carries.one_lt : ¬ m.fragCount ≤ 1 := by
  have h2 := F.two_le
  have ht := h.fragCount
  rw [UInt8.le_iff_toNat_le]
  simp only [UInt8.toNat_one]
  omega

theorem Carries.inRange : ¬ m.fragCount ≤ m.fragID := by
  have hlt := h.lt
  rw [UInt8.le_iff_toNat_le, h.fragCount, h.fragID]
  omega

theorem Carries.fragCount_eq : m.fragCount = .ofNat F.total := by
  simp [← h.fragCount]

end Flow

namespace Defragger

/-- Open, and not in the middle of a message with this packet id and fragment count; a message in
one piece passes in any case. -/
def Free (d : Defragger) (pktID : UInt16) (n : ℕ) : Prop :=
  d.closed = false ∧
    (n ≤ 1 ∨ pktID ≠ d.pktID ∨ UInt8.ofNat n ≠ UInt8.ofNat d.frags.length)

instance (d : Defragger) (pktID : UInt16) (n : ℕ) : Decidable (d.Free pktID n) := by
  unfold Free
  infer_instance

/-- The reassembler is in the middle of the message of `F`. -/
structure Collecting (F : Flow) (d : Defragger) : Prop where
  isOpen : d.closed = false
  pktID : d.pktID = F.pktID
  length : d.frags.length = F.total
  count : d.count = filled d.frags
  size : d.size = ((contents d.frags).map fun f => f.msg.data.length).sum
  carries : ∀ i f, d.frags[i]? = some (some f) → F.Carries i f.msg

variable {F : Flow} {d : Defragger} {i : ℕ} {m : Message}

theorem step_free (h : d.Free F.pktID F.total) (hm : F.Carries i m.msg) :
    d.step m = (none, d.releaseHeld.1.restart m) := by
  have hopen : ¬ d.closed = true := by simp [h.1]
  have hnew : m.msg.packetID ≠ d.pktID ∨ m.msg.fragCount ≠ .ofNat d.frags.length := by
    have h2 := F.two_le
    rw [hm.packetID, hm.fragCount_eq]
    exact h.2.resolve_left (by omega)
  unfold step feed
  simp [hopen, if_neg hm.one_lt, if_neg hm.inRange, hnew]

theorem collecting_restart (h : d.closed = false) (hm : F.Carries i m.msg) :
    Collecting F (d.releaseHeld.1.restart m) ∧
      ∀ j, Holds (d.releaseHeld.1.restart m).frags j ↔ j = i := by
  have hlt : i < (replicate m.msg.fragCount.toNat (none : Option Message)).length := by
    simpa [hm.fragCount] using hm.lt
  have hnone := getElem?_of_not_holds hlt (not_holds_replicate_none _ i)
  have hfrags : (d.releaseHeld.1.restart m).frags =
      (replicate m.msg.fragCount.toNat none).set i (some m) := by
    rw [← hm.fragID]
    rfl
  constructor
  · constructor
    · exact h
    · exact hm.packetID
    · simp [hfrags, hm.fragCount]
    · rw [hfrags, filled_set hnone, filled_replicate_none]
      rfl
    · rw [hfrags, sum_contents_set hnone, contents_replicate_none]
      simp [restart]
    · rw [hfrags]
      apply forall_of_set (P := fun j f => F.Carries j f.msg) hlt hm
      intro j f hf
      exact absurd ⟨f, hf⟩ (not_holds_replicate_none _ j)
  · intro j
    rw [hfrags, holds_set_iff hlt]
    simp [not_holds_replicate_none]

namespace Collecting

section

variable (h : Collecting F d)

include h

section

variable (hm : F.Carries i m.msg)

include hm

theorem lt_length : i < d.frags.length := by
  rw [h.length]
  exact hm.lt

theorem not_new : ¬ (m.msg.packetID ≠ d.pktID ∨ m.msg.fragCount ≠ .ofNat d.frags.length) := by
  rw [hm.packetID, h.pktID, hm.fragCount_eq, h.length]
  simp

theorem step_of_holds (hi : Holds d.frags i) : d.step m = (none, d) := by
  obtain ⟨f, hf⟩ := hi
  have hopen : ¬ d.closed = true := by simp [h.isOpen]
  unfold step feed
  rw [if_neg hopen, if_neg hm.one_lt, if_neg hm.inRange, if_neg (h.not_new hm), hm.fragID,
    getD_eq_getElem?_getD, hf]
  rfl

theorem step_of_not_holds (hi : ¬ Holds d.frags i) :
    d.step m =
      if (d.put m).count = (d.put m).frags.length then
        (some ((d.put m).assemble m), (d.put m).releaseHeld.1)
      else (none, d.put m) := by
  have hopen : ¬ d.closed = true := by simp [h.isOpen]
  have hnone := getElem?_of_not_holds (h.lt_length hm) hi
  unfold step feed
  rw [if_neg hopen, if_neg hm.one_lt, if_neg hm.inRange, if_neg (h.not_new hm), hm.fragID,
    getD_eq_getElem?_getD, hnone]
  simp only [Option.getD_some]
  split_ifs <;> rfl

end

end

theorem put_frags (hm : F.Carries i m.msg) : (d.put m).frags = d.frags.set i (some m) := by
  rw [← hm.fragID]
  rfl

variable (h : Collecting F d)

include h

theorem collecting_put (hm : F.Carries i m.msg) (hi : ¬ Holds d.frags i) :
    Collecting F (d.put m) ∧ ∀ j, Holds (d.put m).frags j ↔ j = i ∨ Holds d.frags j := by
  have hlt := h.lt_length hm
  have hnone := getElem?_of_not_holds hlt hi
  constructor
  · constructor
    · exact h.isOpen
    · exact h.pktID
    · rw [put_frags hm, length_set, h.length]
    · rw [put_frags hm, filled_set hnone, ← h.count]
      rfl
    · rw [put_frags hm, sum_contents_set hnone, ← h.size]
      rfl
    · rw [put_frags hm]
      exact forall_of_set (P := fun j f => F.Carries j f.msg) hlt hm h.carries
  · intro j
    rw [put_frags hm]
    exact holds_set_iff hlt m j

theorem count_eq_length_iff : d.count = d.frags.length ↔ ∀ j < F.total, Holds d.frags j := by
  rw [h.count, filled_eq_length_iff, h.length]

theorem assemble_of_full (hm : F.Carries i m.msg) (hfull : ∀ j < F.total, Holds d.frags j) :
    (d.assemble m).data = F.payload ∧ (d.assemble m).addr = F.addr ∧
      (d.assemble m).sessionID = F.sessionID := by
  have hmap : (contents d.frags).map (fun f => f.msg.data) = (range F.total).map F.piece := by
    rw [← h.length]
    apply map_contents_of_full
    intro j hj
    rw [h.length] at hj
    obtain ⟨f, hf⟩ := hfull j hj
    exact ⟨f, hf, (h.carries j f hf).data⟩
  have hsize : d.size = F.payload.length := by
    rw [h.size, Flow.payload, ← hmap, length_flatten, map_map]
    rfl
  refine ⟨?_, hm.addr, hm.sessionID⟩
  change (((contents d.frags).map fun f => f.msg.data).flatten).take d.size = F.payload
  rw [hmap, hsize]
  exact take_of_length_le (Nat.le_refl _)

end Collecting

/-- What comes out of the reassembler carries the address of the fragment fed last, and at least
its data. -/
theorem wellFormed_of_step {r : UDPMessage} (h : (d.step m).1 = some r) (hm : m.msg.WellFormed) :
    r.WellFormed := by
  obtain ⟨haddr, hmax, hdata⟩ := hm
  unfold step feed at h
  split_ifs at h with hclosed hsingle hrange hnew
  · cases h
    exact ⟨haddr, hmax, hdata⟩
  · split at h
    · dsimp only at h
      split_ifs at h
      cases h
      refine ⟨haddr, hmax, ?_⟩
      have hi : m.msg.fragID.toNat < d.frags.length := by
        have hcount := not_not.mp (not_or.mp hnew).2
        rw [hcount, UInt8.le_iff_toNat_le, UInt8.toNat_ofNat'] at hrange
        omega
      have hmem : m ∈ contents (d.put m).frags :=
        mem_filterMap.mpr ⟨some m, mem_set hi (some m), rfl⟩
      have hle := (sublist_flatten_of_mem (mem_map_of_mem (f := fun f => f.msg.data) hmem)).length_le
      simp only [assemble, length_take, put] at hle ⊢
      omega
    · cases h

def Waiting (F : Flow) (ids : List ℕ) (d : Defragger) : Prop :=
  (ids = [] ∧ d.Free F.pktID F.total) ∨ (Collecting F d ∧ ∀ j, Holds d.frags j ↔ j ∈ ids)

variable {ids : List ℕ}

theorem step_waiting (h : Waiting F ids d) (hm : F.Carries i m.msg) {j : ℕ}
    (hj : j < F.total) (hmiss : j ∉ ids ++ [i]) :
    (d.step m).1 = none ∧ Waiting F (ids ++ [i]) (d.step m).2 := by
  rcases h with ⟨rfl, hfree⟩ | ⟨hc, hholds⟩
  · obtain ⟨hc, hholds⟩ := collecting_restart (d := d) hfree.1 hm
    rw [step_free hfree hm]
    refine ⟨rfl, .inr ⟨hc, ?_⟩⟩
    simp [hholds]
  · by_cases hi : Holds d.frags i
    · rw [hc.step_of_holds hm hi]
      refine ⟨rfl, .inr ⟨hc, ?_⟩⟩
      intro k
      rw [hholds, mem_append, mem_singleton]
      constructor
      · exact .inl
      · rintro (hk | rfl)
        · exact hk
        · exact (hholds k).mp hi
    · obtain ⟨hc', hholds'⟩ := hc.collecting_put hm hi
      have hmem : ∀ k, Holds (d.put m).frags k ↔ k ∈ ids ++ [i] := by
        simp [hholds', hholds, or_comm]
      have hshort : ¬ (d.put m).count = (d.put m).frags.length := by
        rw [hc'.count_eq_length_iff]
        exact fun hfull => hmiss ((hmem j).mp (hfull j hj))
      rw [hc.step_of_not_holds hm hi, if_neg hshort]
      exact ⟨rfl, .inr ⟨hc', hmem⟩⟩

theorem step_last (h : Waiting F ids d) (hm : F.Carries i m.msg) (hlast : i ∉ ids)
    (hall : ∀ j < F.total, j ∈ ids ++ [i]) :
    ∃ r, (d.step m).1 = some r ∧ r.data = F.payload ∧ r.addr = F.addr ∧
      r.sessionID = F.sessionID := by
  have h2 := F.two_le
  rcases h with ⟨rfl, _⟩ | ⟨hc, hholds⟩
  · have h0 := mem_singleton.mp (hall 0 (by omega))
    have h1 := mem_singleton.mp (hall 1 (by omega))
    omega
  · have hi : ¬ Holds d.frags i := fun hholds' => hlast ((hholds i).mp hholds')
    obtain ⟨hc', hholds'⟩ := hc.collecting_put hm hi
    have hfull : ∀ j < F.total, Holds (d.put m).frags j := by
      intro j hj
      rw [hholds', hholds]
      have hmem := hall j hj
      rw [mem_append, mem_singleton] at hmem
      exact hmem.symm
    rw [hc.step_of_not_holds hm hi, if_pos (hc'.count_eq_length_iff.mpr hfull)]
    exact ⟨_, rfl, hc'.assemble_of_full hm hfull⟩

theorem run_waiting (ms : List Message) (h : Waiting F ids d)
    (hcarry : ∀ x ∈ ms, ∃ i, F.Carries i x.msg) {j : ℕ} (hj : j < F.total)
    (hmiss : j ∉ ids ++ ms.map fun x => x.msg.fragID.toNat) :
    Waiting F (ids ++ ms.map fun x => x.msg.fragID.toNat) (Run.exec step d ms) ∧
      ∀ r ∈ Run.answers step d ms, r = none := by
  induction ms generalizing d ids with
  | nil =>
    refine ⟨by simpa using h, ?_⟩
    intro r hr
    cases hr
  | cons x ms ih =>
    obtain ⟨i, hm⟩ := hcarry x mem_cons_self
    rw [map_cons, hm.fragID, append_cons] at hmiss ⊢
    have hmiss' : j ∉ ids ++ [i] := fun hmem => hmiss (mem_append_left _ hmem)
    obtain ⟨hnone, hw⟩ := step_waiting h hm hj hmiss'
    obtain ⟨hend, hquiet⟩ := ih hw (fun y hy => hcarry y (mem_cons_of_mem x hy)) hmiss
    exact ⟨hend, forall_mem_cons.mpr ⟨hnone, hquiet⟩⟩

end Defragger

/-- However copies of `frags` are fed to a reassembler, nothing comes out before the last missing
one, and then the data, address and session of `m`. -/
def Reassembles (frags : List UDPMessage) (m : UDPMessage) : Prop :=
  ∀ (d : Defragger) (ms : List Message) (last : Message), d.Free m.packetID frags.length →
    (∀ x ∈ ms ++ [last], ∃ f ∈ frags, x.msg.wire = f.wire) →
    (∀ x ∈ ms, x.msg.wire ≠ last.msg.wire) →
    (∀ f ∈ frags, ∃ x ∈ ms ++ [last], x.msg.wire = f.wire) →
    (∀ r ∈ Run.answers step d ms, r = none) ∧
      ∃ r, ((Run.exec step d ms).step last).1 = some r ∧ r.data = m.data ∧
        r.addr = m.addr ∧ r.sessionID = m.sessionID

theorem Reassembles.wellFormed {frags : List UDPMessage} {m : UDPMessage} (h : Reassembles frags m)
    (hne : frags ≠ []) (hall : ∀ f ∈ frags, f.WellFormed) : m.WellFormed := by
  obtain ⟨last, hlast⟩ := exists_mem_of_ne_nil frags hne
  have hother : m.packetID ≠ m.packetID + 1 := by simp
  obtain ⟨ms, hms⟩ : ∃ ms : List Message, ∀ x, x ∈ ms ↔
      ∃ f ∈ frags, f.wire ≠ last.wire ∧ ⟨0, f⟩ = x :=
    ⟨(frags.filter fun f => f.wire ≠ last.wire).map (Message.mk 0), by simp [and_assoc]⟩
  have hcover : ∀ f ∈ frags, ∃ x ∈ ms ++ [⟨0, last⟩], x.msg.wire = f.wire := by
    intro f hf
    by_cases hsame : f.wire = last.wire
    · exact ⟨⟨0, last⟩, by simp, hsame.symm⟩
    · exact ⟨⟨0, f⟩, mem_append_left _ ((hms _).mpr ⟨f, hf, hsame, rfl⟩), rfl⟩
  obtain ⟨-, r, hr, hdata, haddr, -⟩ := h { new with pktID := m.packetID + 1 } ms ⟨0, last⟩
    ⟨rfl, .inr (.inl hother)⟩ (by grind) (by grind) hcover
  rw [UDPMessage.WellFormed, ← hdata, ← haddr]
  exact wellFormed_of_step hr (hall last hlast)

theorem reassembles_single {m : UDPMessage} (h : m.fragCount ≤ 1) : Reassembles [m] m := by
  intro d ms last hfree hcopy hlast _
  have hwire : ∀ x ∈ ms ++ [last], x.msg.wire = m.wire := by
    intro x hx
    obtain ⟨f, hf, hxf⟩ := hcopy x hx
    rwa [mem_singleton.mp hf] at hxf
  have hms : ms = [] := by
    apply eq_nil_iff_forall_not_mem.mpr
    intro x hx
    apply hlast x hx
    rw [hwire x (mem_append_left _ hx), hwire last (by simp)]
  subst hms
  obtain ⟨hsession, _, _, hcount, haddr, hdata⟩ :=
    (UDPMessage.wire_eq_iff _ _).mp (hwire last (by simp))
  rw [← hcount] at h
  refine ⟨by simp [Run.answers], last.msg, ?_, hdata, haddr, hsession⟩
  simp [step, feed, hfree.1, h]

section fragments

variable {m : UDPMessage} {k : ℕ}

def flowOf (m : UDPMessage) (k : ℕ) (h2 : 2 ≤ chunkCount k m.data.length)
    (hn : chunkCount k m.data.length ≤ 255) : Flow where
  sessionID := m.sessionID
  pktID := m.packetID
  addr := m.addr
  total := chunkCount k m.data.length
  piece := chunk k m.data
  two_le := h2
  le_255 := hn

theorem carries_fragment (h2 : 2 ≤ chunkCount k m.data.length)
    (hn : chunkCount k m.data.length ≤ 255) {j : ℕ} (hj : j < chunkCount k m.data.length)
    {x : UDPMessage} (hx : x.wire = (fragment m k (chunkCount k m.data.length) j).wire) :
    (flowOf m k h2 hn).Carries j x := by
  have hbyte : ∀ i ≤ 255, (UInt8.ofNat i).toNat = i := by
    intro i hi
    rw [UInt8.toNat_ofNat']
    omega
  obtain ⟨hsession, hpacket, hid, hcount, haddr, hdata⟩ := (UDPMessage.wire_eq_iff _ _).mp hx
  constructor
  · exact hsession
  · exact hpacket
  · rw [hcount]
    exact hbyte _ hn
  · rw [hid]
    exact hbyte _ (by omega)
  · exact hj
  · exact haddr
  · exact hdata

theorem reassembles_fragments (hk : 0 < k) (h2 : 2 ≤ chunkCount k m.data.length)
    (hn : chunkCount k m.data.length ≤ 255) :
    Reassembles ((range (chunkCount k m.data.length)).map
      (fragment m k (chunkCount k m.data.length))) m := by
  intro d ms last hfree hcopy hlast hall
  have hcarry : ∀ x ∈ ms ++ [last], ∃ j, (flowOf m k h2 hn).Carries j x.msg ∧
      x.msg.wire = (fragment m k (chunkCount k m.data.length) j).wire := by
    intro x hx
    obtain ⟨f, hf, hxf⟩ := hcopy x hx
    obtain ⟨j, hj, rfl⟩ := mem_map.mp hf
    exact ⟨j, carries_fragment h2 hn (mem_range.mp hj) hxf, hxf⟩
  obtain ⟨i, hm, hwire⟩ := hcarry last (by simp)
  have hmiss : i ∉ ms.map fun x => x.msg.fragID.toNat := by
    intro hmem
    obtain ⟨x, hx, hxi⟩ := mem_map.mp hmem
    obtain ⟨j, hmx, hwirex⟩ := hcarry x (mem_append_left _ hx)
    have hji : j = i := by rw [← hmx.fragID, hxi]
    apply hlast x hx
    rw [hwirex, hji, hwire]
  have hmem : ∀ j < (flowOf m k h2 hn).total, j ∈ (ms.map fun x => x.msg.fragID.toNat) ++ [i] := by
    intro j hj
    obtain ⟨x, hx, hxj⟩ := hall _ (mem_map.mpr ⟨j, mem_range.mpr hj, rfl⟩)
    have hmx := carries_fragment h2 hn hj hxj
    have himage : j ∈ (ms ++ [last]).map fun x => x.msg.fragID.toNat :=
      mem_map.mpr ⟨x, hx, hmx.fragID⟩
    rwa [map_append, map_singleton, hm.fragID] at himage
  rw [length_map, length_range] at hfree
  have hcarry' : ∀ x ∈ ms, ∃ j, (flowOf m k h2 hn).Carries j x.msg := by
    intro x hx
    obtain ⟨j, hmx, _⟩ := hcarry x (mem_append_left _ hx)
    exact ⟨j, hmx⟩
  obtain ⟨hw, hquiet⟩ := run_waiting (F := flowOf m k h2 hn) ms (.inl ⟨rfl, hfree⟩)
    hcarry' hm.lt hmiss
  obtain ⟨r, hr, hdata, haddr, hsession⟩ := step_last hw hm hmiss hmem
  refine ⟨hquiet, r, hr, ?_, haddr, hsession⟩
  rw [hdata]
  exact flatten_chunks hk m.data

theorem fragUDPMessage_spec (m : UDPMessage) (hk : 0 < k) (hn : chunkCount k m.data.length ≤ 255) :
    ∃ frags, fragUDPMessage m ((m.headerSize + k : ℕ) : ℤ) = .ok frags ∧
      (∀ f ∈ frags, f.size ≤ m.headerSize + k ∧ f.sessionID = m.sessionID ∧
        f.packetID = m.packetID ∧ f.addr = m.addr ∧ (m.data ≠ [] → f.data ≠ [])) ∧
      (frags.map fun f => f.data).flatten = m.data ∧
      ((m.size ≤ m.headerSize + k → m.fragCount ≤ 1) → Reassembles frags m) := by
  by_cases hfits : m.size ≤ m.headerSize + k
  · refine ⟨[m], ?_, ?_, by simp, fun h => reassembles_single (h hfits)⟩
    · exact if_pos (by exact_mod_cast hfits)
    · intro f hf
      rw [mem_singleton.mp hf]
      exact ⟨hfits, rfl, rfl, rfl, id⟩
  · have h2 : 2 ≤ chunkCount k m.data.length := by
      have hlt := (lt_chunkCount_iff hk m.data.length 1).mpr (by
        rw [UDPMessage.size] at hfits
        omega)
      omega
    refine ⟨_, fragUDPMessage_eq m hk (by omega) hn, ?_, ?_,
      fun _ => reassembles_fragments hk h2 hn⟩
    · intro f hf
      obtain ⟨j, hj, rfl⟩ := mem_map.mp hf
      have hlen := length_chunk_le k m.data j
      have hpos := length_chunk_pos hk (mem_range.mp hj)
      refine ⟨?_, rfl, rfl, rfl, fun _ => ne_nil_of_length_pos hpos⟩
      change m.headerSize + (chunk k m.data j).length ≤ m.headerSize + k
      omega
    · rw [map_map]
      exact flatten_chunks hk m.data

end fragments

/-- Fragmentation and reassembly of a UDP message that is not itself a fragment: the fragments fit,
make up the data and keep session, packet id and address, and a reassembler that is not busy with
the same packet id and count gives the message back, whatever their order and repetition. -/
theorem fragUDPMessage_roundTrip (m : UDPMessage) (maxSize : ℤ) (hmax : (m.headerSize : ℤ) < maxSize)
    (hn : chunkCount (maxSize - m.headerSize).toNat m.data.length ≤ 255) :
    ∃ frags, fragUDPMessage m maxSize = .ok frags ∧
      (∀ f ∈ frags, (f.size : ℤ) ≤ maxSize ∧ f.sessionID = m.sessionID ∧
        f.packetID = m.packetID ∧ f.addr = m.addr) ∧
      (frags.map fun f => f.data).flatten = m.data ∧
      ((m.size ≤ maxSize → m.fragCount ≤ 1) → Reassembles frags m) := by
  have hk : 0 < (maxSize - m.headerSize).toNat := by omega
  have hsum : ((m.headerSize + (maxSize - m.headerSize).toNat : ℕ) : ℤ) = maxSize := by
    omega
  obtain ⟨frags, hok, hall, hdata, hrun⟩ := fragUDPMessage_spec m hk hn
  rw [hsum] at hok
  refine ⟨frags, hok, ?_, hdata, ?_⟩
  · intro f hf
    obtain ⟨hsize, hsession, hpacket, haddr, _⟩ := hall f hf
    exact ⟨by omega, hsession, hpacket, haddr⟩
  · intro hwhole
    exact hrun fun hfits => hwhole (by omega)

def sampleMessage : UDPMessage := ⟨9, 7, 0, 1, [97], [1, 2, 3, 4, 5], none⟩

def sampleFragment (j : ℕ) : UDPMessage := fragment sampleMessage 2 3 j

theorem fragUDPMessage_roundTrip_sample :
    ∃ r, ((Run.exec step .new
        [⟨0, sampleFragment 2⟩, ⟨1, sampleFragment 0⟩, ⟨2, sampleFragment 0⟩]).step
          ⟨3, sampleFragment 1⟩).1 = some r ∧ r.data = [1, 2, 3, 4, 5] := by
  obtain ⟨frags, hok, _, _, hrun⟩ :=
    fragUDPMessage_roundTrip sampleMessage 12 (by decide) (by decide)
  have heval : fragUDPMessage sampleMessage 12 =
      .ok [sampleFragment 0, sampleFragment 1, sampleFragment 2] := rfl
  rw [heval, Except.ok.injEq] at hok
  subst hok
  obtain ⟨_, r, hr, hdata, _⟩ := hrun (by decide) .new
    [⟨0, sampleFragment 2⟩, ⟨1, sampleFragment 0⟩, ⟨2, sampleFragment 0⟩] ⟨3, sampleFragment 1⟩
    (by decide) (by decide) (by decide) (by decide)
  exact ⟨r, hr, hdata⟩

/-- A message that says it is one of two fragments is sent as it is when it fits, and nothing comes
out of a new reassembler; a closed one discards fragments; and one that holds a fragment under the
same packet id and count puts the old data into the message. -/
theorem reassembly_needs_whole_message_and_free_defragger :
    (∃ m : UDPMessage, fragUDPMessage m 100 = .ok [m] ∧ (new.step ⟨0, m⟩).1 = none) ∧
    ∃ m f₀ f₁ : UDPMessage, m.fragCount = 1 ∧ fragUDPMessage m 12 = .ok [f₀, f₁] ∧
      Run.answers step new.close.1 [⟨0, f₀⟩, ⟨1, f₁⟩] = [none, none] ∧
      ∃ old r : UDPMessage, r.data ≠ m.data ∧
        Run.answers step .new [⟨0, old⟩, ⟨1, f₀⟩, ⟨2, f₁⟩] = [none, none, some r] := by
  constructor
  · exact ⟨⟨9, 7, 0, 2, [97], [1], none⟩, rfl, rfl⟩
  · refine ⟨⟨9, 7, 0, 1, [97], [1, 2, 3], none⟩, ⟨9, 7, 0, 2, [97], [1, 2], none⟩,
      ⟨9, 7, 1, 2, [97], [3], none⟩, rfl, rfl, rfl, ?_⟩
    exact ⟨⟨9, 7, 0, 2, [97], [8, 8], none⟩, ⟨9, 7, 0, 1, [97], [8, 8, 3], none⟩, by decide, rfl⟩

end Outbound.Hysteria2
