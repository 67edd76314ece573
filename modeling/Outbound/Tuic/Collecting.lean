import Outbound.Tuic.Reassembly

/-! One fragment set on its way to completion: which fragments a reassembler holds, and what it
does with the next one. -/
namespace Outbound.Tuic

open Lib List DeFragger

structure Flow where
  pktID : UInt16
  total : ℕ
  piece : ℕ → Bytes
  addr : AddrPort
  two_le : 2 ≤ total
  piece_pos : ∀ i < total, 0 < (piece i).length
  addr_valid : addr.isValid = true

namespace Flow

def payload (F : Flow) : Bytes := ((range F.total).map F.piece).flatten

structure Carries (F : Flow) (i : ℕ) (m : Packet (Option Address)) : Prop where
  pktID : m.pktID = F.pktID
  total : m.fragTotal.toNat = F.total
  id : m.fragID.toNat = i
  lt : i < F.total
  data : m.data = F.piece i
  addr : i = 0 → packetFragmentAddrPort m = F.addr

theorem payload_length_pos (F : Flow) : 0 < F.payload.length := by
  have h0 : 0 < F.total := by
    have := F.two_le
    omega
  have hmem : F.piece 0 ∈ (range F.total).map F.piece := mem_map.mpr ⟨0, mem_range.mpr h0, rfl⟩
  have hle := (sublist_flatten_of_mem hmem).length_le
  have hpos := F.piece_pos 0 h0
  exact Nat.lt_of_lt_of_le hpos hle

variable {F : Flow} {i : ℕ} {m : Packet (Option Address)} (h : F.Carries i m)

include h

theorem Carries.one_lt : ¬ m.fragTotal ≤ 1 := by
  have h2 := F.two_le
  have ht := h.total
  rw [UInt8.le_iff_toNat_le]
  simp only [UInt8.toNat_one]
  omega

theorem Carries.inRange : ¬ m.fragTotal ≤ m.fragID := by
  have hlt := h.lt
  rw [UInt8.le_iff_toNat_le, h.total, h.id]
  omega

theorem Carries.fragID_eq_zero_iff : m.fragID = 0 ↔ i = 0 := by
  rw [← h.id, ← UInt8.toNat_inj]
  rfl

end Flow

/-- The state after taking in a fragment of an open set. -/
def DeFragger.absorb (d : DeFragger) (r : Received) : DeFragger :=
  ((d.noteFirst r.packet).store r).1

/-- The reassembler `d` holds fragments of `F` and nothing else. -/
structure Collecting (F : Flow) (d : DeFragger) : Prop where
  pkgID : d.pkgID = F.pktID
  length : d.frags.length = F.total
  count : d.count = filled d.frags
  totalLen : d.totalLen = ((contents d.frags).map fun r => r.packet.data.length).sum
  carries : ∀ i r, d.frags[i]? = some (some r) → F.Carries i r.packet
  first : d.hasFirstFrag = true ↔ Holds d.frags 0
  firstAddr : d.hasFirstFrag = true → d.firstAddrPort = F.addr

namespace Collecting

variable {F : Flow} {d : DeFragger} {i : ℕ} {r : Received}

theorem touch (h : Collecting F d) (nowNano : ℤ) : Collecting F (d.touch nowNano) :=
  ⟨h.pkgID, h.length, h.count, h.totalLen, h.carries, h.first, h.firstAddr⟩

theorem clear (d : DeFragger) (hm : F.Carries i r.packet) : Collecting F (d.clear r.packet) := by
  constructor
  · exact hm.pktID
  · simp [DeFragger.clear, hm.total]
  · simp [DeFragger.clear]
  · simp [DeFragger.clear]
  · intro j s hs
    exact absurd ⟨s, hs⟩ (not_holds_replicate_none _ j)
  · constructor
    · intro hfalse
      cases hfalse
    · intro hholds
      exact absurd hholds (not_holds_replicate_none _ 0)
  · intro hfalse
    cases hfalse

theorem isMatch_iff (h : Collecting F d) (hpos : 0 < d.count) (hm : F.Carries i r.packet) :
    d.isMatch r.packet = true ↔ i = 0 ∨ ¬ Holds d.frags i := by
  have hcount : d.count ≠ 0 := by omega
  have hsame : ¬ (d.pkgID ≠ r.packet.pktID ∨ d.frags.length ≠ r.packet.fragTotal.toNat) := by
    rw [h.pkgID, hm.pktID, h.length, hm.total]
    simp
  unfold isMatch
  rw [if_neg hm.one_lt, if_neg hcount, if_neg hsame, if_neg hm.inRange]
  by_cases hi : i = 0
  · rw [if_pos (hm.fragID_eq_zero_iff.mpr hi)]
    cases hf : d.hasFirstFrag with
    | false => simp [hi]
    | true =>
      simp [hi, hm.addr hi, h.firstAddr hf, F.addr_valid]
  · rw [if_neg (mt hm.fragID_eq_zero_iff.mp hi), hm.id]
    have hlt : i < d.frags.length := by
      rw [h.length]
      exact hm.lt
    rw [getD_eq_getElem?_getD, getElem?_eq_getElem hlt]
    simp only [Option.getD_some, hi, false_or, Holds, getElem?_eq_getElem hlt, Option.some.injEq]
    cases d.frags[i] <;> simp

theorem noteFirst_of_ne (d : DeFragger) (hm : F.Carries i r.packet) (hi : i ≠ 0) :
    d.noteFirst r.packet = d := by
  have hne := mt hm.fragID_eq_zero_iff.mp hi
  unfold noteFirst
  rw [if_neg (fun h => hne h.1)]

theorem noteFirst_of_eq (d : DeFragger) (hm : F.Carries i r.packet) (hi : i = 0) :
    d.noteFirst r.packet = { d with firstAddrPort := F.addr, hasFirstFrag := true } := by
  have haddr := hm.addr hi
  unfold noteFirst
  rw [if_pos ⟨hm.fragID_eq_zero_iff.mpr hi, by rw [haddr]; exact F.addr_valid⟩, haddr]

section

variable (h : Collecting F d)

include h

section

variable (hm : F.Carries i r.packet)

include hm

theorem absorb_of_not_holds (hi : ¬ Holds d.frags i) :
    d.absorb r = { d.noteFirst r.packet with
      frags := d.frags.set i (some r)
      count := d.count + 1
      totalLen := d.totalLen + r.packet.data.length } := by
  have hlt : i < d.frags.length := by
    rw [h.length]
    exact hm.lt
  have hnone := getElem?_of_not_holds hlt hi
  unfold absorb store
  simp [noteFirst_frags, hm.id, hnone, noteFirst_count, noteFirst_totalLen]

theorem absorb_of_holds (hi : Holds d.frags i) : d.absorb r = d := by
  obtain ⟨s, hs⟩ := hi
  unfold absorb store
  rw [noteFirst_frags, hm.id, getD_eq_getElem?_getD, hs]
  change d.noteFirst r.packet = d
  by_cases h0 : i = 0
  · have hfirst : d.hasFirstFrag = true := by
      apply h.first.mpr
      rw [← h0]
      exact ⟨s, hs⟩
    rw [noteFirst_of_eq d hm h0, ← h.firstAddr hfirst, ← hfirst]
  · exact noteFirst_of_ne d hm h0

theorem holds_absorb_iff (j : ℕ) : Holds (d.absorb r).frags j ↔ j = i ∨ Holds d.frags j := by
  by_cases hi : Holds d.frags i
  · rw [absorb_of_holds h hm hi]
    constructor
    · exact .inr
    · rintro (rfl | hj)
      · exact hi
      · exact hj
  · have hlt : i < d.frags.length := by
      rw [h.length]
      exact hm.lt
    rw [absorb_of_not_holds h hm hi]
    exact holds_set_iff hlt r j

theorem absorb_collecting : Collecting F (d.absorb r) := by
  by_cases hi : Holds d.frags i
  · rwa [absorb_of_holds h hm hi]
  have hlt : i < d.frags.length := by
    rw [h.length]
    exact hm.lt
  have hnone := getElem?_of_not_holds hlt hi
  rw [absorb_of_not_holds h hm hi]
  constructor
  · exact (d.noteFirst_pkgID r.packet).trans h.pkgID
  · simp [h.length]
  · rw [filled_set hnone, h.count]
  · rw [sum_contents_set hnone, h.totalLen]
  · exact forall_of_set (P := fun j s => F.Carries j s.packet) hlt hm h.carries
  · simp only [holds_set_iff hlt]
    by_cases h0 : i = 0
    · rw [noteFirst_of_eq d hm h0]
      simp [h0]
    · rw [noteFirst_of_ne d hm h0, h.first]
      simp [Ne.symm h0]
  · intro hfirst
    by_cases h0 : i = 0
    · rw [noteFirst_of_eq d hm h0]
    · rw [noteFirst_of_ne d hm h0] at hfirst ⊢
      exact h.firstAddr hfirst

theorem count_absorb_pos : 0 < (d.absorb r).count := by
  have hc := absorb_collecting h hm
  have hholds := (holds_absorb_iff h hm i).mpr (.inl rfl)
  obtain ⟨s, hs⟩ := hholds
  rw [hc.count, filled, countP_pos_iff]
  exact ⟨some s, mem_of_getElem? hs, rfl⟩

end

end

def Full (F : Flow) (d : DeFragger) : Prop := ∀ i < F.total, Holds d.frags i

section

variable (h : Collecting F d)

include h

theorem ready_iff : (d.count = d.frags.length ∧ d.hasFirstFrag = true) ↔ Full F d := by
  have h2 := F.two_le
  rw [h.count, filled_eq_length_iff, h.first, h.length]
  constructor
  · exact fun hr => hr.1
  · exact fun hr => ⟨hr, hr 0 (by omega)⟩

theorem map_data_of_full (hfull : Full F d) :
    (contents d.frags).map (fun r => r.packet.data) = (range F.total).map F.piece := by
  rw [← h.length]
  apply map_contents_of_full
  intro i hi
  rw [h.length] at hi
  obtain ⟨s, hs⟩ := hfull i hi
  exact ⟨s, hs, (h.carries i s hs).data⟩

theorem totalLen_of_full (hfull : Full F d) : d.totalLen = F.payload.length := by
  rw [h.totalLen, Flow.payload, ← map_data_of_full h hfull, length_flatten, map_map]
  rfl

theorem finish_of_full (hfull : Full F d) (released : List ℕ) {p : ℕ} (hp : F.payload.length ≤ p) :
    d.finish released p =
      (⟨F.payload, F.addr, true, released ++ d.release.2⟩, d.release.1) := by
  obtain ⟨hcount, hfirst⟩ := h.ready_iff.mpr hfull
  have hlen := totalLen_of_full h hfull
  unfold finish
  rw [if_pos ⟨hcount, hfirst, by omega⟩, map_data_of_full h hfull, h.firstAddr hfirst]
  rw [show ((range F.total).map F.piece).flatten = F.payload from rfl, take_of_length_le hp]

theorem finish_of_short (released : List ℕ) {p : ℕ} (hshort : Full F d → p < F.payload.length) :
    d.finish released p = (⟨[], .zero, false, released⟩, d) := by
  unfold finish
  rw [if_neg]
  rintro ⟨hcount, hfirst, hle⟩
  have hfull := h.ready_iff.mp ⟨hcount, hfirst⟩
  have hlt := hshort hfull
  rw [totalLen_of_full h hfull] at hle
  omega

theorem feed_eq (hpos : 0 < d.count) (hm : F.Carries i r.packet) (p : ℕ) (nowNano : ℤ) :
    ∃ released, d.feed (some r) p nowNano = ((d.touch nowNano).absorb r).finish released p := by
  have hcount : (d.touch nowNano).count ≠ 0 := by
    change d.count ≠ 0
    omega
  have hlen : ¬ (d.touch nowNano).frags.length ≠ r.packet.fragTotal.toNat := by
    rw [(h.touch nowNano).length, hm.total]
    simp
  refine ⟨(((d.touch nowNano).noteFirst r.packet).store r).2, ?_⟩
  unfold feed
  simp only [if_neg hm.one_lt, if_neg hm.inRange, if_neg hcount, if_neg hlen]
  rfl

end

theorem feed_new_eq (hm : F.Carries i r.packet) (p : ℕ) (nowNano : ℤ) :
    ∃ d released, Collecting F d ∧ (∀ j, ¬ Holds d.frags j) ∧
      (new nowNano).feed (some r) p nowNano = (d.absorb r).finish released p := by
  let d := ((new nowNano).touch nowNano).clear r.packet
  have hd : Collecting F d := clear _ hm
  have hcount : ((new nowNano).touch nowNano).count = 0 := rfl
  have hlen : ¬ d.frags.length ≠ r.packet.fragTotal.toNat := by
    rw [hd.length, hm.total]
    simp
  refine ⟨d, ((d.noteFirst r.packet).store r).2, hd, not_holds_replicate_none _, ?_⟩
  unfold feed
  simp only [if_neg hm.one_lt, if_neg hm.inRange, if_pos hcount]
  exact if_neg hlen

end Collecting

end Outbound.Tuic
