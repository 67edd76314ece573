import Outbound.Lib.Custody
import Outbound.Tuic.Frag

/-! What one fragment set does with the payloads it is fed: each is kept in a slot or released, and
all of them are released once they are copied out. -/
namespace Outbound.Tuic

open Lib List Access Accounted

namespace DeFragger

variable (d : DeFragger)

def refs : List ℕ := (contents d.frags).map Received.ref

/-- What `store` does with the payload of `m`: it takes its length, or releases a duplicate. -/
def storeAccesses (m : Received) : List (Access ℕ) :=
  match d.frags.getD m.packet.fragID.toNat none with
  | none => [.read m.ref]
  | some held => if held.ref ≠ m.ref then [.release m.ref] else []

/-- The copy loop of `finish`, followed by the loop of `release`. -/
def finishAccesses (p : ℕ) : List (Access ℕ) :=
  if d.count = d.frags.length ∧ d.hasFirstFrag ∧ d.totalLen ≤ p then
    d.refs.map .read ++ d.refs.map .release
  else []

/-- The accesses to payloads in one call of `feed`, branch by branch. -/
def feedAccesses (m : Option Received) (p : ℕ) (nowNano : ℤ) : List (Access ℕ) :=
  let d := d.touch nowNano
  match m with
  | none => []
  | some m =>
    if m.packet.fragTotal ≤ 1 then [.read m.ref]
    else if m.packet.fragTotal ≤ m.packet.fragID then []
    else
      let d := if d.count = 0 then d.clear m.packet else d
      if d.frags.length ≠ m.packet.fragTotal.toNat then []
      else
        let d := d.noteFirst m.packet
        d.storeAccesses m ++ (d.store m).1.finishAccesses p

theorem releases_storeAccesses (m : Received) : releases (d.storeAccesses m) = (d.store m).2 := by
  unfold storeAccesses store
  cases d.frags.getD m.packet.fragID.toNat none with
  | none => rfl
  | some held => by_cases h : held.ref ≠ m.ref <;> simp [h]

theorem releases_finishAccesses (released : List ℕ) (p : ℕ) :
    (d.finish released p).1.released = released ++ releases (d.finishAccesses p) := by
  unfold finish finishAccesses
  split_ifs
  · rw [releases_append, releases_map_read, releases_map_release]
    rfl
  · simp

theorem releases_feedAccesses (m : Option Received) (p : ℕ) (nowNano : ℤ) :
    releases (d.feedAccesses m p nowNano) = (d.feed m p nowNano).1.released := by
  unfold feedAccesses feed
  cases m with
  | none => rfl
  | some m =>
    dsimp only
    split_ifs <;> try rfl
    all_goals rw [releases_append, releases_storeAccesses, releases_finishAccesses]

/-- The count is that of the filled slots, and every fragment is in the slot of its number in a set
of its total. -/
structure Kept : Prop where
  count : d.count = (contents d.frags).length
  slot : ∀ (j : ℕ) (r : Received), d.frags[j]? = some (some r) →
    r.packet.fragID.toNat = j ∧ r.packet.fragTotal.toNat = d.frags.length ∧ 1 < r.packet.fragTotal

/-- A fragment that `feed` goes on with: its header is one of a fragment, and the set is empty or
one of the same total. -/
structure Enters (m : Packet (Option Address)) (d : DeFragger) : Prop where
  total : 1 < m.fragTotal
  id : m.fragID < m.fragTotal
  fits : d.count = 0 ∨ d.frags.length = m.fragTotal.toNat

/-- The set that `feed` works on: an empty set takes the shape of the new message. -/
def opened (m : Packet (Option Address)) (nowNano : ℤ) : DeFragger :=
  let d := d.touch nowNano
  (if d.count = 0 then d.clear m else d).noteFirst m

section opened

variable {d} {m : Received} (nowNano : ℤ)

theorem length_opened (h : Enters m.packet d) :
    (d.opened m.packet nowNano).frags.length = m.packet.fragTotal.toNat := by
  unfold opened
  rw [noteFirst_frags]
  split_ifs with hcount
  · simp [clear]
  · exact h.fits.resolve_left hcount

theorem feed_eq (h : Enters m.packet d) (p : ℕ) :
    d.feed (some m) p nowNano =
      ((d.opened m.packet nowNano).store m).1.finish ((d.opened m.packet nowNano).store m).2 p := by
  have hlen := length_opened nowNano h
  unfold opened at hlen
  rw [noteFirst_frags] at hlen
  unfold feed
  dsimp only
  rw [if_neg (UInt8.not_le.mpr h.total), if_neg (UInt8.not_le.mpr h.id), if_neg (not_not.mpr hlen)]
  rfl

theorem feedAccesses_eq (h : Enters m.packet d) (p : ℕ) :
    d.feedAccesses (some m) p nowNano =
      (d.opened m.packet nowNano).storeAccesses m ++
        ((d.opened m.packet nowNano).store m).1.finishAccesses p := by
  have hlen := length_opened nowNano h
  unfold opened at hlen
  rw [noteFirst_frags] at hlen
  unfold feedAccesses
  dsimp only
  rw [if_neg (UInt8.not_le.mpr h.total), if_neg (UInt8.not_le.mpr h.id), if_neg (not_not.mpr hlen)]
  rfl

variable (hd : Kept d)

include hd

theorem Kept.contents_eq_nil (h : d.count = 0) : contents d.frags = [] := by
  apply eq_nil_of_length_eq_zero
  rw [← hd.count, h]

theorem Kept.noteFirst (m : Packet (Option Address)) : Kept (d.noteFirst m) where
  count := by
    simpa using hd.count
  slot := by
    simpa using hd.slot

theorem Kept.opened (m : Packet (Option Address)) : Kept (d.opened m nowNano) := by
  apply Kept.noteFirst
  split_ifs
  · exact ⟨by simp [clear], fun j r hr => absurd ⟨r, hr⟩ (not_holds_replicate_none _ _)⟩
  · exact ⟨hd.count, hd.slot⟩

theorem Kept.refs_opened (m : Packet (Option Address)) : (d.opened m nowNano).refs = d.refs := by
  unfold DeFragger.opened refs
  rw [noteFirst_frags]
  split_ifs with hcount
  · rw [hd.contents_eq_nil hcount, clear, contents_replicate_none]
  · rfl

end opened

section store

variable (released : List ℕ) (p : ℕ) {d} {m : Received}

theorem store_cases (h : m.packet.fragID.toNat < d.frags.length) :
    (d.frags[m.packet.fragID.toNat]? = some none ∧ d.storeAccesses m = [.read m.ref] ∧
      (d.store m).1.frags = d.frags.set m.packet.fragID.toNat (some m) ∧
      (d.store m).1.count = d.count + 1) ∨
    ∃ held, d.frags[m.packet.fragID.toNat]? = some (some held) ∧
      d.storeAccesses m = (if held.ref ≠ m.ref then [.release m.ref] else []) ∧
      (d.store m).1 = d := by
  have hget : d.frags[m.packet.fragID.toNat]? = some (d.frags.getD m.packet.fragID.toNat none) := by
    rw [getD_eq_getElem?_getD, getElem?_eq_getElem h]
    rfl
  unfold store storeAccesses
  cases hslot : d.frags.getD m.packet.fragID.toNat none with
  | none => exact .inl ⟨by rw [hget, hslot], rfl, rfl, rfl⟩
  | some held => exact .inr ⟨held, by rw [hget, hslot], rfl, rfl⟩

theorem mem_refs {r : Received} {i : ℕ} (h : d.frags[i]? = some (some r)) : r.ref ∈ d.refs :=
  mem_map_of_mem (mem_contents.mpr ⟨i, h⟩)

theorem store_accounted (h : m.packet.fragID.toNat < d.frags.length) (hfresh : m.ref ∉ d.refs) :
    Accounted (↑d.refs + {m.ref}) ↑(d.store m).1.refs (d.storeAccesses m) 0 := by
  rcases store_cases h with ⟨hnone, hacc, hfrags, _⟩ | ⟨held, hsome, hacc, hstore⟩
  · have hrefs : (↑(d.store m).1.refs : Multiset ℕ) = ↑d.refs + {m.ref} := by
      unfold refs
      rw [hfrags, Multiset.coe_eq_coe.mpr ((contents_set_perm hnone m).map Received.ref),
        map_cons, ← Multiset.cons_coe, ← Multiset.singleton_add, add_comm]
    rw [hrefs, hacc]
    exact reads (l := [m.ref]) (by simp)
  · have hne : held.ref ≠ m.ref := fun heq => hfresh (heq ▸ mem_refs hsome)
    have hrel := (releases (nodup_singleton m.ref)).frame ↑d.refs
    rw [hstore, hacc, if_pos hne, add_comm]
    rwa [zero_add] at hrel

theorem Kept.store (hd : Kept d) (h : m.packet.fragID.toNat < d.frags.length)
    (hlen : d.frags.length = m.packet.fragTotal.toNat) (htotal : 1 < m.packet.fragTotal) :
    Kept (d.store m).1 ∧ 0 < (d.store m).1.count := by
  rcases store_cases h with ⟨hnone, _, hfrags, hcount⟩ | ⟨held, hsome, _, hstore⟩
  · have hslots : (d.store m).1.frags.length = d.frags.length := by
      rw [hfrags, length_set]
    refine ⟨⟨?_, ?_⟩, by omega⟩
    · rw [hcount, hfrags, (contents_set_perm hnone m).length_eq, length_cons, hd.count]
    · rw [hslots, hfrags]
      exact forall_of_set h ⟨rfl, hlen.symm, htotal⟩ hd.slot
  · rw [hstore]
    have hmem : held ∈ contents d.frags := mem_contents.mpr ⟨_, hsome⟩
    have hpos := length_pos_of_mem hmem
    rw [← hd.count] at hpos
    exact ⟨hd, hpos⟩

variable (d)

theorem finish_accounted (hn : d.refs.Nodup) :
    Accounted ↑d.refs ↑(d.finish released p).2.refs (d.finishAccesses p) 0 := by
  unfold finish finishAccesses
  split_ifs
  · have hempty : d.release.1.refs = [] := by
      unfold refs
      rw [release, contents_replicate_none]
      rfl
    rw [hempty]
    exact (reads (fun x hx => hx)).trans (Multiset.coe_nodup.mpr hn) (releases hn)
  · exact idle _

/-- A set that is handed out is empty afterwards; any other is left as it is, and is not one that
fits into the buffer. -/
theorem finish_cases :
    (d.finish released p).1.assembled = true ∧ (d.finish released p).2.refs = [] ∨
    (d.finish released p).1.assembled = false ∧ (d.finish released p).2 = d ∧
      (d.assembledLen.2 = true → p < d.assembledLen.1) := by
  unfold finish
  split_ifs with h
  · left
    refine ⟨rfl, ?_⟩
    unfold refs
    rw [release, contents_replicate_none]
    rfl
  · right
    refine ⟨rfl, rfl, fun hready => ?_⟩
    simp only [assembledLen, Bool.and_eq_true, beq_iff_eq] at hready
    by_contra hfit
    exact h ⟨hready.1, hready.2, by simpa [assembledLen] using hfit⟩

end store

section feed

variable {d} {m : Received} (p : ℕ) (nowNano : ℤ)

theorem Enters.lt_length_opened (h : Enters m.packet d) :
    m.packet.fragID.toNat < (d.opened m.packet nowNano).frags.length := by
  rw [length_opened nowNano h]
  exact UInt8.lt_iff_toNat_lt.mp h.id

theorem feed_accounted (hd : Kept d) (h : Enters m.packet d)
    (hn : (↑d.refs + {m.ref} : Multiset ℕ).Nodup) :
    Accounted (↑d.refs + {m.ref}) ↑(d.feed (some m) p nowNano).2.refs
      (d.feedAccesses (some m) p nowNano) 0 := by
  have hrefs := hd.refs_opened nowNano m.packet
  have hfresh : m.ref ∉ (d.opened m.packet nowNano).refs := by
    rw [hrefs]
    have hdisj := (Multiset.nodup_add.mp hn).2.2
    intro hmem
    exact Multiset.disjoint_left.mp hdisj hmem (Multiset.mem_singleton_self _)
  have hstore := store_accounted (h.lt_length_opened nowNano) hfresh
  rw [hrefs] at hstore
  have hn' : ((d.opened m.packet nowNano).store m).1.refs.Nodup := by
    rw [hstore.balance] at hn
    exact (Multiset.nodup_add.mp (Multiset.nodup_add.mp hn).1).1
  rw [feed_eq nowNano h, feedAccesses_eq nowNano h]
  exact hstore.trans hn (finish_accounted _ _ p hn')

/-- A set that was handed out is empty. Any other is in order, and does not fit if complete. -/
theorem feed_left (hd : Kept d) (h : Enters m.packet d) :
    (d.feed (some m) p nowNano).1.assembled = true ∧ (d.feed (some m) p nowNano).2.refs = [] ∨
    (d.feed (some m) p nowNano).1.assembled = false ∧ Kept (d.feed (some m) p nowNano).2 ∧
      0 < (d.feed (some m) p nowNano).2.count ∧
      ((d.feed (some m) p nowNano).2.assembledLen.2 = true →
        p < (d.feed (some m) p nowNano).2.assembledLen.1) := by
  have hkept := (hd.opened nowNano m.packet).store (h.lt_length_opened nowNano)
    (length_opened nowNano h) h.total
  rw [feed_eq nowNano h]
  rcases finish_cases ((d.opened m.packet nowNano).store m).1
    ((d.opened m.packet nowNano).store m).2 p with hdone | ⟨hnot, hsame, hfit⟩
  · exact .inl hdone
  · rw [hsame]
    exact .inr ⟨hnot, hkept.1, hkept.2, hfit⟩

end feed

section trigger

variable {d}

theorem Kept.enters (hd : Kept d) {r : Received} {j : ℕ} (hr : d.frags[j]? = some (some r)) :
    Enters r.packet d := by
  obtain ⟨hid, htotal, hone⟩ := hd.slot j r hr
  have hlt := (List.getElem?_eq_some_iff.mp hr).1
  refine ⟨hone, ?_, .inr htotal.symm⟩
  rwa [UInt8.lt_iff_toNat_lt, hid, htotal]

theorem opened_trigger (hd : Kept d) (hpos : 0 < d.count) {r : Received} {j : ℕ}
    (hr : d.frags[j]? = some (some r)) (nowNano : ℤ) :
    (d.opened r.packet nowNano).storeAccesses r = [] ∧
      ((d.opened r.packet nowNano).store r).1 = (d.touch nowNano).noteFirst r.packet := by
  have hopened : d.opened r.packet nowNano = (d.touch nowNano).noteFirst r.packet := by
    unfold opened
    dsimp only
    rw [if_neg (show (d.touch nowNano).count ≠ 0 from hpos.ne')]
  have hfrags : ((d.touch nowNano).noteFirst r.packet).frags = d.frags := by
    rw [noteFirst_frags]
    rfl
  have hid := (hd.slot j r hr).1
  rw [hopened]
  rcases store_cases (d := (d.touch nowNano).noteFirst r.packet) (m := r)
    (by rw [hfrags, hid]; exact (List.getElem?_eq_some_iff.mp hr).1)
    with ⟨hnone, _⟩ | ⟨held, hsome, hacc, hstore⟩
  · rw [hfrags, hid, hr] at hnone
    cases hnone
  · rw [hfrags, hid, hr, Option.some.injEq, Option.some.injEq] at hsome
    rw [hacc, ← hsome]
    exact ⟨if_neg (not_not.mpr rfl), hstore⟩

/-- A complete set that fits is handed out when one of its own fragments is fed again. -/
theorem feed_trigger (hd : Kept d) (hpos : 0 < d.count) {p : ℕ} (hready : d.assembledLen.2 = true)
    (hfit : d.assembledLen.1 ≤ p) (nowNano : ℤ) :
    ∃ (r : Received) (j : ℕ), (contents d.frags).head? = some r ∧ d.frags[j]? = some (some r) ∧
      (d.feed (some r) p nowNano).1.assembled = true ∧ (d.refs.Nodup →
        Accounted ↑d.refs 0 (d.feedAccesses (some r) p nowNano) 0) := by
  have hne : contents d.frags ≠ [] := by
    rwa [← length_pos_iff, ← hd.count]
  obtain ⟨r, rest, hcontents⟩ := exists_cons_of_ne_nil hne
  obtain ⟨j, hr⟩ := mem_contents.mp (show r ∈ contents d.frags by simp [hcontents])
  obtain ⟨hacc, hstore⟩ := opened_trigger hd hpos hr nowNano
  have henters := hd.enters hr
  have hrefs : ((d.touch nowNano).noteFirst r.packet).refs = d.refs := by
    unfold refs
    rw [noteFirst_frags]
    rfl
  have hassembled : ((d.touch nowNano).noteFirst r.packet).assembledLen = d.assembledLen := by
    simp only [assembledLen, Bool.and_eq_true] at hready
    unfold assembledLen
    rw [noteFirst_frags, noteFirst_count, noteFirst_totalLen, hready.2]
    unfold noteFirst
    split_ifs
    · rfl
    · exact congrArg _ (congrArg _ hready.2)
  refine ⟨r, j, by rw [hcontents, head?_cons], hr, ?_⟩
  rw [feed_eq nowNano henters, feedAccesses_eq nowNano henters, hstore, hacc, nil_append]
  rcases finish_cases ((d.touch nowNano).noteFirst r.packet)
    ((d.opened r.packet nowNano).store r).2 p with ⟨hdone, hempty⟩ | ⟨_, _, hlarge⟩
  · refine ⟨hdone, fun hn => ?_⟩
    have hfinish := finish_accounted ((d.touch nowNano).noteFirst r.packet)
      ((d.opened r.packet nowNano).store r).2 p (hrefs.symm ▸ hn)
    rwa [hempty, hrefs] at hfinish
  · rw [hassembled] at hlarge
    exact absurd (hlarge hready) (by omega)

end trigger

end DeFragger

end Outbound.Tuic
