import Mathlib.Data.Multiset.Range
import Outbound.Tuic.FragmentCustody
import Outbound.Tuic.Reassembly

/-! Who owns the payloads of the fragments: along every run of calls on a bucket each payload is in
the slots of one fragment set until it is released, and it is not touched after that. -/
namespace Outbound.Tuic

open Lib List Access Accounted
open Multiset (coe_add coe_nodup mem_coe nodup_add nodup_range singleton_add)

theorem swapRemove_perm {ds : List DeFragger} {i : ℕ} (h : i < ds.length) :
    (swapRemove ds i).Perm (ds.eraseIdx i) := by
  have hne : ds ≠ [] := ne_nil_of_length_pos (by omega)
  obtain ⟨init, last, rfl⟩ : ∃ init last, ds = init ++ [last] :=
    ⟨ds.dropLast, ds.getLast hne, (dropLast_append_getLast hne).symm⟩
  unfold swapRemove
  rw [getLast?_append_of_ne_nil _ (by simp)]
  dsimp only [getLast?_singleton]
  rw [length_append, length_singleton] at h
  by_cases hi : i < init.length
  · -- the last set moves into the gap
    rw [set_append_left _ _ hi, dropLast_concat, eraseIdx_append_of_lt_length hi]
    exact (set_perm_cons_eraseIdx hi last).trans (perm_append_singleton _ _).symm
  · -- the set that goes is the last one
    have heq : i = init.length := by omega
    subst heq
    simp [eraseIdx_append_of_length_le]

namespace DeFraggerBucket

def heldBy (ds : List DeFragger) : Multiset ℕ := ↑(ds.flatMap DeFragger.refs)

variable (d : DeFragger)

@[simp] theorem heldBy_cons (ds : List DeFragger) : heldBy (d :: ds) = ↑d.refs + heldBy ds := by
  simp [heldBy]

theorem heldBy_perm {ds es : List DeFragger} (h : ds.Perm es) : heldBy ds = heldBy es :=
  Multiset.coe_eq_coe.mpr (h.flatMap_right _)

/-- A fragment set as a bucket has it between calls. -/
def Live : Prop := d.Kept ∧ 0 < d.count

variable (b : DeFraggerBucket)

def feedNilAccesses (p : ℕ) (nowNano : ℤ) : List (Access ℕ) :=
  match b.deFraggers.findIdx? (isReady p) with
  | none => []
  | some i =>
    let d := b.deFraggers.getD i (.new nowNano)
    d.feedAccesses (contents d.frags).head? p nowNano

def feedAtAccesses (i : ℕ) (packet : Received) (p : ℕ) (nowNano : ℤ) : List (Access ℕ) :=
  let d := b.deFraggers.getD i (.new nowNano)
  if d.assembledLen.2 ∧ p < d.assembledLen.1 then [] else d.feedAccesses (some packet) p nowNano

def feedRouteAccesses (packet : Received) (p : ℕ) (nowNano : ℤ) :
    Route → List (Access ℕ)
  | .drop => [.release packet.ref]
  | .existing i => b.feedAtAccesses i packet p nowNano
  | .fresh => feedAtAccesses ⟨b.deFraggers ++ [.new nowNano]⟩ b.deFraggers.length packet p nowNano

/-- The accesses to payloads in one call of `feed`, branch by branch. -/
def feedAccesses (packet : Received) (p : ℕ) (nowNano : ℤ) : List (Access ℕ) :=
  if packet.packet.fragTotal ≤ 1 ∨ packet.packet.fragTotal ≤ packet.packet.fragID then
    [.release packet.ref]
  else b.feedRouteAccesses packet p nowNano (b.route packet.packet)

/-- The fragment goes to a set that is complete already and too long for the buffer: `feed` returns
the length of the set and leaves the fragment alone. -/
def turnsAway (packet : Packet (Option Address)) (p : ℕ) : Bool :=
  if packet.fragTotal ≤ 1 ∨ packet.fragTotal ≤ packet.fragID then false
  else
    match b.route packet with
    | .existing i =>
      let d := b.deFraggers.getD i (.new 0)
      d.assembledLen.2 && p < d.assembledLen.1
    | _ => false

section releases

variable (p : ℕ) (nowNano : ℤ)

theorem releases_feedNilAccesses :
    releases (b.feedNilAccesses p nowNano) = (b.feedNil p nowNano).1.released := by
  unfold feedNilAccesses feedNil
  cases b.deFraggers.findIdx? (isReady p) with
  | none => rfl
  | some i => exact DeFragger.releases_feedAccesses _ _ p nowNano

theorem releases_feedAtAccesses (i : ℕ) (packet : Received) :
    releases (b.feedAtAccesses i packet p nowNano) =
      (b.feedAt i packet p nowNano).1.released := by
  unfold feedAtAccesses feedAt
  dsimp only
  split_ifs
  · rfl
  · rw [DeFragger.releases_feedAccesses]
    unfold fedAt
    split_ifs <;> rfl

theorem releases_feedAccesses (packet : Received) :
    releases (b.feedAccesses packet p nowNano) =
      (b.feed packet p nowNano).1.released := by
  unfold feedAccesses feed
  split_ifs
  · rfl
  · cases b.route packet.packet with
    | drop => rfl
    | existing i => exact b.releases_feedAtAccesses p nowNano i packet
    | fresh => exact releases_feedAtAccesses _ p nowNano _ packet

end releases

/-- What a call that was given `given` leaves behind, with a buffer of `p` bytes: a complete set in
the bucket was there before, or the call has just completed it, and reports that the buffer is too
short for it. -/
structure Handled (given : Multiset ℕ) (p : ℕ)
    (s : BucketFed × DeFraggerBucket) (t : List (Access ℕ)) (lost : Multiset ℕ) : Prop where
  accounted : Accounted (heldBy b.deFraggers + given) (heldBy s.2.deFraggers) t lost
  live : ∀ d ∈ s.2.deFraggers, Live d
  complete : ∀ d ∈ s.2.deFraggers, d.assembledLen.2 = true → d ∈ b.deFraggers ∨
    s.1.assembled = false ∧ s.1.assembledLen = d.assembledLen.1 ∧ p < d.assembledLen.1

/-- A call that goes on with the set `d`, one of the bucket or a new one, beside the sets `rest`. -/
structure Feeds (m : Received) (p : ℕ) (nowNano : ℤ) (d : DeFragger)
    (rest : List DeFragger) (s : BucketFed × DeFraggerBucket) : Prop where
  enters : DeFragger.Enters m.packet d
  origin : b.deFraggers.Perm (d :: rest) ∧ d.isMatch m.packet = true ∨
    d = .new nowNano ∧ b.deFraggers = rest
  left : s.2.deFraggers.Perm (if (d.feed (some m) p nowNano).1.assembled then rest
    else (d.feed (some m) p nowNano).2 :: rest)
  out : ∃ c i size, s.1 = (fedAt c i size (d.feed (some m) p nowNano)).1

section feed

variable {b} {i : ℕ}

theorem getD_eq (h : i < b.deFraggers.length) (d : DeFragger) :
    b.deFraggers.getD i d = b.deFraggers[i] := by
  rw [getD_eq_getElem?_getD, getElem?_eq_getElem h]
  rfl

theorem deFraggers_fedAt_perm (h : i < b.deFraggers.length) (size : ℕ) (s : Fed × DeFragger) :
    (b.fedAt i size s).2.deFraggers.Perm
      (if s.1.assembled then b.deFraggers.eraseIdx i else s.2 :: b.deFraggers.eraseIdx i) := by
  unfold fedAt
  split_ifs
  · have hlt : i < (b.deFraggers.set i s.2).length := by rwa [length_set]
    have hperm := swapRemove_perm hlt
    rwa [eraseIdx_set_eq] at hperm
  all_goals exact set_perm_cons_eraseIdx h s.2

variable {m : Received} {packet : Packet (Option Address)}

theorem enters_of_isMatch {d : DeFragger}
    (h : d.isMatch packet = true) : DeFragger.Enters packet d := by
  unfold DeFragger.isMatch at h
  split_ifs at h with htotal hcount hother hid hfirst hnew
  · exact ⟨UInt8.not_le.mp htotal, of_decide_eq_true h, .inl hcount⟩
  all_goals
    rw [not_or, not_not, not_not] at hother
    exact ⟨UInt8.not_le.mp htotal, UInt8.not_le.mp hid, .inr hother.2⟩

theorem mem_candidates_of_route (h : b.route packet = .existing i) : i ∈ b.candidates packet := by
  unfold route at h
  split at h
  · cases h
  · next hone =>
    rw [hone, ← Route.existing.inj h]
    exact mem_singleton_self _
  · dsimp only at h
    split_ifs at h
    · split at h
      · next hfind =>
        rw [← Route.existing.inj h]
        exact mem_of_find?_eq_some hfind
      · split at h
        · next hfind =>
          rw [← Route.existing.inj h]
          exact mem_of_find?_eq_some hfind
        · cases h
    · split at h
      · next hfilter =>
        rw [← Route.existing.inj h]
        exact (mem_filter.mp (hfilter ▸ mem_singleton_self _)).1
      · cases h

/-- A fragment is released, or turned away, or goes to a set. -/
theorem feed_inv (b : DeFraggerBucket) (m : Received) (p : ℕ) (nowNano : ℤ) :
    (b.feed m p nowNano = (⟨[], .zero, false, 0, [m.ref]⟩, b) ∧
      b.feedAccesses m p nowNano = [.release m.ref] ∧ b.turnsAway m.packet p = false) ∨
    (∃ size, b.feed m p nowNano = (⟨[], .zero, false, size, []⟩, b) ∧
      b.feedAccesses m p nowNano = [] ∧ b.turnsAway m.packet p = true) ∨
    ∃ d rest, b.Feeds m p nowNano d rest (b.feed m p nowNano) ∧
      b.feedAccesses m p nowNano = d.feedAccesses (some m) p nowNano ∧
      b.turnsAway m.packet p = false := by
  unfold feed feedAccesses turnsAway
  split_ifs with hhead
  · exact .inl ⟨rfl, rfl, rfl⟩
  rw [not_or, UInt8.not_le, UInt8.not_le] at hhead
  cases hroute : b.route m.packet with
  | drop => exact .inl ⟨rfl, rfl, rfl⟩
  | existing i =>
    right
    obtain ⟨hrange, hmatch⟩ := mem_filter.mp (mem_candidates_of_route hroute)
    have hi := mem_range.mp hrange
    rw [getD_eq hi] at hmatch
    simp only [feedRoute, feedRouteAccesses, feedAt, feedAtAccesses, getD_eq hi]
    by_cases hlong : b.deFraggers[i].assembledLen.2 = true ∧ p < b.deFraggers[i].assembledLen.1
    · simp [hlong]
    · rw [if_neg hlong, if_neg hlong]
      refine .inr ⟨_, _, ⟨enters_of_isMatch hmatch,
        .inl ⟨(getElem_cons_eraseIdx_perm hi).symm, hmatch⟩, deFraggers_fedAt_perm hi _ _,
        b, i, _, rfl⟩, rfl, ?_⟩
      rwa [← Bool.not_eq_true, Bool.and_eq_true, decide_eq_true_eq]
  | fresh =>
    let c : DeFraggerBucket := ⟨b.deFraggers ++ [.new nowNano]⟩
    have hlt : b.deFraggers.length < c.deFraggers.length := by simp [c]
    have hget : c.deFraggers[b.deFraggers.length] = .new nowNano := by simp [c]
    have herase : c.deFraggers.eraseIdx b.deFraggers.length = b.deFraggers := by
      simp [c, eraseIdx_append_of_length_le]
    have hperm := deFraggers_fedAt_perm hlt 0 ((DeFragger.new nowNano).feed (some m) p nowNano)
    rw [herase] at hperm
    refine .inr (.inr ⟨.new nowNano, b.deFraggers, ⟨⟨hhead.1, hhead.2, .inl rfl⟩, .inr ⟨rfl, rfl⟩,
      ?_, ?_⟩, ?_, rfl⟩)
    all_goals simp only [feedRoute, feedRouteAccesses, feedAt, feedAtAccesses]
    all_goals rw [getD_eq hlt, hget]
    · exact hperm
    · exact ⟨c, b.deFraggers.length, 0, rfl⟩
    · rfl

theorem kept_new (nowNano : ℤ) : (DeFragger.new nowNano).Kept where
  count := rfl
  slot j r hr := by simp [DeFragger.new] at hr

theorem released_handled (hb : ∀ d ∈ b.deFraggers, Live d) (ref p : ℕ) :
    Handled b {ref} p (⟨[], .zero, false, 0, [ref]⟩, b) [.release ref] 0 where
  accounted := by
    have h := (releases (nodup_singleton ref)).frame (heldBy b.deFraggers)
    rwa [zero_add, add_comm] at h
  live := hb
  complete d hd _ := .inl hd

theorem Feeds.handled {p : ℕ} {nowNano : ℤ} {d : DeFragger} {rest : List DeFragger}
    {s : BucketFed × DeFraggerBucket} (h : b.Feeds m p nowNano d rest s)
    (hb : ∀ d ∈ b.deFraggers, Live d) (hn : (heldBy b.deFraggers + {m.ref}).Nodup) :
    Handled b {m.ref} p s (d.feedAccesses (some m) p nowNano) 0 := by
  obtain ⟨hkept, hrest, hheld⟩ : d.Kept ∧ (∀ e ∈ rest, e ∈ b.deFraggers) ∧
      heldBy b.deFraggers = ↑d.refs + heldBy rest := by
    rcases h.origin with ⟨hperm, -⟩ | ⟨rfl, rfl⟩
    · exact ⟨(hb d (hperm.mem_iff.mpr mem_cons_self)).1,
        fun e he => hperm.mem_iff.mpr (mem_cons_of_mem _ he), by rw [heldBy_perm hperm, heldBy_cons]⟩
    · exact ⟨kept_new nowNano, fun _ he => he, (zero_add _).symm⟩
  have hsplit : heldBy b.deFraggers + {m.ref} = ↑d.refs + {m.ref} + heldBy rest := by
    rw [hheld]
    abel
  rw [hsplit] at hn
  have hfeed := (DeFragger.feed_accounted p nowNano hkept h.enters (nodup_add.mp hn).1).frame
    (heldBy rest)
  rw [← hsplit] at hfeed
  have hperm := h.left
  obtain ⟨c, i, size, hout⟩ := h.out
  rcases DeFragger.feed_left p nowNano hkept h.enters with
    ⟨hdone, hempty⟩ | ⟨hnot, hkept', hpos, hlarge⟩
  · rw [if_pos hdone] at hperm
    rw [hempty, Multiset.coe_nil, zero_add, ← heldBy_perm hperm] at hfeed
    exact ⟨hfeed, fun e he => hb e (hrest e (hperm.mem_iff.mp he)),
      fun e he _ => .inl (hrest e (hperm.mem_iff.mp he))⟩
  · rw [if_neg (by simp [hnot])] at hperm
    rw [← heldBy_cons, ← heldBy_perm hperm] at hfeed
    refine ⟨hfeed, fun e he => ?_, fun e he hready => ?_⟩
    · rcases mem_cons.mp (hperm.mem_iff.mp he) with rfl | he
      · exact ⟨hkept', hpos⟩
      · exact hb e (hrest e he)
    · rcases mem_cons.mp (hperm.mem_iff.mp he) with rfl | he
      · rw [hout, fedAt, if_neg (by simp [hnot])]
        exact .inr ⟨rfl, if_pos hready, hlarge hready⟩
      · exact .inl (hrest e he)

theorem feed_handled (hb : ∀ d ∈ b.deFraggers, Live d)
    (hn : (heldBy b.deFraggers + {m.ref}).Nodup) (p : ℕ) (nowNano : ℤ) :
    Handled b {m.ref} p (b.feed m p nowNano) (b.feedAccesses m p nowNano)
      (if b.turnsAway m.packet p then {m.ref} else 0) := by
  rcases b.feed_inv m p nowNano with
    ⟨hfeed, hacc, haway⟩ | ⟨size, hfeed, hacc, haway⟩ | ⟨d, rest, hfeeds, hacc, haway⟩
  · rw [hfeed, hacc, haway, if_neg Bool.false_ne_true]
    exact released_handled hb m.ref p
  · have h := (lose m.ref).frame (heldBy b.deFraggers)
    rw [zero_add, add_comm] at h
    rw [hfeed, hacc, haway, if_pos rfl]
    exact ⟨h, hb, fun d hd _ => .inl hd⟩
  · rw [hacc, haway, if_neg Bool.false_ne_true]
    exact hfeeds.handled hb hn

end feed

section calls

variable {b}

/-- Without a packet, nothing happens or a set that is ready is handed out. -/
theorem feedNil_cases (hb : ∀ d ∈ b.deFraggers, Live d) (p : ℕ) (nowNano : ℤ) :
    ((∀ d ∈ b.deFraggers, isReady p d = false) ∧
      b.feedNil p nowNano = (⟨[], .zero, false, 0, []⟩, b) ∧ b.feedNilAccesses p nowNano = []) ∨
    ∃ d rest r, ∃ j : ℕ, b.deFraggers.Perm (d :: rest) ∧ isReady p d = true ∧
      d.frags[j]? = some (some r) ∧ (d.feed (some r) p nowNano).1.assembled = true ∧
      (b.feedNil p nowNano).1 = ⟨(d.feed (some r) p nowNano).1.data,
        (d.feed (some r) p nowNano).1.addrPort, true, d.assembledLen.1,
        (d.feed (some r) p nowNano).1.released⟩ ∧
      (b.feedNil p nowNano).2.deFraggers.Perm rest ∧
      (d.refs.Nodup → Accounted ↑d.refs 0 (b.feedNilAccesses p nowNano) 0) := by
  unfold feedNil feedNilAccesses
  cases hfind : b.deFraggers.findIdx? (isReady p) with
  | none => exact .inl ⟨findIdx?_eq_none_iff.mp hfind, rfl, rfl⟩
  | some i =>
    obtain ⟨hi, hready, -⟩ := findIdx?_eq_some_iff_getElem.mp hfind
    obtain ⟨hkept, hpos⟩ := hb _ (getElem_mem hi)
    have hfits := hready
    rw [isReady, Bool.and_eq_true, decide_eq_true_eq] at hfits
    obtain ⟨r, j, hhead, hr, hdone, hacc⟩ :=
      DeFragger.feed_trigger hkept hpos hfits.1 hfits.2 nowNano
    dsimp only
    rw [getD_eq hi, hhead, if_pos hdone, hdone]
    refine .inr ⟨_, _, r, j, (getElem_cons_eraseIdx_perm hi).symm, hready, hr, hdone, rfl, ?_, hacc⟩
    have hlt : i < (b.deFraggers.set i (b.deFraggers[i].feed (some r) p nowNano).2).length := by
      rwa [length_set]
    have hperm := swapRemove_perm hlt
    rwa [eraseIdx_set_eq] at hperm

theorem feedNil_handled (hb : ∀ d ∈ b.deFraggers, Live d) (hn : (heldBy b.deFraggers).Nodup)
    (p : ℕ) (nowNano : ℤ) :
    Handled b 0 p (b.feedNil p nowNano) (b.feedNilAccesses p nowNano) 0 ∧
      ((b.feedNil p nowNano).1.assembled = true ↔ ∃ d ∈ b.deFraggers, isReady p d = true) := by
  rcases feedNil_cases hb p nowNano with
    ⟨hnone, hfeed, hacc⟩ | ⟨d, rest, r, j, hperm, hready, -, -, hout, hleft, hacc⟩
  · rw [hfeed, hacc]
    refine ⟨⟨by simpa using idle _, hb, fun d hd _ => .inl hd⟩, nofun, ?_⟩
    rintro ⟨d, hd, hready⟩
    rw [hnone d hd] at hready
    cases hready
  · have hmem : ∀ e ∈ (b.feedNil p nowNano).2.deFraggers, e ∈ b.deFraggers := fun e he =>
      hperm.mem_iff.mpr (mem_cons_of_mem _ (hleft.mem_iff.mp he))
    rw [heldBy_perm hperm, heldBy_cons] at hn
    have hframe := (hacc (coe_nodup.mp (nodup_add.mp hn).1)).frame (heldBy rest)
    refine ⟨⟨?_, fun e he => hb e (hmem e he), fun e he _ => .inl (hmem e he)⟩,
      iff_of_true (by rw [hout]) ⟨d, hperm.mem_iff.mpr mem_cons_self, hready⟩⟩
    rw [add_zero, heldBy_perm hperm, heldBy_cons, heldBy_perm hleft]
    rwa [zero_add] at hframe

theorem removed_handled (gone left : List DeFragger) (hb : ∀ d ∈ b.deFraggers, Live d)
    (hn : (heldBy b.deFraggers).Nodup) (hperm : b.deFraggers.Perm (gone ++ left)) (r : BucketFed) :
    Handled b 0 0 (r, ⟨left⟩) ((gone.flatMap DeFragger.refs).map .release) 0 := by
  have hheld : heldBy b.deFraggers = ↑(gone.flatMap DeFragger.refs) + heldBy left := by
    rw [heldBy_perm hperm, heldBy, flatMap_append, ← coe_add, heldBy]
  have hmem : ∀ d ∈ left, d ∈ b.deFraggers := fun d hd =>
    hperm.mem_iff.mpr (mem_append_right _ hd)
  refine ⟨?_, fun d hd => hb d (hmem d hd), fun d hd _ => .inl (hmem d hd)⟩
  rw [hheld] at hn
  have h := (releases (coe_nodup.mp (nodup_add.mp hn).1)).frame
    (heldBy left)
  rw [add_zero, hheld]
  rwa [zero_add] at h

end calls

end DeFraggerBucket

/-- A call on a bucket; `feedNil` is `feed` without a packet. The packet of each `feed` owns a
payload of its own. `nowNano` is the time that the call goes by. -/
inductive Call where
  | feed (packet : Packet (Option Address)) (p : ℕ) (nowNano : ℤ)
  | feedNil (p : ℕ) (nowNano : ℤ)
  | pruneExpired (nowNano : ℤ)
  | release

namespace Call

def run (b : DeFraggerBucket) (ref : ℕ) : Call → BucketFed × DeFraggerBucket
  | feed packet p nowNano => b.feed ⟨packet, ref⟩ p nowNano
  | feedNil p nowNano => b.feedNil p nowNano
  | pruneExpired nowNano =>
    (⟨[], .zero, false, 0, (b.pruneExpired nowNano).2⟩, (b.pruneExpired nowNano).1)
  | release => (⟨[], .zero, false, 0, b.release.2⟩, b.release.1)

def accesses (b : DeFraggerBucket) (ref : ℕ) : Call → List (Access ℕ)
  | feed packet p nowNano => b.feedAccesses ⟨packet, ref⟩ p nowNano
  | feedNil p nowNano => b.feedNilAccesses p nowNano
  | pruneExpired nowNano => (b.pruneExpired nowNano).2.map .release
  | release => b.release.2.map .release

def room : Call → ℕ
  | feed _ p _ => p
  | feedNil p _ => p
  | pruneExpired _ => 0
  | release => 0

def given (ref : ℕ) : Call → List ℕ
  | feed .. => [ref]
  | _ => []

def turnedAway (b : DeFraggerBucket) (ref : ℕ) : Call → List ℕ
  | feed packet p _ => if b.turnsAway packet p then [ref] else []
  | _ => []

theorem releases_accesses (b : DeFraggerBucket) (ref : ℕ) (call : Call) :
    releases (call.accesses b ref) = (call.run b ref).1.released := by
  cases call with
  | feed packet p nowNano => exact b.releases_feedAccesses p nowNano _
  | feedNil p nowNano => exact b.releases_feedNilAccesses p nowNano
  | _ => exact releases_map_release _

open DeFraggerBucket in
theorem run_handled {b : DeFraggerBucket} (hb : ∀ d ∈ b.deFraggers, Live d) {ref : ℕ}
    (hn : (heldBy b.deFraggers + {ref}).Nodup) (call : Call) :
    Handled b ↑(call.given ref) call.room (call.run b ref) (call.accesses b ref)
      ↑(call.turnedAway b ref) := by
  have hheld := (nodup_add.mp hn).1
  cases call with
  | feed packet p nowNano =>
    have h := feed_handled (m := ⟨packet, ref⟩) hb hn p nowNano
    rwa [turnedAway, apply_ite (fun l : List ℕ => (l : Multiset ℕ))]
  | feedNil p nowNano => exact (feedNil_handled hb hheld p nowNano).1
  | pruneExpired nowNano => exact removed_handled _ _ hb hheld (filter_append_perm _ _).symm _
  | release => exact removed_handled _ [] hb hheld (by rw [append_nil]) _

end Call

/-- A bucket and what happened to the payloads since it was made: `fed` of them came in, numbered
in this order. -/
structure Custody where
  bucket : DeFraggerBucket
  fed : ℕ
  trace : List (Access ℕ)
  turnedAway : List ℕ

namespace Custody

def new : Custody := ⟨⟨[]⟩, 0, [], []⟩

def step (s : Custody) (call : Call) : BucketFed × Custody :=
  let r := call.run s.bucket s.fed
  (r.1,
    { bucket := r.2
      fed := s.fed + (call.given s.fed).length
      trace := s.trace ++ call.accesses s.bucket s.fed
      turnedAway := s.turnedAway ++ call.turnedAway s.bucket s.fed })

variable (calls : List Call)

def after : Custody := Run.exec step new calls

open DeFraggerBucket

/-- All payloads that came in are accounted for, and the sets in the bucket are in order. -/
structure Owned (s : Custody) : Prop where
  accounted : Accounted (Multiset.range s.fed) (heldBy s.bucket.deFraggers) s.trace ↑s.turnedAway
  live : ∀ d ∈ s.bucket.deFraggers, Live d

theorem owned_new : Owned new where
  accounted := idle 0
  live := by simp [new]

theorem range_given (n : ℕ) (call : Call) :
    Multiset.range (n + (call.given n).length) = Multiset.range n + ↑(call.given n) := by
  cases call with
  | feed packet p nowNano =>
    change Multiset.range (n + 1) = Multiset.range n + {n}
    rw [Multiset.range_succ, ← singleton_add, add_comm]
  | _ => exact (add_zero _).symm

variable {s : Custody}

theorem Owned.nodup (h : Owned s) : (heldBy s.bucket.deFraggers + {s.fed}).Nodup := by
  have hrange : (Multiset.range (s.fed + 1)).Nodup := nodup_range _
  rw [Multiset.range_succ, ← singleton_add, add_comm, h.accounted.balance] at hrange
  apply Multiset.nodup_of_le _ hrange
  apply add_le_add_left
  rw [add_assoc]
  exact Multiset.le_add_right _ _

theorem Owned.handled (h : Owned s) (call : Call) :
    Handled s.bucket ↑(call.given s.fed) call.room (call.run s.bucket s.fed)
      (call.accesses s.bucket s.fed) ↑(call.turnedAway s.bucket s.fed) :=
  call.run_handled h.live h.nodup

theorem Owned.step (h : Owned s) (call : Call) : Owned (s.step call).2 where
  accounted := by
    have hstep := h.handled call
    have hgiven := range_given s.fed call
    have hn : (Multiset.range s.fed + ↑(call.given s.fed)).Nodup := by
      rw [← hgiven]
      exact nodup_range _
    have htrans := (h.accounted.frame ↑(call.given s.fed)).trans hn hstep.accounted
    rwa [← hgiven, coe_add] at htrans
  live := (h.handled call).live

theorem owned_after : Owned (after calls) :=
  Run.exec_invariant step Owned (fun _ call h => h.step call) new owned_new calls

theorem refs_ne_nil {d : DeFragger} (h : Live d) : d.refs ≠ [] := by
  apply ne_nil_of_length_pos
  simpa [DeFragger.refs, ← h.1.count] using h.2

theorem reassembly_ownership (calls : List Call) :
    let s := after calls
    (∀ ref < s.fed,
      (ref ∉ s.turnedAway →
        (releases s.trace).count ref + (heldBy s.bucket.deFraggers).count ref = 1) ∧
      (releases s.trace).count ref + (heldBy s.bucket.deFraggers).count ref ≤ 1) ∧
    Access.Clean s.trace ∧
    (∀ d ∈ s.bucket.deFraggers, d.refs ≠ []) ∧
    (∀ call : Call,
      releases (call.accesses s.bucket s.fed) = (call.run s.bucket s.fed).1.released ∧
      ∀ d ∈ (call.run s.bucket s.fed).2.deFraggers, d.assembledLen.2 = true →
        d ∈ s.bucket.deFraggers ∨
        (call.run s.bucket s.fed).1.assembled = false ∧
          (call.run s.bucket s.fed).1.assembledLen = d.assembledLen.1 ∧
          call.room < d.assembledLen.1) ∧
    ∀ p nowNano, (s.bucket.feedNil p nowNano).1.assembled = true ↔
      ∃ d ∈ s.bucket.deFraggers, isReady p d = true := by
  intro s
  have h : Owned s := owned_after calls
  refine ⟨fun ref href => ?_, h.accounted.clean, fun d hd => refs_ne_nil (h.live d hd),
    fun call => ?_, fun p nowNano => ?_⟩
  · have hcount := h.accounted.count_eq_one (nodup_range _) (Multiset.mem_range.mpr href)
    refine ⟨fun haway => ?_, by omega⟩
    rw [Multiset.count_eq_zero_of_notMem (s := (↑s.turnedAway : Multiset ℕ)) haway] at hcount
    omega
  · exact ⟨call.releases_accesses _ _, (h.handled call).complete⟩
  · exact (feedNil_handled h.live (nodup_add.mp h.nodup).1 p nowNano).2

/-- The payload of a fragment that was turned away is nowhere: not in a set, and not back in the
pool. -/
theorem turnedAway_lost {ref : ℕ} (h : ref ∈ (after calls).turnedAway) :
    ref ∉ heldBy (after calls).bucket.deFraggers ∧ ref ∉ releases (after calls).trace := by
  have hbalance := (owned_after calls).accounted.balance
  have hn := nodup_range (after calls).fed
  rw [hbalance] at hn
  have hdisj := (nodup_add.mp hn).2.2
  have hout := Multiset.disjoint_right.mp hdisj (mem_coe.mpr h)
  rwa [Multiset.mem_add, not_or, mem_coe] at hout

section growth

def secondHalf : Packet (Option Address) := ⟨5, 1, 7, 2, 1, 1, none, [9]⟩

def firstHalf : Packet (Option Address) :=
  ⟨5, 1, 7, 2, 0, 1, some ⟨atypIPv4, [10, 0, 0, 1], 53⟩, [8]⟩

-- a first fragment that comes again while the complete set waits for a longer buffer
example : (after [.feed firstHalf 0 1, .feed secondHalf 0 1, .feed firstHalf 0 1]).turnedAway =
    [2] := by
  decide

def waiting (ref : ℕ) : DeFragger := ⟨7, [none, some ⟨secondHalf, ref⟩], 1, 1, .zero, false, 1⟩

theorem feed_secondHalf {b : DeFraggerBucket} (ref : ℕ)
    (h : ∀ d ∈ b.deFraggers, d.isMatch secondHalf = false) :
    (b.feed ⟨secondHalf, ref⟩ 0 1).2.deFraggers = b.deFraggers ++ [waiting ref] := by
  have hnone : b.candidates secondHalf = [] := by
    apply filter_eq_nil_iff.mpr
    intro i hi hmatch
    have hlt := mem_range.mp hi
    rw [getD_eq hlt, h _ (getElem_mem hlt)] at hmatch
    cases hmatch
  have hroute : b.route secondHalf = .fresh := by
    unfold route
    rw [hnone]
  have hget : (b.deFraggers ++ [DeFragger.new 1]).getD b.deFraggers.length (.new 1) = .new 1 := by
    simp [getD_eq_getElem?_getD]
  have hnew : (DeFragger.new 1).feed (some ⟨secondHalf, ref⟩) 0 1 =
      (⟨[], .zero, false, []⟩, waiting ref) := rfl
  have hhead : ¬ (secondHalf.fragTotal ≤ 1 ∨ secondHalf.fragTotal ≤ secondHalf.fragID) := by
    decide
  unfold feed
  rw [if_neg hhead, hroute]
  unfold feedRoute feedAt
  dsimp only
  rw [hget, hnew, if_neg (by decide)]
  simp [fedAt]

theorem deFraggers_after_secondHalf (n : ℕ) :
    (after (replicate n (.feed secondHalf 0 1))).bucket.deFraggers =
      (range n).map waiting ∧
    (after (replicate n (.feed secondHalf 0 1))).fed = n := by
  induction n with
  | zero => exact ⟨rfl, rfl⟩
  | succ n ih =>
    have hwaits : ∀ d ∈ (range n).map waiting, d.isMatch secondHalf = false :=
      forall_mem_map.mpr fun _ _ => rfl
    rw [← ih.1] at hwaits
    have hfeed := feed_secondHalf n hwaits
    rw [replicate_succ', after, Run.exec_append]
    change (Call.run (after _).bucket (after _).fed _).2.deFraggers = _ ∧ (after _).fed + 1 = _
    rw [ih.2, range_succ, map_append, ← ih.1]
    exact ⟨hfeed, rfl⟩

/-- A bucket has no limit, and a set that is complete stays in it when the buffer is too short. -/
theorem complete_set_remains :
    (∀ limit : ℕ, ∃ calls, limit < (after calls).bucket.deFraggers.length) ∧
    ∃ d ∈ (after [.feed firstHalf 0 1, .feed secondHalf 0 1]).bucket.deFraggers,
      d.count = d.frags.length ∧ d.hasFirstFrag = true := by
  constructor
  · intro limit
    refine ⟨replicate (limit + 1) (.feed secondHalf 0 1), ?_⟩
    simp [(deFraggers_after_secondHalf (limit + 1)).1]
  · exact ⟨_, mem_singleton_self _, rfl, rfl⟩

end growth

end Custody

end Outbound.Tuic
