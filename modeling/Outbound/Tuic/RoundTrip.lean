import Outbound.Tuic.Collecting

/-! TUIC fragments come back together: the sets in flight under one packet id, along any sequence
of arrivals. -/
namespace Outbound.Tuic

open Lib List Bool DeFraggerBucket DeFragger

def Open (F : Flow) (d : DeFragger) : Prop := Collecting F d ∧ 0 < d.count

def Headless (F : Flow) (d : DeFragger) : Prop := Open F d ∧ d.hasFirstFrag = false

namespace DeFraggerBucket

theorem candidates_cons (d : DeFragger) (ds : List DeFragger) (m : Packet (Option Address)) :
    candidates ⟨d :: ds⟩ m =
      (if d.isMatch m then [0] else []) ++ (candidates ⟨ds⟩ m).map Nat.succ := by
  have htail : ((range ds.length).map Nat.succ).filter
      (fun i => ((d :: ds).getD i (.new 0)).isMatch m) = (candidates ⟨ds⟩ m).map Nat.succ := by
    rw [filter_map]
    rfl
  unfold candidates
  rw [length_cons, range_succ_eq_map, filter_cons, htail, getD_cons_zero]
  split_ifs <;> rfl

theorem lt_of_mem_candidates {b : DeFraggerBucket} {m : Packet (Option Address)} {i : ℕ}
    (h : i ∈ b.candidates m) : i < b.deFraggers.length :=
  mem_range.mp (mem_filter.mp h).1

variable {F : Flow} {d : DeFragger} {rest : List DeFragger} {i : ℕ} {r : Received}

theorem headless_getD (hrest : ∀ e ∈ rest, Headless F e) {j : ℕ}
    (hj : j ∈ candidates ⟨rest⟩ r.packet) :
    ((d :: rest).getD (Nat.succ j) (.new 0)).hasFirstFrag = false := by
  have hlt := lt_of_mem_candidates hj
  rw [getD_cons_succ, getD_eq_getElem?_getD, getElem?_eq_getElem hlt]
  exact (hrest _ (getElem_mem hlt)).2

theorem filter_hasFirst_tail (hrest : ∀ e ∈ rest, Headless F e) :
    ((candidates ⟨rest⟩ r.packet).map Nat.succ).filter
      (fun i => ((d :: rest).getD i (.new 0)).hasFirstFrag) = [] := by
  rw [filter_eq_nil_iff]
  intro k hk
  obtain ⟨j, hj, rfl⟩ := mem_map.mp hk
  rw [headless_getD hrest hj]
  decide

theorem route_first (hd : Open F d) (hrest : ∀ e ∈ rest, Headless F e)
    (hm : F.Carries 0 r.packet) : route ⟨d :: rest⟩ r.packet = .existing 0 := by
  have hmatch : d.isMatch r.packet = true := (hd.1.isMatch_iff hd.2 hm).mpr (.inl rfl)
  have hzero : r.packet.fragID = 0 := hm.fragID_eq_zero_iff.mpr rfl
  unfold route
  rw [candidates_cons, if_pos hmatch]
  cases hc : candidates ⟨rest⟩ r.packet with
  | nil => rfl
  | cons c cs =>
    simp only [map_cons, singleton_append, if_pos hzero, hm.addr rfl]
    cases hf : d.hasFirstFrag with
    | true => simp [hf, hd.1.firstAddr hf]
    | false =>
      have hnone : (0 :: Nat.succ c :: cs.map Nat.succ).find? (fun i =>
          ((d :: rest).getD i (.new 0)).hasFirstFrag &&
            ((d :: rest).getD i (.new 0)).firstAddrPort == F.addr) = none := by
        rw [find?_eq_none]
        intro k hk
        rcases mem_cons.mp hk with rfl | hk
        · simp [hf]
        · have hk' : k ∈ (candidates ⟨rest⟩ r.packet).map Nat.succ := by
            rwa [hc]
          obtain ⟨j, hj, rfl⟩ := mem_map.mp hk'
          rw [headless_getD hrest hj]
          simp
      rw [hnone]
      simp [hf]

theorem route_missing (hd : Open F d) (hrest : ∀ e ∈ rest, Headless F e)
    (hm : F.Carries i r.packet) (hi : i ≠ 0) (hlack : ¬ Holds d.frags i) :
    route ⟨d :: rest⟩ r.packet = .existing 0 ∨
      (route ⟨d :: rest⟩ r.packet = .drop ∧ rest ≠ [] ∧ d.hasFirstFrag = false) := by
  have hmatch : d.isMatch r.packet = true := (hd.1.isMatch_iff hd.2 hm).mpr (.inr hlack)
  have hne : r.packet.fragID ≠ 0 := mt hm.fragID_eq_zero_iff.mp hi
  unfold route
  rw [candidates_cons, if_pos hmatch]
  cases hc : candidates ⟨rest⟩ r.packet with
  | nil => exact .inl rfl
  | cons c cs =>
    have htail := filter_hasFirst_tail (d := d) (r := r) hrest
    rw [hc, map_cons] at htail
    simp only [map_cons, singleton_append, if_neg hne]
    rw [filter_cons, htail]
    cases hf : d.hasFirstFrag with
    | true => simp [hf]
    | false =>
      right
      refine ⟨by simp [hf], ?_, rfl⟩
      intro hnil
      have hlt := lt_of_mem_candidates (b := ⟨rest⟩) (m := r.packet) (i := c) (by simp [hc])
      simp [hnil] at hlt

theorem route_held (hd : Open F d) (hrest : ∀ e ∈ rest, Headless F e)
    (hm : F.Carries i r.packet) (hi : i ≠ 0) (hheld : Holds d.frags i) :
    route ⟨d :: rest⟩ r.packet = .fresh ∨ route ⟨d :: rest⟩ r.packet = .drop ∨
      ∃ j < rest.length, route ⟨d :: rest⟩ r.packet = .existing (j + 1) := by
  have hmatch : ¬ d.isMatch r.packet = true := by
    rw [hd.1.isMatch_iff hd.2 hm]
    rintro (h0 | hlack)
    · exact hi h0
    · exact hlack hheld
  have hne : r.packet.fragID ≠ 0 := mt hm.fragID_eq_zero_iff.mp hi
  unfold route
  rw [candidates_cons, if_neg hmatch, nil_append]
  have htail := filter_hasFirst_tail (d := d) (r := r) hrest
  cases hc : candidates ⟨rest⟩ r.packet with
  | nil => exact .inl rfl
  | cons c cs =>
    cases cs with
    | nil =>
      have hlt := lt_of_mem_candidates (b := ⟨rest⟩) (m := r.packet) (i := c) (by simp [hc])
      exact .inr (.inr ⟨c, hlt, rfl⟩)
    | cons c' cs =>
      rw [hc] at htail
      simp only [map_cons] at htail ⊢
      rw [if_neg hne, htail]
      exact .inr (.inl rfl)

theorem feed_eq_route (b : DeFraggerBucket) (hm : F.Carries i r.packet) (p : ℕ) (nowNano : ℤ) :
    b.feed r p nowNano = b.feedRoute r p nowNano (b.route r.packet) := by
  have hguard : ¬ (r.packet.fragTotal ≤ 1 ∨ r.packet.fragTotal ≤ r.packet.fragID) := by
    rintro (h | h)
    · exact hm.one_lt h
    · exact hm.inRange h
  unfold feed
  rw [if_neg hguard]

def Quiet (f : BucketFed) : Prop := f.assembled = false ∧ f.assembledLen = 0

theorem assembledLen_snd_iff (h : Collecting F d) :
    d.assembledLen.2 = true ↔ Collecting.Full F d := by
  rw [← h.ready_iff]
  simp [assembledLen]

theorem headless_not_full (h : Headless F d) : ¬ Collecting.Full F d := by
  intro hfull
  have hready := h.1.1.ready_iff.mpr hfull
  rw [h.2] at hready
  exact Bool.noConfusion hready.2

variable {nowNano : ℤ} {ds : List DeFragger}

theorem feedAt_of_not_ready {j p : ℕ} (hready : ¬ (ds.getD j (.new nowNano)).assembledLen.2 = true) :
    feedAt ⟨ds⟩ j r p nowNano = fedAt ⟨ds⟩ j (ds.getD j (.new nowNano)).assembledLen.1
      ((ds.getD j (.new nowNano)).feed (some r) p nowNano) := by
  exact if_neg fun h => hready h.1

variable {released : List ℕ}

theorem feedAt_short {j p : ℕ} {d' : DeFragger}
    (hready : ¬ (ds.getD j (.new nowNano)).assembledLen.2 = true)
    (hfeed : (ds.getD j (.new nowNano)).feed (some r) p nowNano =
      (⟨[], .zero, false, released⟩, d')) :
    feedAt ⟨ds⟩ j r p nowNano =
      (⟨[], .zero, false, if d'.assembledLen.2 then d'.assembledLen.1 else 0, released⟩,
        ⟨ds.set j d'⟩) := by
  rw [feedAt_of_not_ready hready, hfeed]
  rfl

theorem absorb_headless (h : Collecting F d) (hfirst : d.hasFirstFrag = false)
    (hm : F.Carries i r.packet) (hi : i ≠ 0) : Headless F (d.absorb r) := by
  have hc := h.absorb_collecting hm
  refine ⟨⟨hc, h.count_absorb_pos hm⟩, ?_⟩
  rw [eq_false_iff, ne_eq, hc.first, h.holds_absorb_iff hm]
  rintro (h0 | h0)
  · exact hi h0.symm
  · rw [h.first.mpr h0] at hfirst
    cases hfirst

variable (ds)

theorem feedAt_existing {j p : ℕ} (hj : j < ds.length)
    (hds : Headless F ds[j]) (hm : F.Carries i r.packet) (hi : i ≠ 0) :
    ∃ f d', Quiet f ∧ Headless F d' ∧ feedAt ⟨ds⟩ j r p nowNano = (f, ⟨ds.set j d'⟩) := by
  have hget : ds.getD j (.new nowNano) = ds[j] := by
    rw [getD_eq_getElem?_getD, getElem?_eq_getElem hj]
    rfl
  obtain ⟨released, hfeed⟩ := hds.1.1.feed_eq hds.1.2 hm p nowNano
  have hd' := absorb_headless (hds.1.1.touch nowNano) hds.2 hm hi
  have hready := mt (assembledLen_snd_iff hds.1.1).mp (headless_not_full hds)
  have hnot := headless_not_full hd'
  rw [hd'.1.1.finish_of_short released (fun hfull => absurd hfull hnot)] at hfeed
  exact ⟨_, _, ⟨rfl, if_neg (mt (assembledLen_snd_iff hd'.1.1).mp hnot)⟩, hd',
    feedAt_short (by rwa [hget]) (by rwa [hget])⟩

theorem feedAt_fresh (p : ℕ) (nowNano : ℤ) (hm : F.Carries i r.packet) :
    ∃ f d', Quiet f ∧ Open F d' ∧ (∀ j, Holds d'.frags j ↔ j = i) ∧
      feedAt ⟨ds ++ [.new nowNano]⟩ ds.length r p nowNano = (f, ⟨ds ++ [d']⟩) := by
  have hget : (ds ++ [new nowNano]).getD ds.length (.new nowNano) = .new nowNano := by
    simp [getD_eq_getElem?_getD]
  obtain ⟨d, released, hd, hempty, hfeed⟩ := Collecting.feed_new_eq hm p nowNano
  have hd' := hd.absorb_collecting hm
  have hholds : ∀ j, Holds (d.absorb r).frags j ↔ j = i := by
    intro j
    rw [hd.holds_absorb_iff hm]
    simp [hempty j]
  have hnot : ¬ Collecting.Full F (d.absorb r) := by
    intro hfull
    have h2 := F.two_le
    have h0 := (hholds 0).mp (hfull 0 (by omega))
    have h1 := (hholds 1).mp (hfull 1 (by omega))
    omega
  rw [hd'.finish_of_short released (fun hfull => absurd hfull hnot)] at hfeed
  have hready : ¬ ((ds ++ [new nowNano]).getD ds.length
      (.new nowNano)).assembledLen.2 = true := by
    rw [hget]
    simp [assembledLen, new]
  have heq := feedAt_short (r := r) (p := p) hready (by rw [hget]; exact hfeed)
  rw [set_append_right _ _ (Nat.le_refl _), Nat.sub_self] at heq
  refine ⟨_, _, ?_, ⟨hd', hd.count_absorb_pos hm⟩, hholds, heq⟩
  exact ⟨rfl, if_neg (mt (assembledLen_snd_iff hd').mp hnot)⟩

theorem feedAt_head (rest : List DeFragger) (hd : Open F d) (hnot : ¬ Collecting.Full F d)
    (hm : F.Carries i r.packet) (p : ℕ) (nowNano : ℤ) :
    ∃ d', Open F d' ∧ (∀ j, Holds d'.frags j ↔ j = i ∨ Holds d.frags j) ∧
      (¬ Collecting.Full F d' →
        ∃ f, Quiet f ∧ feedAt ⟨d :: rest⟩ 0 r p nowNano = (f, ⟨d' :: rest⟩)) ∧
      (Collecting.Full F d' → p < F.payload.length →
        ∃ f, f.assembled = false ∧ f.assembledLen = F.payload.length ∧
          feedAt ⟨d :: rest⟩ 0 r p nowNano = (f, ⟨d' :: rest⟩)) ∧
      (Collecting.Full F d' → F.payload.length ≤ p →
        ∃ f b, f.assembled = true ∧ f.data = F.payload ∧ f.addr = F.addr ∧
          feedAt ⟨d :: rest⟩ 0 r p nowNano = (f, b)) := by
  have hready : ¬ ((d :: rest).getD 0 (.new nowNano)).assembledLen.2 = true :=
    mt (assembledLen_snd_iff hd.1).mp hnot
  have htouch := hd.1.touch nowNano
  have hd' := htouch.absorb_collecting hm
  obtain ⟨released, hfeed⟩ := hd.1.feed_eq hd.2 hm p nowNano
  refine ⟨_, ⟨hd', htouch.count_absorb_pos hm⟩, htouch.holds_absorb_iff hm, ?_, ?_, ?_⟩
  · intro hshort
    rw [hd'.finish_of_short released (fun hfull => absurd hfull hshort)] at hfeed
    refine ⟨_, ?_, feedAt_short hready hfeed⟩
    exact ⟨rfl, if_neg (mt (assembledLen_snd_iff hd').mp hshort)⟩
  · intro hfull hp
    rw [hd'.finish_of_short released (fun _ => hp)] at hfeed
    refine ⟨_, rfl, ?_, feedAt_short hready hfeed⟩
    exact (if_pos ((assembledLen_snd_iff hd').mpr hfull)).trans (hd'.totalLen_of_full hfull)
  · intro hfull hp
    rw [hd'.finish_of_full hfull released hp] at hfeed
    have heq := feedAt_of_not_ready (r := r) (p := p) hready
    rw [getD_cons_zero, hfeed] at heq
    exact ⟨_, _, rfl, rfl, rfl, heq⟩

theorem feedNil_of_full (hd : Open F d) (hfull : Collecting.Full F d) (rest : List DeFragger)
    {p : ℕ} (hp : F.payload.length ≤ p) (nowNano : ℤ) :
    ∃ f b, f.assembled = true ∧ f.data = F.payload ∧ f.addr = F.addr ∧
      feedNil ⟨d :: rest⟩ p nowNano = (f, b) := by
  have h2 := F.two_le
  have hready : isReady p d = true := by
    have hsnd := (assembledLen_snd_iff hd.1).mpr hfull
    have hlen := hd.1.totalLen_of_full hfull
    simp only [isReady, hsnd, Bool.true_and, decide_eq_true_eq]
    change d.totalLen ≤ p
    omega
  obtain ⟨s, hs⟩ := hfull 0 (by omega)
  have hcs := hd.1.carries 0 s hs
  have hhead : (contents d.frags).head? = some s := by
    cases hfr : d.frags with
    | nil => simp [hfr] at hs
    | cons x xs =>
      have hx : x = some s := by simpa [hfr] using hs
      rw [hx]
      rfl
  have htouch := hd.1.touch nowNano
  have hsame : (d.touch nowNano).absorb s = d.touch nowNano :=
    htouch.absorb_of_holds hcs (hfull 0 (by omega))
  obtain ⟨released, hfeed⟩ := hd.1.feed_eq hd.2 hcs p nowNano
  rw [hsame, htouch.finish_of_full hfull released hp] at hfeed
  have hidx : (d :: rest).findIdx? (isReady p) = some 0 := by
    rw [findIdx?_cons, hready]
    rfl
  unfold feedNil
  rw [hidx]
  simp only [getD_cons_zero, hhead, hfeed]
  exact ⟨_, _, rfl, rfl, rfl, rfl⟩

theorem feedRoute_other (d : DeFragger) (hrest : ∀ e ∈ rest, Headless F e)
    (hm : F.Carries i r.packet) (hi : i ≠ 0) (p : ℕ) (nowNano : ℤ) (route : Route)
    (hroute : route = .fresh ∨ route = .drop ∨ ∃ j < rest.length, route = .existing (j + 1)) :
    ∃ f rest', Quiet f ∧ (∀ e ∈ rest', Headless F e) ∧
      feedRoute ⟨d :: rest⟩ r p nowNano route = (f, ⟨d :: rest'⟩) := by
  rcases hroute with rfl | rfl | ⟨j, hj, rfl⟩
  · obtain ⟨f, d', hf, hd', hholds, heq⟩ := feedAt_fresh (d :: rest) p nowNano hm
    have hheadless : Headless F d' := by
      refine ⟨hd', ?_⟩
      rw [eq_false_iff, ne_eq, hd'.1.first, hholds]
      exact Ne.symm hi
    refine ⟨f, rest ++ [d'], hf, ?_, heq⟩
    intro e he
    rcases mem_append.mp he with he | he
    · exact hrest e he
    · rwa [mem_singleton.mp he]
  · exact ⟨_, rest, ⟨rfl, rfl⟩, hrest, rfl⟩
  · have hj' : j + 1 < (d :: rest).length := by simpa using hj
    obtain ⟨f, d', hf, hd', heq⟩ := feedAt_existing (d :: rest) (p := p) (j := j + 1) hj'
      (hrest _ (getElem_mem hj)) hm hi
    refine ⟨f, rest.set j d', hf, ?_, heq⟩
    intro e he
    rcases mem_or_eq_of_mem_set he with he | rfl
    · exact hrest e he
    · exact hd'

/-- The next fragment goes to the oldest set, or that set stays as it is; the latter only for a
fragment it has, or while it lacks the first fragment and is not the only one. -/
theorem feed_cases (hd : Open F d) (hrest : ∀ e ∈ rest, Headless F e) (hm : F.Carries i r.packet)
    (p : ℕ) (nowNano : ℤ) :
    feed ⟨d :: rest⟩ r p nowNano = feedAt ⟨d :: rest⟩ 0 r p nowNano ∨
      ((∃ f rest', Quiet f ∧ (∀ e ∈ rest', Headless F e) ∧
          feed ⟨d :: rest⟩ r p nowNano = (f, ⟨d :: rest'⟩)) ∧
        i ≠ 0 ∧ (Holds d.frags i ∨ (rest ≠ [] ∧ d.hasFirstFrag = false))) := by
  rw [feed_eq_route _ hm]
  by_cases hi : i = 0
  · left
    subst hi
    rw [route_first hd hrest hm]
    rfl
  · by_cases hheld : Holds d.frags i
    · right
      have hroute := route_held hd hrest hm hi hheld
      exact ⟨feedRoute_other d hrest hm hi p nowNano _ hroute, hi, .inl hheld⟩
    · rcases route_missing hd hrest hm hi hheld with hroute | ⟨hroute, hother⟩
      · left
        rw [hroute]
        rfl
      · right
        have hdrop := feedRoute_other d hrest hm hi p nowNano _ (.inr (.inl hroute))
        exact ⟨hdrop, hi, .inr hother⟩

end DeFraggerBucket

/-- Fragment `k` of the delivery sequence `ids` reaches the oldest set: it comes before any
repetition, or not before the first fragment. -/
def Routed (ids : List ℕ) (k : ℕ) : Prop :=
  (∃ p, p <+: ids ∧ p.Nodup ∧ k ∈ p) ∨ ∃ p s, ids = p ++ 0 :: s ∧ k ∈ 0 :: s

variable {ids : List ℕ}

theorem Routed.mem {k : ℕ} (h : Routed ids k) : k ∈ ids := by
  rcases h with ⟨p, hp, _, hk⟩ | ⟨p, s, rfl, hk⟩
  · exact hp.subset hk
  · exact mem_append_right p hk

theorem routed_zero (h : 0 ∈ ids) : Routed ids 0 := by
  obtain ⟨p, s, rfl⟩ := append_of_mem h
  exact .inr ⟨p, s, rfl, mem_cons_self⟩

theorem routed_concat {k i : ℕ} (h : Routed (ids ++ [k]) i) :
    Routed ids i ∨ (i = k ∧ ((ids ++ [k]).Nodup ∨ 0 ∈ ids ∨ k = 0)) := by
  rcases h with ⟨p, hp, hnodup, hi⟩ | ⟨p, s, heq, hi⟩
  · rcases prefix_concat_iff.mp hp with rfl | hp
    · rcases mem_append.mp hi with hi | hi
      · exact .inl (.inl ⟨ids, prefix_refl ids, (nodup_append.mp hnodup).1, hi⟩)
      · exact .inr ⟨mem_singleton.mp hi, .inl hnodup⟩
    · exact .inl (.inl ⟨p, hp, hnodup, hi⟩)
  · induction s using reverseRecOn with
    | nil =>
      have hk := (append_inj' heq rfl).2
      have hk0 : k = 0 := by simpa using hk
      have hi0 : i = 0 := by simpa using hi
      exact .inr ⟨hi0.trans hk0.symm, .inr (.inr hk0)⟩
    | append_singleton s x _ =>
      rw [← cons_append, ← append_assoc] at heq
      obtain ⟨hids, hx⟩ := append_inj' heq rfl
      have hxk : k = x := by simpa using hx
      rw [← cons_append] at hi
      rcases mem_append.mp hi with hi | hi
      · exact .inl (.inr ⟨p, s, hids, hi⟩)
      · refine .inr ⟨(mem_singleton.mp hi).trans hxk.symm, .inr (.inl ?_)⟩
        rw [hids]
        simp

/-- The oldest set `d` after the deliveries `ids`, and the younger ones that repetitions opened. -/
structure Leading (F : Flow) (ids : List ℕ) (d : DeFragger) (rest : List DeFragger) : Prop where
  isOpen : Open F d
  others : ∀ e ∈ rest, Headless F e
  held : ∀ i, Holds d.frags i → i ∈ ids
  routed : ∀ i, Routed ids i → Holds d.frags i
  alone : ids.Nodup → 0 ∉ ids → rest = []

def Waiting (F : Flow) (ids : List ℕ) (ds : List DeFragger) : Prop :=
  (ids = [] ∧ ds = []) ∨ ∃ d rest, ds = d :: rest ∧ Leading F ids d rest

namespace Leading

variable {F : Flow} {d d' : DeFragger} {rest rest' : List DeFragger} {k : ℕ}

section

variable (h : Leading F ids d rest)

include h

/-- While the first fragment is missing, repetitions are what keeps a new fragment out. -/
theorem holds_of_routed
    (hother : Holds d.frags k ∨ (rest ≠ [] ∧ d.hasFirstFrag = false)) (hk : k ≠ 0)
    (hrouted : (ids ++ [k]).Nodup ∨ 0 ∈ ids ∨ k = 0) : Holds d.frags k := by
  rcases hother with hholds | ⟨hne, hfirst⟩
  · exact hholds
  exfalso
  have hzero : 0 ∉ ids := by
    intro hmem
    have hholds := h.routed 0 (routed_zero hmem)
    rw [h.isOpen.1.first.mpr hholds] at hfirst
    cases hfirst
  rcases hrouted with hnodup | hmem | h0
  · exact hne (h.alone (nodup_append.mp hnodup).1 hzero)
  · exact hzero hmem
  · exact hk h0

theorem took (hd' : Open F d') (hholds : ∀ j, Holds d'.frags j ↔ j = k ∨ Holds d.frags j) :
    Leading F (ids ++ [k]) d' rest := by
  constructor
  · exact hd'
  · exact h.others
  · intro i hi
    rcases (hholds i).mp hi with rfl | hi
    · simp
    · exact mem_append_left _ (h.held i hi)
  · intro i hi
    apply (hholds i).mpr
    rcases routed_concat hi with hi | ⟨hi, _⟩
    · exact .inr (h.routed i hi)
    · exact .inl hi
  · intro hnodup hzero
    exact h.alone (nodup_append.mp hnodup).1 (fun hmem => hzero (mem_append_left _ hmem))

theorem passed (hrest' : ∀ e ∈ rest', Headless F e) (hk : k ≠ 0)
    (hother : Holds d.frags k ∨ (rest ≠ [] ∧ d.hasFirstFrag = false)) :
    Leading F (ids ++ [k]) d rest' := by
  constructor
  · exact h.isOpen
  · exact hrest'
  · exact fun i hi => mem_append_left _ (h.held i hi)
  · intro i hi
    rcases routed_concat hi with hi | ⟨rfl, hi⟩
    · exact h.routed i hi
    · exact h.holds_of_routed hother hk hi
  · intro hnodup _
    have hmem := h.held k (h.holds_of_routed hother hk (.inl hnodup))
    exact absurd rfl ((nodup_append.mp hnodup).2.2 k hmem k (mem_singleton.mpr rfl))

theorem not_full {j : ℕ} (hj : j < F.total) (hmiss : j ∉ ids) :
    ¬ Collecting.Full F d := fun hfull => hmiss (h.held j (hfull j hj))

end

end Leading

section waiting

variable {F : Flow} {ds : List DeFragger} {k : ℕ} {r : Received}

theorem waiting_single {d : DeFragger} (hd : Open F d) (hholds : ∀ j, Holds d.frags j ↔ j = k) :
    Waiting F [k] [d] := by
  refine .inr ⟨d, [], rfl, hd, ?_, ?_, ?_, fun _ _ => rfl⟩
  · intro e he
    cases he
  · intro i hi
    rw [(hholds i).mp hi]
    exact mem_singleton.mpr rfl
  · intro i hi
    exact (hholds i).mpr (mem_singleton.mp hi.mem)

theorem feed_waiting (h : Waiting F ids ds) (hm : F.Carries k r.packet) {j : ℕ} (hj : j < F.total)
    (hmiss : j ∉ ids ++ [k]) (p : ℕ) (nowNano : ℤ) :
    ∃ f ds', DeFraggerBucket.Quiet f ∧ Waiting F (ids ++ [k]) ds' ∧
      feed ⟨ds⟩ r p nowNano = (f, ⟨ds'⟩) := by
  have hmiss' : j ∉ ids := fun hmem => hmiss (mem_append_left _ hmem)
  rcases h with ⟨rfl, rfl⟩ | ⟨d, rest, rfl, h⟩
  · obtain ⟨f, d', hf, hd', hholds, heq⟩ := feedAt_fresh [] p nowNano hm
    refine ⟨f, [d'], hf, waiting_single hd' hholds, ?_⟩
    rwa [feed_eq_route _ hm]
  · rcases feed_cases h.isOpen h.others hm p nowNano with heq | ⟨hother, hk, hwhy⟩
    · obtain ⟨d', hd', hholds, hquiet, _⟩ := feedAt_head rest h.isOpen
        (h.not_full hj hmiss') hm p nowNano
      have h' := h.took hd' hholds
      obtain ⟨f, hf, hfed⟩ := hquiet (h'.not_full hj hmiss)
      exact ⟨f, d' :: rest, hf, .inr ⟨d', rest, rfl, h'⟩, heq.trans hfed⟩
    · obtain ⟨f, rest', hf, hrest', heq⟩ := hother
      exact ⟨f, d :: rest', hf, .inr ⟨d, rest', rfl, h.passed hrest' hk hwhy⟩, heq⟩

theorem feed_last (h : Waiting F ids ds) (hm : F.Carries k r.packet) (hlast : k ∉ ids)
    (hall : ∀ j < F.total, Routed (ids ++ [k]) j) (p : ℕ) (nowNano : ℤ) :
    ∃ d rest, Open F d ∧ Collecting.Full F d ∧
      (p < F.payload.length → ∃ f, f.assembled = false ∧ f.assembledLen = F.payload.length ∧
        feed ⟨ds⟩ r p nowNano = (f, ⟨d :: rest⟩)) ∧
      (F.payload.length ≤ p → ∃ f b, f.assembled = true ∧ f.data = F.payload ∧ f.addr = F.addr ∧
        feed ⟨ds⟩ r p nowNano = (f, b)) := by
  have h2 := F.two_le
  rcases h with ⟨rfl, rfl⟩ | ⟨d, rest, rfl, h⟩
  · have h0 := mem_singleton.mp (hall 0 (by omega)).mem
    have h1 := mem_singleton.mp (hall 1 (by omega)).mem
    omega
  · rcases feed_cases h.isOpen h.others hm p nowNano with heq | ⟨_, hk, hwhy⟩
    · obtain ⟨d', hd', hholds, _, hshort, hfits⟩ := feedAt_head rest
        h.isOpen (h.not_full hm.lt hlast) hm p nowNano
      have hfull : Collecting.Full F d' := fun j hj => (h.took hd' hholds).routed j (hall j hj)
      rw [heq]
      exact ⟨d', rest, hd', hfull, hshort hfull, hfits hfull⟩
    · exfalso
      rcases routed_concat (hall k hm.lt) with hrouted | ⟨_, hrouted⟩
      · exact hlast hrouted.mem
      · exact hlast (h.held k (h.holds_of_routed hwhy hk hrouted))

end waiting

end Outbound.Tuic
