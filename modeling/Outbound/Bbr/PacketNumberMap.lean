import Outbound.Bbr.PacketNumberIndexedQueue

/-! Every operation of the packet number queue as an operation on the finite map that the queue
stands for, and what holds over whole runs. -/
namespace Outbound.Bbr

open List Option Bool RingBuffer Int64 EntryWrapper

namespace PacketNumberIndexedQueue

variable {T : Type*} [Inhabited T]

/-- `q` is `p` after its `n` oldest slots were dropped. -/
structure Popped (p q : PacketNumberIndexedQueue T) (n : ℕ) : Prop where
  tracked : Tracked q
  maxSlots : q.maxSlots = p.maxSlots
  list : q.entries.toList = p.entries.toList.drop n
  first : q.entries.toList ≠ [] → q.firstPacket.toInt = p.firstPacket.toInt + n

namespace Popped

variable {p q r : PacketNumberIndexedQueue T} {n m : ℕ}

theorem trans (h : Popped p q n) (h' : Popped q r m) : Popped p r (n + m) where
  tracked := h'.tracked
  maxSlots := h'.maxSlots.trans h.maxSlots
  list := by rw [h'.list, h.list, drop_drop]
  first := by
    intro hne
    rw [h'.first hne, h.first (ne_nil_of_drop_ne_nil (h'.list ▸ hne))]
    omega

theorem lookup (h : Popped p q n) (k : ℤ) :
    q.lookup k = if k < p.firstPacket.toInt + n then none else p.lookup k := by
  unfold PacketNumberIndexedQueue.lookup
  by_cases hne : q.entries.toList = []
  · have hdrop := h.list ▸ view_drop p.firstPacket.toInt p.entries.toList n k
    rw [hne, view_nil] at hdrop
    rwa [hne, view_nil]
  · rw [h.first hne, h.list, view_drop]

end Popped

variable {p : PacketNumberIndexedQueue T}

/-- A pop loop drops a run of oldest slots, each of which satisfied the loop condition, and stops
at one that does not. -/
theorem popWhile_popped (more : Int64 → EntryWrapper T → Bool) (fuel : ℕ) (h : Tracked p) :
    ∃ n q, popWhile more fuel p = some (n, q) ∧ Popped p q n ∧ n ≤ fuel ∧ n ≤ p.entries.len ∧
      q.firstPacket = p.firstPacket + Int64.ofNat n ∧
      (∀ i < n, ∃ ew, p.entries.toList[i]? = some ew ∧
        more (p.firstPacket + Int64.ofNat i) ew = true) ∧
      (n < fuel → ∀ ew, p.entries.toList[n]? = some ew →
        more (p.firstPacket + Int64.ofNat n) ew = false) := by
  obtain ⟨n, entries, hrun, hwf, hlist, hlen, hfuel, hall, hstop⟩ := popWhile_spec more fuel p h.wf
  refine ⟨n, _, hrun, ?_, hfuel, hlen, rfl, hall, hstop⟩
  have hentries : entries.len = p.entries.len - n := by
    rw [← toList_length, hlist, length_drop, toList_length]
  have hfirst : entries.toList ≠ [] →
      (p.firstPacket + Int64.ofNat n).toInt = p.firstPacket.toInt + n ∧
        p.entries.toList ≠ [] ∧ n < p.entries.len := by
    intro hne
    have hp := ne_nil_of_drop_ne_nil (hlist ▸ hne)
    have hpos : entries.len ≠ 0 := fun hz => hne ((toList_eq_nil_iff _).mpr hz)
    have hlast := h.last_lt hp
    exact ⟨toInt_add_ofNat _ _ (h.first_nonneg hp) (by omega), hp, by omega⟩
  refine ⟨⟨hwf, ?_, ?_, ?_, ?_, h.maxSlots_pos⟩, rfl, hlist, fun hne => (hfirst hne).1⟩
  · rw [hlist, presentCount_drop, h.count]
  · change entries.len ≤ p.maxSlots
    have := h.slots
    omega
  · intro hne
    have := h.first_nonneg (hfirst hne).2.1
    rw [(hfirst hne).1]
    omega
  · intro hne
    obtain ⟨heq, hp, hn⟩ := hfirst hne
    have := h.last_lt hp
    rw [heq, hentries]
    omega

theorem popped_reclaim (h : Tracked p) : Popped p p.reclaim 0 := by
  have key : ∀ size, Popped p { p with entries := p.entries.shrinkTo size } 0 := by
    intro size
    obtain ⟨hwf, hlist⟩ := shrinkTo_eq h.wf size
    have hlen : (p.entries.shrinkTo size).len = p.entries.len := by
      rw [← toList_length, hlist, toList_length]
    refine ⟨⟨hwf, ?_, ?_, ?_, ?_, h.maxSlots_pos⟩, rfl, hlist, fun _ => (add_zero _).symm⟩
    · exact h.count.trans (by rw [← hlist])
    · exact hlen.trans_le h.slots
    · exact fun hne => h.first_nonneg (hlist ▸ hne)
    · intro hne
      have := h.last_lt (hlist ▸ hne)
      rwa [hlen]
  have hself : Popped p p 0 := ⟨h, rfl, rfl, fun _ => (add_zero _).symm⟩
  unfold reclaim
  dsimp only
  split_ifs
  · exact hself
  · exact hself
  · exact key _
  · exact key _

theorem popped_settle (h : Tracked p) : Popped p p.settle 0 := by
  unfold settle
  by_cases he : p.entries.empty = true
  · have hl := (empty_iff_toList h.wf).mp he
    rw [if_pos he]
    have hmark : Popped p { p with firstPacket := invalidPacketNumber } 0 :=
      ⟨⟨h.wf, h.count, h.slots, fun hne => absurd hl hne, fun hne => absurd hl hne,
        h.maxSlots_pos⟩, rfl, rfl, fun hne => absurd hl hne⟩
    exact hmark.trans (popped_reclaim hmark.tracked)
  · rw [if_neg he]
    exact popped_reclaim h

theorem Popped.lookup_of_absent {q : PacketNumberIndexedQueue T} {n : ℕ} (h : Popped p q n)
    (habs : ∀ i < n, ∀ ew, p.entries.toList[i]? = some ew → ew.present = false) (k : ℤ) :
    q.lookup k = p.lookup k := by
  rw [h.lookup]
  split_ifs with hk
  · rw [PacketNumberIndexedQueue.lookup, view]
    split_ifs with hge
    · cases hew : p.entries.toList[(k - p.firstPacket.toInt).toNat]? with
      | none => rfl
      | some ew =>
        have := habs _ (by omega) ew hew
        simp [value, this]
    · rfl
  · rfl

theorem clearup_spec (h : Tracked p) :
    ∃ q, p.clearup = some q ∧ Good q ∧ q.maxSlots = p.maxSlots ∧ ∀ k, q.lookup k = p.lookup k := by
  obtain ⟨n, q, hrun, hpop, hfuel, -, -, hall, hstop⟩ :=
    popWhile_popped (fun _ ew => !ew.present) p.entries.len h
  have hend := hpop.trans (popped_settle hpop.tracked)
  refine ⟨q.settle, by simp [clearup, hrun], ⟨hend.tracked, ?_⟩, hend.maxSlots, ?_⟩
  · intro ew hew
    rw [hend.list, head?_drop, Nat.add_zero] at hew
    obtain ⟨hn, -⟩ := List.getElem?_eq_some_iff.mp hew
    rw [toList_length] at hn
    simpa using hstop hn ew hew
  · refine hend.lookup_of_absent ?_
    intro i hi ew hew
    obtain ⟨ew', hew', hmore⟩ := hall i (by omega)
    rw [hew', some.injEq] at hew
    subst hew
    simpa using hmore

theorem Tracked.setOffset (h : Tracked p) {i : ℕ} {ew : EntryWrapper T}
    (hew : p.entries.toList[i]? = some ew) (ew' : EntryWrapper T) :
    ∃ entries, p.entries.setOffset i ew' = some entries ∧ entries.len = p.entries.len ∧
      (∀ n : ℤ, n = presentCount (p.entries.toList.set i ew') →
        Tracked { p with entries := entries, numberOfPresentEntries := n }) ∧
      (∀ x, entries.toList.head? = some x → x = ew' ∧ i = 0 ∨ p.entries.toList.head? = some x) ∧
      ∀ k, view p.firstPacket.toInt entries.toList k =
        if k = p.firstPacket.toInt + i then ew'.value else p.lookup k := by
  obtain ⟨hi, -⟩ := List.getElem?_eq_some_iff.mp hew
  have hne : p.entries.toList ≠ [] := ne_nil_of_length_pos (by omega)
  obtain ⟨entries, hset, hwf, hlist⟩ := setOffset_eq h.wf i (by rwa [toList_length] at hi) ew'
  have hlen : entries.len = p.entries.len := by
    rw [← toList_length, hlist, length_set, toList_length]
  refine ⟨entries, hset, hlen, fun n hn => ⟨hwf, ?_, hlen.trans_le h.slots,
    fun _ => h.first_nonneg hne, fun _ => ?_, h.maxSlots_pos⟩, fun x hx => ?_, fun k => ?_⟩
  · exact hn.trans (by rw [← hlist])
  · rw [hlen]
    exact h.last_lt hne
  · rw [head?_eq_getElem?, hlist] at hx
    by_cases hi0 : i = 0
    · subst hi0
      rw [getElem?_set_self hi, some.injEq] at hx
      exact .inl ⟨hx.symm, rfl⟩
    · rw [getElem?_set_ne hi0, ← head?_eq_getElem?] at hx
      exact .inr hx
  · rw [hlist, view_set _ _ _ hi]
    rfl

theorem remove_spec (h : Good p) (pn : Int64) :
    ∃ q, p.remove pn = some (p.lookup pn.toInt, q) ∧ Good q ∧ q.maxSlots = p.maxSlots ∧
      ∀ k, q.lookup k = if k = pn.toInt then none else p.lookup k := by
  rcases h.getEntryWraper_eq pn with ⟨hnone, hw⟩ | ⟨i, ew, hew, hp, hpn, hsome, hw⟩
  · refine ⟨p, by simp [remove, hw, hnone], h, rfl, ?_⟩
    intro k
    split_ifs with hk
    · rw [hk, hnone]
    · rfl
  obtain ⟨entries, hset, -, htracked, hhead, hq⟩ := h.setOffset hew { ew with present := false }
  have hcount := presentCount_set_absent _ i ew hew hp
  replace htracked := htracked (p.numberOfPresentEntries - 1) (by rw [h.count]; omega)
  rw [← hpn] at hq
  by_cases hfirst : pn = p.firstPacket
  · obtain ⟨r, hclear, hgood, hmax, hlook⟩ := clearup_spec htracked
    refine ⟨r, ?_, hgood, hmax, fun k => (hlook k).trans (hq k)⟩
    simp only [remove, hw, bind_eq_bind, bind_some, hset]
    rw [if_pos hfirst, hsome, hclear, bind_some]
  · refine ⟨_, ?_, ⟨htracked, ?_⟩, rfl, hq⟩
    · simp [remove, hw, hset, hfirst, hsome]
    · intro x hx
      rcases hhead x hx with ⟨-, rfl⟩ | hx
      · exact absurd (toInt_inj.mp (by simpa using hpn)) hfirst
      · exact h.front_present x hx

theorem modifyEntry_spec (h : Good p) (pn : Int64) (f : T → T) :
    ∃ q, p.modifyEntry pn f = some q ∧ Good q ∧ q.maxSlots = p.maxSlots ∧
      q.firstPacket = p.firstPacket ∧ q.entries.len = p.entries.len ∧
      ∀ k, q.lookup k = if k = pn.toInt then (p.lookup k).map f else p.lookup k := by
  rcases h.getEntryWraper_eq pn with ⟨hnone, hw⟩ | ⟨i, ew, hew, hp, hpn, hsome, hw⟩
  · refine ⟨p, by simp [modifyEntry, hw], h, rfl, rfl, rfl, ?_⟩
    intro k
    split_ifs with hk
    · simp [hk, hnone]
    · rfl
  obtain ⟨entries, hset, hlen, htracked, hhead, hq⟩ :=
    h.setOffset hew { ew with entry := f ew.entry }
  have hcount : presentCount (p.entries.toList.set i { ew with entry := f ew.entry }) =
      presentCount p.entries.toList := by
    obtain ⟨hi, hget⟩ := List.getElem?_eq_some_iff.mp hew
    have hpos : 0 < p.entries.toList.countP present :=
      countP_pos_iff.mpr ⟨ew, mem_of_getElem? hew, hp⟩
    rw [presentCount, presentCount, countP_set hi, hget, if_pos hp]
    omega
  refine ⟨{ p with entries := entries }, ?_, ⟨htracked _ (by rw [hcount, h.count]), fun x hx => ?_⟩,
    rfl, rfl, hlen, fun k => ?_⟩
  · simp [modifyEntry, hw, hset]
  · rcases hhead x hx with ⟨rfl, -⟩ | hx
    · exact hp
    · exact h.front_present x hx
  · refine (hq k).trans ?_
    rw [← hpn]
    split_ifs with hk
    · rw [hk, hsome]
      simp [value, hp]
    · rfl

theorem lookup_eq_none_of_last {k : ℤ}
    (hk : p.firstPacket.toInt + p.entries.len ≤ k) : p.lookup k = none := by
  cases hl : p.lookup k with
  | none => rfl
  | some e =>
    have := (view_some_range hl).2
    rw [toList_length] at this
    omega

theorem removeUpTo_spec (h : Good p) (pn : Int64) :
    ∃ q, p.removeUpTo pn = some q ∧ Good q ∧ q.maxSlots = p.maxSlots ∧
      ∀ k, q.lookup k = if k < pn.toInt then none else p.lookup k := by
  obtain ⟨n, q, hrun, hpop, hfuel, hlen, -, hall, hstop⟩ := popWhile_popped
    (fun first _ => decide (first ≠ invalidPacketNumber) && decide (first < pn)) p.entries.len
      h.toTracked
  obtain ⟨r, hclear, hgood, hmax, hlook⟩ := clearup_spec hpop.tracked
  refine ⟨r, ?_, hgood, hmax.trans hpop.maxSlots, ?_⟩
  · simp only [removeUpTo, hrun, bind_eq_bind, bind_some, hclear]
  by_cases hl : p.entries.toList = []
  · intro k
    rw [hlook, hpop.lookup]
    simp [lookup, hl]
  have h0 := h.first_nonneg hl
  have hlast := h.last_lt hl
  have hbelow : 0 < n → p.firstPacket.toInt + n ≤ pn.toInt := by
    intro hn
    obtain ⟨ew, -, hmore⟩ := hall (n - 1) (by omega)
    rw [and_eq_true, decide_eq_true_eq, decide_eq_true_eq, lt_iff_toInt_lt,
      toInt_add_ofNat _ _ h0 (by omega)] at hmore
    omega
  have habove : n < p.entries.len → pn.toInt ≤ p.firstPacket.toInt + n := by
    intro hn
    have hadd := toInt_add_ofNat p.firstPacket n h0 (by omega)
    have hmore := hstop hn _ (getElem?_eq_getElem (by rwa [toList_length]))
    have hvalid : p.firstPacket + Int64.ofNat n ≠ invalidPacketNumber := by
      intro heq
      rw [heq, toInt_invalid] at hadd
      omega
    rw [decide_eq_true hvalid, Bool.true_and, decide_eq_false_iff_not, lt_iff_toInt_lt,
      hadd] at hmore
    omega
  intro k
  rw [hlook, hpop.lookup]
  split_ifs with hk hk' hk'
  · rfl
  · have hn : ¬ 0 < n := fun hn => by have := hbelow hn; omega
    rw [lookup, view, if_neg (by omega)]
  · exact lookup_eq_none_of_last (by omega)
  · rfl

theorem dropConsumedFront_spec (h : Good p) (isConsumed : T → Bool) :
    ∃ n q, p.dropConsumedFront isConsumed = some (n, q) ∧ Good q ∧ q.maxSlots = p.maxSlots ∧
      (∀ k, q.lookup k = if k < p.firstPacket.toInt + n then none else p.lookup k) ∧
      (∀ k e, k < p.firstPacket.toInt + n → p.lookup k = some e → isConsumed e = true) ∧
      (q.isEmpty = false →
        q.firstPacket.toInt + q.entries.len = p.firstPacket.toInt + p.entries.len ∧
        ∃ e, p.lookup (p.firstPacket.toInt + n) = some e ∧ isConsumed e = false) := by
  obtain ⟨n, q, hrun, hpop, hfuel, hlen, -, hall, hstop⟩ := popWhile_popped
    (fun _ ew => !ew.present || isConsumed ew.entry) p.entries.len h.toTracked
  have hend := hpop.trans (popped_settle hpop.tracked)
  have hfront : ∀ ew, q.settle.entries.toList.head? = some ew →
      p.entries.toList[n]? = some ew ∧ ew.present = true ∧ isConsumed ew.entry = false := by
    intro ew hew
    rw [hend.list, head?_drop] at hew
    obtain ⟨hn, -⟩ := List.getElem?_eq_some_iff.mp hew
    rw [toList_length] at hn
    have := hstop hn ew hew
    rw [or_eq_false_iff, not_eq_false'] at this
    exact ⟨hew, this⟩
  have hgood : Good q.settle := ⟨hend.tracked, fun ew hew => (hfront ew hew).2.1⟩
  refine ⟨n, q.settle, by simp [dropConsumedFront, hrun], hgood, hend.maxSlots, hend.lookup, ?_, ?_⟩
  · intro k e hk he
    have hge := (view_some_range he).1
    obtain ⟨ew, hew, hmore⟩ := hall (k - p.firstPacket.toInt).toNat (by omega)
    rw [lookup, view, if_pos hge, hew, bind_some, value] at he
    split_ifs at he with hp
    rw [hp, Bool.not_true, Bool.false_or] at hmore
    rwa [← some.inj he]
  · intro hne
    have hl : q.settle.entries.toList ≠ [] := by
      intro hl
      rw [hgood.isEmpty_iff.mpr hl] at hne
      simp at hne
    obtain ⟨ew, hew⟩ : ∃ ew, q.settle.entries.toList.head? = some ew := ⟨_, head?_eq_some_head hl⟩
    obtain ⟨hget, hp, hc⟩ := hfront ew hew
    have hlist := congrArg length hend.list
    rw [length_drop, toList_length, toList_length] at hlist
    refine ⟨by rw [hend.first hl]; omega, ew.entry, ?_, hc⟩
    rw [lookup, view, if_pos (by omega)]
    simp [hget, value, hp]

variable (pn : Int64) (e : T) {r : RingBuffer (EntryWrapper T)}

theorem pushBack_absent_spec (gap : ℕ) (h : r.WF) :
    (Loop.forUp (fun _ r => r.pushBack default) gap r).WF ∧
      (Loop.forUp (fun _ r => r.pushBack default) gap r).toList =
        r.toList ++ replicate gap default := by
  induction gap with
  | zero => exact ⟨h, (append_nil _).symm⟩
  | succ gap ih =>
    refine ⟨wf_pushBack ih.1 _, ?_⟩
    rw [Loop.forUp, toList_pushBack ih.1, ih.2, replicate_succ', append_assoc]

theorem pushEntry_spec (hwf : p.entries.WF)
    (hcount : p.numberOfPresentEntries = presentCount p.entries.toList) (gap : ℕ) (e : T) (pn : ℤ)
    (hpn : pn = p.firstPacket.toInt + p.entries.len + gap) (h0 : 0 ≤ p.firstPacket.toInt)
    (hlt : pn < 2 ^ 63) (hslots : p.entries.len + gap + 1 ≤ p.maxSlots)
    (hfront : ∀ ew, (p.entries.toList ++ replicate gap default).head? = some ew →
      ew.present = true) :
    Good (p.pushEntry gap e) ∧ p.firstPacket.toInt + (p.pushEntry gap e).entries.len = pn + 1 ∧
      ∀ k, (p.pushEntry gap e).lookup k = if k = pn then some e else p.lookup k := by
  obtain ⟨hpad, hpadlist⟩ := pushBack_absent_spec gap hwf
  have hlist : (p.pushEntry gap e).entries.toList =
      p.entries.toList ++ replicate gap default ++ [⟨true, e⟩] := by
    rw [← hpadlist]
    exact toList_pushBack hpad _
  have hlen : (p.pushEntry gap e).entries.len = p.entries.len + gap + 1 := by
    rw [← toList_length, hlist]
    simp only [length_append, length_replicate, toList_length, length_singleton]
  refine ⟨⟨⟨wf_pushBack hpad _, ?_, ?_, fun _ => h0, fun _ => ?_, ?_⟩, ?_⟩, by omega, ?_⟩
  · have habs : presentCount (replicate gap (default : EntryWrapper T)) = 0 := by
      rw [presentCount_eq_zero_iff]
      intro ew hew
      rw [eq_of_mem_replicate hew]
      rfl
    have happ : presentCount (p.entries.toList ++ replicate gap default ++ [⟨true, e⟩]) =
        presentCount p.entries.toList + presentCount (replicate gap (default : EntryWrapper T))
          + 1 := by
      rw [presentCount, countP_append, countP_append]
      rfl
    change p.numberOfPresentEntries + 1 = _
    rw [hlist, happ, habs, hcount]
    push_cast
    omega
  · change (p.pushEntry gap e).entries.len ≤ p.maxSlots
    omega
  · change p.firstPacket.toInt + (p.pushEntry gap e).entries.len ≤ 2 ^ 63
    omega
  · change 0 < p.maxSlots
    omega
  · intro ew hew
    rw [hlist, head?_append] at hew
    cases hh : (p.entries.toList ++ replicate gap default).head? with
    | none =>
      rw [hh] at hew
      simp only [none_or, head?_cons, some.injEq] at hew
      rw [← hew]
    | some ew' =>
      rw [hh] at hew
      simp only [some_or, some.injEq] at hew
      rw [← hew]
      exact hfront ew' hh
  · intro k
    change view p.firstPacket.toInt (p.pushEntry gap e).entries.toList k = _
    rw [hlist, view_append_entry, view_append_absent _ _ _ rfl, length_append,
      length_replicate, toList_length, hpn]
    push_cast
    rw [← add_assoc]
    rfl

variable (p)

/-- The slots the budget takes from the front leave a present entry there: either the new entry is
the only one that fits, or the packet number `maxSlots - 1` before it is recorded. -/
def BudgetKeepsFront : Prop :=
  p.maxSlots = 1 ∨ (p.lookup (pn.toInt + 1 - p.maxSlots)).isSome

/-- When an insertion keeps the oldest slot present and the packet numbers comparable. A queue that
starts below zero can come to have the invalid number -1 as its first, where `RemoveUpTo` stops. -/
def EmplaceOk : Prop :=
  if p.isEmpty then 0 ≤ pn.toInt ∨ pn = invalidPacketNumber
  else p.lastPacket < pn → (p.maxSlots : ℤ) < pn.toInt - p.firstPacket.toInt + 1 →
    pn.toInt - p.firstPacket.toInt < p.entries.len + p.maxSlots → p.BudgetKeepsFront pn

instance : Decidable (p.BudgetKeepsFront pn) :=
  inferInstanceAs (Decidable (_ ∨ _))

instance : Decidable (p.EmplaceOk pn) :=
  inferInstanceAs (Decidable (ite _ _ _))

/-- The map after an accepted insertion: entries further back than the slot budget are gone. -/
def emplaced (k : ℤ) : Option T :=
  if k = pn.toInt then some e
  else if (p.maxSlots : ℤ) ≤ pn.toInt - k then none
  else p.lookup k

structure Emplaced (q : PacketNumberIndexedQueue T) : Prop where
  good : Good q
  maxSlots : q.maxSlots = p.maxSlots
  last : q.firstPacket.toInt + q.entries.len = pn.toInt + 1
  lookup : ∀ k, q.lookup k = p.emplaced pn e k

variable {p}

theorem emplaced_alone {q : PacketNumberIndexedQueue T} (pn : Int64) (e : T) (h0 : 0 ≤ pn.toInt)
    (hwf : q.entries.WF) (hl : q.entries.toList = []) (hcount : q.numberOfPresentEntries = 0)
    (hfirst : q.firstPacket = pn) (hmax : q.maxSlots = p.maxSlots) (hpos : 0 < p.maxSlots)
    (hgone : ∀ k, pn.toInt - k < p.maxSlots → p.lookup k = none) :
    Emplaced p pn e (q.pushEntry 0 e) := by
  subst hfirst
  have hlen := (toList_eq_nil_iff _).mp hl
  obtain ⟨hgood, hlast, hlook⟩ := pushEntry_spec hwf (by rw [hl, hcount]; rfl) 0 e
    q.firstPacket.toInt (by simp [hlen]) h0 q.firstPacket.toInt_lt (by omega) (by simp [hl])
  refine ⟨hgood, hmax, hlast, fun k => ?_⟩
  rw [hlook, emplaced, lookup, hl, view_nil]
  split_ifs with hk hb
  · rfl
  · rfl
  · exact (hgone k (by omega)).symm

theorem emplace_empty (h : Good p) (he : p.isEmpty = true)
    (pn : Int64) (e : T) (hpn : pn ≠ invalidPacketNumber) (h0 : 0 ≤ pn.toInt) :
    ∃ q, p.emplace pn (some e) = some (true, q) ∧ Emplaced p pn e q := by
  let p' : PacketNumberIndexedQueue T := { p with numberOfPresentEntries := 0, firstPacket := pn }
  refine ⟨p'.pushEntry 0 e, ?_, emplaced_alone pn e h0 h.wf (h.isEmpty_iff.mp he) rfl rfl rfl
    h.maxSlots_pos fun k _ => h.lookup_of_isEmpty he k⟩
  simp [emplace, hpn, he, p', pushEntry, Loop.forUp]

theorem dropFront_spec (h : Tracked p) (n : ℕ) (hn : n ≤ p.entries.len) :
    ∃ q, p.dropFront n = some q ∧ Popped p q n ∧ q.firstPacket = p.firstPacket + Int64.ofNat n := by
  obtain ⟨m, q, hrun, hpop, hfuel, -, hfirst, -, hstop⟩ := popWhile_popped (fun _ _ => true) n h
  have hm : m = n := by
    by_contra hne
    have hlt : m < n := by omega
    have := hstop hlt _ (getElem?_eq_getElem (by rw [toList_length]; omega))
    simp at this
  subst hm
  refine ⟨{ q with truncatedSlots := q.truncatedSlots + m }, by simp [dropFront, hrun], ?_, hfirst⟩
  have ht := hpop.tracked
  exact ⟨⟨ht.wf, ht.count, ht.slots, ht.first_nonneg, ht.last_lt, ht.maxSlots_pos⟩,
    hpop.maxSlots, hpop.list, hpop.first⟩

theorem emplace_restart (h : Good p) (he : ¬ p.isEmpty = true)
    (pn : Int64) (e : T) (hlast : p.lastPacket < pn)
    (hgap : (p.entries.len : ℤ) + p.maxSlots ≤ pn.toInt - p.firstPacket.toInt) :
    ∃ q, p.emplace pn (some e) = some (true, q) ∧ Emplaced p pn e q := by
  have hl : p.entries.toList ≠ [] := fun hl => he (h.isEmpty_iff.mpr hl)
  have h0 := h.first_nonneg hl
  have hpos := h.maxSlots_pos
  have hoff := toInt_sub_of_nonneg pn p.firstPacket h0 (by omega)
  have hpn : pn ≠ invalidPacketNumber := by
    rintro rfl
    rw [toInt_invalid] at hgap
    omega
  refine ⟨(p.restart pn).pushEntry 0 e, ?_, emplaced_alone pn e (by omega) (wf_init _)
    (toList_init _) rfl rfl rfl hpos fun k _ => lookup_eq_none_of_last (by omega)⟩
  rw [emplace, if_neg hpn, if_neg he, if_neg (by rwa [Int64.not_le])]
  rw [hoff, if_pos (by omega)]
  rfl

theorem emplace_append (h : Good p) (he : ¬ p.isEmpty = true)
    (pn : Int64) (e : T) (hlast : p.lastPacket < pn)
    (hgap : pn.toInt - p.firstPacket.toInt < (p.entries.len : ℤ) + p.maxSlots)
    (hok : p.EmplaceOk pn) : ∃ q, p.emplace pn (some e) = some (true, q) ∧ Emplaced p pn e q := by
  have hl : p.entries.toList ≠ [] := fun hl => he (h.isEmpty_iff.mpr hl)
  have h0 := h.first_nonneg hl
  have hslots := h.slots
  have hlast' : p.firstPacket.toInt + p.entries.len - 1 < pn.toInt := by
    rwa [← h.lastPacket_eq he, ← lt_iff_toInt_lt]
  have hoff := toInt_sub_of_nonneg pn p.firstPacket h0 (by omega)
  have hpn : pn ≠ invalidPacketNumber := by
    rintro rfl
    rw [toInt_invalid] at hlast'
    omega
  have hlt := pn.toInt_lt
  obtain ⟨gap, hgapeq⟩ : ∃ gap : ℕ, pn.toInt - p.firstPacket.toInt - p.entries.len = gap :=
    ⟨_, (Int.toNat_of_nonneg (by omega)).symm⟩
  have hunfold : p.emplace pn (some e) =
      (if 0 < p.entries.len + gap + 1 - p.maxSlots
        then p.dropFront (p.entries.len + gap + 1 - p.maxSlots) else some p).bind
        fun q => some (true, q.pushEntry gap e) := by
    rw [emplace, if_neg hpn, if_neg he, if_neg (by rwa [Int64.not_le])]
    dsimp only
    rw [hoff, hgapeq, Int.toNat_natCast, if_neg (by omega)]
    split_ifs <;> rfl
  by_cases hexc : 0 < p.entries.len + gap + 1 - p.maxSlots
  · obtain ⟨q, hdrop, hpop, hqfirst⟩ :=
      dropFront_spec h.toTracked (p.entries.len + gap + 1 - p.maxSlots) (by omega)
    have hqlen : q.entries.len = p.entries.len - (p.entries.len + gap + 1 - p.maxSlots) := by
      rw [← toList_length, hpop.list, length_drop, toList_length]
    have hqfirst' : q.firstPacket.toInt = pn.toInt + 1 - p.maxSlots := by
      rw [hqfirst, toInt_add_ofNat _ _ h0 (by omega)]
      omega
    have hkeep : p.BudgetKeepsFront pn := by
      rw [EmplaceOk, if_neg he] at hok
      exact hok hlast (by omega) (by omega)
    have hfront : ∀ ew, (q.entries.toList ++ replicate gap default).head? = some ew →
        ew.present = true := by
      intro ew hew
      rcases hkeep with hone | hsome
      · have hgap0 : gap = 0 := by omega
        have hnil : q.entries.toList = [] := (toList_eq_nil_iff _).mpr (by omega)
        simp [hgap0, hnil] at hew
      · rw [← hqfirst', ← (hpop.lookup _).trans (if_neg (by omega)), lookup, view,
          if_pos (by omega), Int.sub_self] at hsome
        cases hq : q.entries.toList with
        | nil => simp [hq] at hsome
        | cons ew' l =>
          rw [hq] at hsome hew
          have heq : ew' = ew := by simpa using hew
          subst heq
          by_contra hp
          simp [value, hp] at hsome
    obtain ⟨hgood, hend, hlook⟩ := pushEntry_spec hpop.tracked.wf hpop.tracked.count gap e pn.toInt
      (by omega) (by omega) hlt (by rw [hpop.maxSlots]; omega) hfront
    refine ⟨q.pushEntry gap e, ?_, hgood, hpop.maxSlots, hend, ?_⟩
    · simp [hunfold, hexc, hdrop]
    · intro k
      rw [hlook, emplaced, hpop.lookup]
      split_ifs <;> first | rfl | omega
  · obtain ⟨hgood, hend, hlook⟩ := pushEntry_spec h.wf h.count gap e pn.toInt (by omega) h0 hlt
      (by omega) (by
        intro ew hew
        apply h.front_present ew
        rwa [head?_append_of_ne_nil _ hl] at hew)
    refine ⟨p.pushEntry gap e, ?_, hgood, rfl, hend, ?_⟩
    · simp [hunfold, hexc]
    · intro k
      rw [hlook, emplaced]
      split_ifs with hk hb
      · rfl
      · rw [lookup, view, if_neg (by omega)]
      · rfl

theorem emplace_accepted (h : Good p) {pn : Int64} (e : T) (hok : p.EmplaceOk pn)
    (hpn : pn ≠ invalidPacketNumber) (hin : p.isEmpty = true ∨ p.lastPacket < pn) :
    ∃ q, p.emplace pn (some e) = some (true, q) ∧ Emplaced p pn e q := by
  by_cases he : p.isEmpty = true
  · have h0 : 0 ≤ pn.toInt := by
      rw [EmplaceOk, if_pos he] at hok
      exact hok.resolve_right hpn
    exact emplace_empty h he pn e hpn h0
  have hlast := hin.resolve_left he
  by_cases hgap : (p.entries.len : ℤ) + p.maxSlots ≤ pn.toInt - p.firstPacket.toInt
  · exact emplace_restart h he pn e hlast hgap
  · exact emplace_append h he pn e hlast (by omega) hok

/-- An insertion that keeps the front present is an insertion into the map, up to the budget. -/
theorem emplace_spec (h : Good p) (pn : Int64) (entry : Option T) (hok : p.EmplaceOk pn) :
    ∃ ok q, p.emplace pn entry = some (ok, q) ∧ Good q ∧ q.maxSlots = p.maxSlots ∧
      (ok = true ↔ entry.isSome ∧ pn ≠ invalidPacketNumber ∧
        (p.isEmpty = true ∨ p.lastPacket < pn)) ∧
      (ok = false → q = p) ∧
      (ok = true → ∃ e, entry = some e ∧ Emplaced p pn e q) := by
  cases entry with
  | none => exact ⟨false, p, rfl, h, rfl, by simp, fun _ => rfl, by simp⟩
  | some e =>
    by_cases hin : pn ≠ invalidPacketNumber ∧ (p.isEmpty = true ∨ p.lastPacket < pn)
    · obtain ⟨q, hrun, hq⟩ := emplace_accepted h e hok hin.1 hin.2
      exact ⟨true, q, hrun, hq.good, hq.maxSlots, by simp [hin], by simp, fun _ => ⟨e, rfl, hq⟩⟩
    · refine ⟨false, p, ?_, h, rfl, by simp [hin], fun _ => rfl, by simp⟩
      rw [emplace]
      split_ifs with hpn he hle
      · rfl
      · exact absurd ⟨hpn, .inl he⟩ hin
      · rfl
      · exact absurd ⟨hpn, .inr (Int64.not_le.mp hle)⟩ hin

def recorded (p : PacketNumberIndexedQueue T) : Set Int64 :=
  {pn | ∃ e, p.getEntry pn = some (some e)}

theorem Good.ncard_recorded (h : Good p) : (p.recorded.ncard : ℤ) = p.numberOfPresentEntries := by
  have himage : Set.image Int64.toInt p.recorded = {k | (p.lookup k).isSome} := by
    ext k
    constructor
    · rintro ⟨pn, ⟨e, he⟩, rfl⟩
      rw [h.getEntry_eq, some.injEq] at he
      simp [he]
    · intro hk
      obtain ⟨e, he⟩ := isSome_iff_exists.mp hk
      have hrange := view_some_range he
      rw [toList_length] at hrange
      have hl : p.entries.toList ≠ [] := by
        intro hl
        rw [lookup, hl, view_nil] at he
        simp at he
      have h0 := h.first_nonneg hl
      have hlast := h.last_lt hl
      have hk' : (ofInt k).toInt = k := toInt_ofInt_of_le (by omega) (by omega)
      exact ⟨ofInt k, ⟨e, by rw [h.getEntry_eq, hk', he]⟩, hk'⟩
  have hinj : Function.Injective Int64.toInt := fun _ _ => Int64.toInt_inj.mp
  rw [← Set.ncard_image_of_injective _ hinj, himage, h.count]
  exact congrArg _ (ncard_view _ _)

inductive Op (T : Type*) where
  | emplace (packetNumber : Int64) (entry : Option T)
  | remove (packetNumber : Int64)
  | removeUpTo (packetNumber : Int64)
  | dropConsumedFront (isConsumed : T → Bool)

variable (p)

def step : Op T → Option (PacketNumberIndexedQueue T)
  | .emplace pn entry => (p.emplace pn entry).map Prod.snd
  | .remove pn => (p.remove pn).map Prod.snd
  | .removeUpTo pn => p.removeUpTo pn
  | .dropConsumedFront isConsumed => (p.dropConsumedFront isConsumed).map Prod.snd

/-- The calls under which the queue keeps its oldest slot present. -/
def OpOk : Op T → Prop
  | .emplace pn _ => p.EmplaceOk pn
  | _ => True

variable {p}

/-- The states of the runs whose insertions all keep the oldest slot present. -/
inductive Reachable (initialSize maxSize : ℤ) : PacketNumberIndexedQueue T → Prop
  | new : Reachable initialSize maxSize (newPacketNumberIndexedQueue initialSize maxSize)
  | step {p q : PacketNumberIndexedQueue T} (op : Op T) :
    Reachable initialSize maxSize p → p.OpOk op → p.step op = some q →
      Reachable initialSize maxSize q

theorem good_new (initialSize maxSize : ℤ) :
    Good (newPacketNumberIndexedQueue initialSize maxSize : PacketNumberIndexedQueue T) := by
  have hl : (newPacketNumberIndexedQueue initialSize maxSize :
      PacketNumberIndexedQueue T).entries.toList = [] := toList_init _
  refine ⟨⟨wf_init _, ?_, ?_, fun hne => absurd hl hne, fun hne => absurd hl hne, ?_⟩, ?_⟩
  · rfl
  · exact Nat.zero_le _
  · simp only [newPacketNumberIndexedQueue]
    split_ifs <;> omega
  · simp [hl]

theorem Good.step (h : Good p) (op : Op T) (hok : p.OpOk op) :
    ∃ q, p.step op = some q ∧ Good q ∧ q.maxSlots = p.maxSlots := by
  cases op with
  | emplace pn entry =>
    obtain ⟨ok, q, hrun, hgood, hmax, -⟩ := emplace_spec h pn entry hok
    exact ⟨q, by simp [PacketNumberIndexedQueue.step, hrun], hgood, hmax⟩
  | remove pn =>
    obtain ⟨q, hrun, hgood, hmax, -⟩ := remove_spec h pn
    exact ⟨q, by simp [PacketNumberIndexedQueue.step, hrun], hgood, hmax⟩
  | removeUpTo pn =>
    obtain ⟨q, hrun, hgood, hmax, -⟩ := removeUpTo_spec h pn
    exact ⟨q, hrun, hgood, hmax⟩
  | dropConsumedFront isConsumed =>
    obtain ⟨n, q, hrun, hgood, hmax, -⟩ := dropConsumedFront_spec h isConsumed
    exact ⟨q, by simp [PacketNumberIndexedQueue.step, hrun], hgood, hmax⟩

theorem Reachable.good {initialSize maxSize : ℤ} (h : Reachable initialSize maxSize p) :
    Good p ∧ p.maxSlots =
      (newPacketNumberIndexedQueue initialSize maxSize : PacketNumberIndexedQueue T).maxSlots := by
  induction h with
  | new => exact ⟨good_new _ _, rfl⟩
  | step op _ hok hstep ih =>
    obtain ⟨q, hrun, hgood, hmax⟩ := ih.1.step op hok
    rw [hrun, some.injEq] at hstep
    subst hstep
    exact ⟨hgood, hmax.trans ih.2⟩

/-- The queue is a finite map from packet numbers to entries, seen through its own operations. An
insertion forgets exactly the packet numbers that are `maxSlots` or more behind it. -/
structure ActsAsMap (p : PacketNumberIndexedQueue T) : Prop where
  slots : p.entrySlotsUsed ≤ p.maxSlots
  present : (p.recorded.ncard : ℤ) = p.numberOfPresentEntries
  empty : p.numberOfPresentEntries = 0 → p.entrySlotsUsed = 0
  getEntry : ∀ pn, ∃ found, p.getEntry pn = some found
  emplace : ∀ pn entry, p.EmplaceOk pn → ∃ ok q, p.emplace pn entry = some (ok, q) ∧
    (ok = true ↔ entry.isSome ∧ pn ≠ invalidPacketNumber ∧
      (p.isEmpty = true ∨ p.lastPacket < pn)) ∧
    (ok = false → q = p) ∧
    (ok = true → q.getEntry pn = some entry ∧ ∀ pn', pn' ≠ pn →
      q.getEntry pn' =
        if (p.maxSlots : ℤ) ≤ pn.toInt - pn'.toInt then some none else p.getEntry pn')
  remove : ∀ pn, ∃ found q, p.remove pn = some (found, q) ∧ p.getEntry pn = some found ∧
    ∀ pn', q.getEntry pn' = if pn' = pn then some none else p.getEntry pn'
  removeUpTo : ∀ pn, ∃ q, p.removeUpTo pn = some q ∧
    ∀ pn', q.getEntry pn' = if pn' < pn then some none else p.getEntry pn'
  dropConsumedFront : ∀ isConsumed, ∃ n q, ∃ cut : ℤ,
    p.dropConsumedFront isConsumed = some (n, q) ∧
    (∀ pn, q.getEntry pn = if pn.toInt < cut then some none else p.getEntry pn) ∧
    (∀ pn e, pn.toInt < cut → p.getEntry pn = some (some e) → isConsumed e = true) ∧
    (q.isEmpty = false → ∃ e, p.lookup cut = some e ∧ isConsumed e = false)

theorem Good.actsAsMap (h : Good p) : ActsAsMap p where
  slots := h.slots
  present := h.ncard_recorded
  empty := by
    intro hz
    have he : p.isEmpty = true := by simpa [isEmpty] using hz
    exact (toList_eq_nil_iff _).mp (h.isEmpty_iff.mp he)
  getEntry pn := ⟨_, h.getEntry_eq pn⟩
  emplace pn entry hok := by
    obtain ⟨ok, q, hrun, hgood, -, hiff, hfalse, htrue⟩ := emplace_spec h pn entry hok
    refine ⟨ok, q, hrun, hiff, hfalse, ?_⟩
    intro hok'
    obtain ⟨e, rfl, hq⟩ := htrue hok'
    refine ⟨by rw [hgood.getEntry_eq, hq.lookup, emplaced, if_pos rfl], ?_⟩
    intro pn' hne
    have hne' : pn'.toInt ≠ pn.toInt := fun heq => hne (toInt_inj.mp heq)
    rw [hgood.getEntry_eq, hq.lookup, emplaced, if_neg hne', h.getEntry_eq, apply_ite some]
  remove pn := by
    obtain ⟨q, hrun, hgood, -, hlook⟩ := remove_spec h pn
    refine ⟨_, q, hrun, h.getEntry_eq pn, ?_⟩
    intro pn'
    rw [hgood.getEntry_eq, hlook, h.getEntry_eq, apply_ite some]
    simp only [toInt_inj]
  removeUpTo pn := by
    obtain ⟨q, hrun, hgood, -, hlook⟩ := removeUpTo_spec h pn
    refine ⟨q, hrun, ?_⟩
    intro pn'
    rw [hgood.getEntry_eq, hlook, h.getEntry_eq, apply_ite some]
    simp only [lt_iff_toInt_lt]
  dropConsumedFront isConsumed := by
    obtain ⟨n, q, hrun, hgood, -, hlook, hcons, hstop⟩ := dropConsumedFront_spec h isConsumed
    refine ⟨n, q, _, hrun, ?_, ?_, fun he => (hstop he).2⟩
    · intro pn
      rw [hgood.getEntry_eq, hlook, h.getEntry_eq, apply_ite some]
    · intro pn e hlt he
      rw [h.getEntry_eq, some.injEq] at he
      exact hcons _ e hlt he

/-- In every run whose insertions keep the oldest slot present, every state acts as a map within
the slot budget the queue was built with. -/
theorem reachable_actsAsMap {initialSize maxSize : ℤ} {p : PacketNumberIndexedQueue T}
    (h : Reachable initialSize maxSize p) :
    ActsAsMap p ∧ p.maxSlots =
      (newPacketNumberIndexedQueue initialSize maxSize : PacketNumberIndexedQueue T).maxSlots :=
  ⟨h.good.1.actsAsMap, h.good.2⟩

theorem reachable_actsAsMap_truncated :
    ∃ p : PacketNumberIndexedQueue ℕ, Reachable 1 3 p ∧ p.getEntry 5 = some none ∧
      p.getEntry 6 = some (some 12) ∧ p.getEntry 8 = some (some 14) ∧ ActsAsMap p := by
  have h1 : ∃ p : PacketNumberIndexedQueue ℕ,
      (newPacketNumberIndexedQueue 1 3).step (.emplace 5 (some 11)) = some p ∧ p.EmplaceOk 6 ∧
        ∃ q, p.step (.emplace 6 (some 12)) = some q ∧ q.EmplaceOk 8 ∧
          ∃ r, q.step (.emplace 8 (some 14)) = some r ∧ r.getEntry 5 = some none ∧
            r.getEntry 6 = some (some 12) ∧ r.getEntry 8 = some (some 14) :=
    ⟨_, rfl, by decide, _, rfl, by decide, _, rfl, rfl, rfl, rfl⟩
  obtain ⟨p, hp, hp6, q, hq, hq8, r, hr, h5, h6, h8⟩ := h1
  have hok : (newPacketNumberIndexedQueue 1 3 : PacketNumberIndexedQueue ℕ).EmplaceOk 5 := by decide
  have hreach : Reachable 1 3 r :=
    .step (.emplace 8 (some 14)) (.step (.emplace 6 (some 12))
      (.step (.emplace 5 (some 11)) .new hok hp) hp6 hq) hq8 hr
  exact ⟨r, hreach, h5, h6, h8, (reachable_actsAsMap hreach).1⟩

def run (p : PacketNumberIndexedQueue T) (ops : List (Op T)) :
    Option (PacketNumberIndexedQueue T) :=
  ops.foldlM step p

/-- A budget truncation inside a gap leaves an absent oldest slot: after out-of-order removals the
queue counts no entry but holds all three slots, and the next insertion is lost. -/
theorem truncation_in_gap_loses_entry :
    ∃ p q : PacketNumberIndexedQueue ℕ,
      (newPacketNumberIndexedQueue 1 3).run [.emplace 1 (some 11), .emplace 3 (some 13),
        .emplace 4 (some 14), .remove 3, .remove 4] = some p ∧
      p.numberOfPresentEntries = 0 ∧ p.entrySlotsUsed = 3 ∧
      p.emplace 10 (some 20) = some (true, q) ∧
      q.getEntry 10 = some none ∧ q.entrySlotsUsed = 4 ∧ q.maxSlots = 3 :=
  ⟨_, _, rfl, rfl, rfl, rfl, rfl, rfl, rfl⟩

end PacketNumberIndexedQueue

end Outbound.Bbr
