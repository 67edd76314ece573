import Mathlib.Data.List.Basic
import Outbound.Shadowsocks2022.Replay

/-! No datagram is accepted twice: a session is never forgotten before the timestamp check refuses
everything the session ever accepted. -/
namespace Outbound.Shadowsocks2022

open Lib Ciphers List Option UdpConn

def Opened.key (d : Opened) : SessionID × BitVec 64 × Int64 :=
  (d.sessionID, d.packetID, d.timestamp)

abbrev Log := List (Opened × ℤ)

abbrev Table := SessionID → Option ℕ

/-- The session is still tracked, its window refuses the identifier, and it was seen at `t` or
later. -/
def Guarded (heap : List UdpSessionReplayState) (table : Table) (d : Opened) (t : ℤ) : Prop :=
  ∃ state s, table d.sessionID = some state ∧ heap[state]? = some s ∧
    s.filter.Spent d.packetID ∧ t ≤ s.lastSeen.toInt

/-- The session state was last seen more than the retention period before `now`. -/
def Overdue (heap : List UdpSessionReplayState) (state : ℕ) (now : ℤ) : Prop :=
  ∃ s, heap[state]? = some s ∧ s.lastSeen.toInt + saltStorageDuration < now

section Lookup

variable {heap : List UdpSessionReplayState} {state v : ℕ} {s r : UdpSessionReplayState} {now later : ℤ}

theorem Overdue.lt (h : Overdue heap state now) (hs : heap[state]? = some s) :
    s.lastSeen.toInt + saltStorageDuration < now := by
  obtain ⟨r, hr, hlt⟩ := h
  exact some.inj (hs.symm.trans hr) ▸ hlt

theorem Overdue.mono (h : Overdue heap state now) (hle : now ≤ later) : Overdue heap state later := by
  obtain ⟨s, hs, hlt⟩ := h
  exact ⟨s, hs, hlt.trans_le hle⟩

theorem lookup_set (s' : UdpSessionReplayState) (hs : heap[state]? = some s) (hr : heap[v]? = some r) :
    (v = state ∧ r = s ∧ (heap.set state s')[v]? = some s') ∨ (heap.set state s')[v]? = some r := by
  by_cases hv : v = state
  · subst hv
    exact .inl ⟨rfl, some.inj (hr.symm.trans hs),
      getElem?_set_self (List.getElem?_eq_some_iff.mp hs).1⟩
  · exact .inr (by rwa [getElem?_set_ne (Ne.symm hv)])

theorem lookup_append (s' : UdpSessionReplayState) (hr : heap[v]? = some r) :
    (heap ++ [s'])[v]? = some r := by
  rwa [getElem?_append_left (List.getElem?_eq_some_iff.mp hr).1]

end Lookup

/-- Entries with the state `value`, and no others, have been deleted. -/
def Deletes (value : ℕ) (table table' : Table) : Prop :=
  ∀ k, table' k = table k ∨ (table k = some value ∧ table' k = none)

namespace Deletes

variable {value v : ℕ} {table table' : Table} {k : SessionID}

section

variable (h : Deletes value table table')

include h

theorem of_some (hk : table k = some v) : table' k = some v ∨ (value = v ∧ table' k = none) := by
  rcases h k with heq | ⟨hsome, hnone⟩
  · exact .inl (heq.trans hk)
  · exact .inr ⟨some.inj (hsome.symm.trans hk), hnone⟩

theorem of_none (hk : table k = none) : table' k = none := by
  rcases h k with heq | ⟨-, hnone⟩
  · exact heq.trans hk
  · exact hnone

theorem to_some (hk : table' k = some v) : table k = some v := by
  rcases h k with heq | ⟨-, hnone⟩
  · exact heq.symm.trans hk
  · cases hk.symm.trans hnone

end

end Deletes

/-- The facts about the shared state that every step keeps. `horizon` bounds the times stored in
it: the reading of the datagram in flight, or else the last reading. -/
structure Base (heap : List UdpSessionReplayState) (table : Table) (sweeps : List Sweep)
    (log : Log) (clock horizon : ℤ) : Prop where
  horizon_nonneg : 0 ≤ horizon
  horizon_le : horizon ≤ clock
  clock_lt : clock < 2 ^ 63
  sound : ∀ s ∈ heap, s.filter.Sound
  seen : ∀ s ∈ heap, 0 ≤ s.lastSeen.toInt ∧ s.lastSeen.toInt ≤ horizon
  table_lt : ∀ k state, table k = some state → state < heap.length
  sweep_time : ∀ w ∈ sweeps, 0 ≤ w.nowNano.toInt ∧ w.nowNano.toInt ≤ horizon
  sweep_pending : ∀ w ∈ sweeps, ∀ k v, w.pending = some (k, v) → Overdue heap v w.nowNano.toInt
  timely : ∀ e ∈ log, timeUnix e.1.timestamp ≤ e.2 + timestampTolerance
  guarded : ∀ e ∈ log, Guarded heap table e.1 e.2 ∨ e.2 + saltStorageDuration < clock
  nodup : (log.map fun e => e.1.key).Nodup

theorem toInt_expireNano : expireNano.toInt = saltStorageDuration := by decide

variable {now : ℤ}

theorem toInt_unixNano (h0 : 0 ≤ now) (h : now < 2 ^ 63) : (unixNano now).toInt = now :=
  Int64.toInt_ofInt_of_le (by omega) (by omega)

theorem expired_iff {a b : Int64} (ha : 0 ≤ a.toInt) (hb : 0 ≤ b.toInt) :
    a - b > expireNano ↔ b.toInt + saltStorageDuration < a.toInt := by
  have := a.toInt_lt
  have := b.toInt_lt
  rw [gt_iff_lt, Int64.lt_iff_toInt_lt, toInt_expireNano, Int64.toInt_sub,
    Int.bmod_eq_of_le (by omega) (by omega)]
  omega

namespace Base

variable {heap : List UdpSessionReplayState} {table : Table} {sweeps : List Sweep} {log : Log}
  {clock horizon : ℤ}

theorem later (h : Base heap table sweeps log clock horizon) {clock' horizon' : ℤ}
    (hc : clock ≤ clock') (hh : horizon ≤ horizon') (hle : horizon' ≤ clock')
    (hlt : clock' < 2 ^ 63) : Base heap table sweeps log clock' horizon' where
  horizon_nonneg := h.horizon_nonneg.trans hh
  horizon_le := hle
  clock_lt := hlt
  __ := h
  seen s hs := ⟨(h.seen s hs).1, (h.seen s hs).2.trans hh⟩
  sweep_time w hw := ⟨(h.sweep_time w hw).1, (h.sweep_time w hw).2.trans hh⟩
  guarded e he := (h.guarded e he).imp_right fun hlt => hlt.trans_le hc

theorem delete (h : Base heap table sweeps log clock horizon) {table' : Table} {value : ℕ}
    (hexp : Overdue heap value clock) (htab : Deletes value table table') :
    Base heap table' sweeps log clock horizon where
  __ := h
  table_lt k state hk := h.table_lt k state (htab.to_some hk)
  guarded e he := by
    rcases h.guarded e he with ⟨state, s, hk, hs, hspent, hseen⟩ | hlt
    · rcases htab.of_some hk with hk' | ⟨rfl, -⟩
      · exact .inl ⟨state, s, hk', hs, hspent, hseen⟩
      · have hlt := hexp.lt hs
        exact .inr (by omega)
    · exact .inr hlt

variable {s : UdpSessionReplayState} (h : Base heap table sweeps log clock horizon)

include h

/-- A session state may be replaced by one that refuses more and was seen later, unless a sweep is
about to delete it. -/
theorem setState {state : ℕ}
    (s' : UdpSessionReplayState) (hs : heap[state]? = some s) (hsound : s'.filter.Sound)
    (hspent : ∀ id, s.filter.Spent id → s'.filter.Spent id)
    (hseen : s.lastSeen.toInt ≤ s'.lastSeen.toInt ∧ s'.lastSeen.toInt ≤ horizon)
    (hpend : s'.lastSeen = s.lastSeen ∨ ∀ w ∈ sweeps, ∀ k, w.pending ≠ some (k, state)) :
    Base (heap.set state s') table sweeps log clock horizon where
  __ := h
  sound r hr := (mem_or_eq_of_mem_set hr).elim (h.sound r) fun heq => heq ▸ hsound
  seen r hr := by
    rcases mem_or_eq_of_mem_set hr with hr | rfl
    · exact h.seen r hr
    · exact ⟨(h.seen s (mem_of_getElem? hs)).1.trans hseen.1, hseen.2⟩
  table_lt k v hk := by
    simpa using h.table_lt k v hk
  sweep_pending w hw k v hwp := by
    obtain ⟨r, hr, hexp⟩ := h.sweep_pending w hw k v hwp
    rcases lookup_set s' hs hr with ⟨rfl, rfl, hset⟩ | hset
    · rcases hpend with heq | hno
      · exact ⟨s', hset, heq ▸ hexp⟩
      · exact absurd hwp (hno w hw k)
    · exact ⟨r, hset, hexp⟩
  guarded e he := by
    refine (h.guarded e he).imp_left ?_
    rintro ⟨v, r, hk, hr, hsp, hle⟩
    rcases lookup_set s' hs hr with ⟨rfl, rfl, hset⟩ | hset
    · exact ⟨v, s', hk, hset, hspent _ hsp, hle.trans hseen.1⟩
    · exact ⟨v, r, hk, hset, hsp, hle⟩

theorem push {key : SessionID} (hkey : table key = none) (hsound : s.filter.Sound)
    (h0 : 0 ≤ s.lastSeen.toInt) (hle : s.lastSeen.toInt ≤ horizon) :
    Base (heap ++ [s]) (fun k => if k = key then some heap.length else table k) sweeps log clock
      horizon where
  __ := h
  sound r hr := by
    rcases mem_append.mp hr with hr | hr
    · exact h.sound r hr
    · rwa [mem_singleton.mp hr]
  seen r hr := by
    rcases mem_append.mp hr with hr | hr
    · exact h.seen r hr
    · rw [mem_singleton.mp hr]
      exact ⟨h0, hle⟩
  table_lt k v hk := by
    rw [length_append, length_singleton]
    split_ifs at hk with heq
    · have := some.inj hk
      omega
    · have := h.table_lt k v hk
      omega
  sweep_pending w hw k v hwp := by
    obtain ⟨r, hr, hexp⟩ := h.sweep_pending w hw k v hwp
    exact ⟨r, lookup_append s hr, hexp⟩
  guarded e he := by
    refine (h.guarded e he).imp_left ?_
    rintro ⟨v, r, hv, hr, hspent, hseen⟩
    have hne : e.1.sessionID ≠ key := by
      rintro rfl
      cases hv.symm.trans hkey
    exact ⟨v, r, (if_neg hne).trans hv, lookup_append s hr, hspent, hseen⟩

theorem withSweeps {sweeps' : List Sweep}
    (hnew : ∀ w ∈ sweeps', w ∈ sweeps ∨ (0 ≤ w.nowNano.toInt ∧ w.nowNano.toInt ≤ horizon ∧
      ∀ k v, w.pending = some (k, v) → Overdue heap v w.nowNano.toInt)) :
    Base heap table sweeps' log clock horizon where
  __ := h
  sweep_time w hw := (hnew w hw).elim (h.sweep_time w) fun hw => ⟨hw.1, hw.2.1⟩
  sweep_pending w hw := (hnew w hw).elim (h.sweep_pending w) fun hw => hw.2.2

theorem accept {d : Opened} {now : ℤ} (hfresh : ∀ e ∈ log, e.1.key ≠ d.key)
    (htimely : timeUnix d.timestamp ≤ now + timestampTolerance)
    (hg : Guarded heap table d now ∨ now + saltStorageDuration < clock) :
    Base heap table sweeps ((d, now) :: log) clock horizon where
  __ := h
  timely := forall_mem_cons.mpr ⟨htimely, h.timely⟩
  guarded := forall_mem_cons.mpr ⟨hg, h.guarded⟩
  nodup := by
    rw [map_cons, nodup_cons]
    exact ⟨by simpa using hfresh, h.nodup⟩

end Base

/-- The datagram in flight passed the timestamp check at its own reading. -/
structure InFlight (clock : ℤ) (d : Opened) (now : ℤ) : Prop where
  nonneg : 0 ≤ now
  le_clock : now ≤ clock
  not_early : now - timestampTolerance ≤ timeUnix d.timestamp
  not_late : timeUnix d.timestamp ≤ now + timestampTolerance

def Fresh (log : Log) (d : Opened) : Prop := ∀ e ∈ log, e.1.key ≠ d.key

/-- If the datagram was accepted before, its session still guards it. -/
def Recognised (heap : List UdpSessionReplayState) (table : Table) (log : Log) (d : Opened) :
    Prop :=
  ∀ e ∈ log, e.1.key = d.key → Guarded heap table e.1 e.2

/-- The state chosen for the datagram carries its time, and refuses it if it was accepted before.
Only an eviction far in the future can have removed it from the table. -/
def Placed (heap : List UdpSessionReplayState) (table : Table) (log : Log) (clock : ℤ)
    (d : Opened) (now : ℤ) (state : ℕ) : Prop :=
  ∃ s, heap[state]? = some s ∧ s.lastSeen.toInt = now ∧
    (table d.sessionID = some state ∨ now + saltStorageDuration < clock) ∧
    (¬ Fresh log d → s.filter.Spent d.packetID)

def Receiver.Ok (heap : List UdpSessionReplayState) (table : Table) (log : Log) (clock : ℤ) :
    Receiver → Prop
  | .idle => True
  | .load d now => InFlight clock d now ∧ Recognised heap table log d
  | .check d now state => InFlight clock d now ∧ Recognised heap table log d ∧
    state < heap.length ∧ (table d.sessionID = some state ∨
      (table d.sessionID = none ∧ Overdue heap state now))
  | .expire d now state => InFlight clock d now ∧ Recognised heap table log d ∧
    Overdue heap state now ∧ (table d.sessionID = some state ∨ table d.sessionID = none)
  | .count d now => InFlight clock d now ∧ Fresh log d ∧ table d.sessionID = none
  | .store d now => InFlight clock d now ∧ Fresh log d ∧ table d.sessionID = none
  | .touch _ _ _ => False
  | .evict d now state => InFlight clock d now ∧ Placed heap table log clock d now state
  | .round d now state nowNano => InFlight clock d now ∧ Placed heap table log clock d now state ∧
    0 ≤ nowNano.toInt ∧ nowNano.toInt ≤ clock
  | .scan d now state nowNano oldest =>
    InFlight clock d now ∧ Placed heap table log clock d now state ∧
    (0 ≤ nowNano.toInt ∧ nowNano.toInt ≤ clock) ∧
    ∀ k v seen, oldest = some (k, v, seen) → Overdue heap v nowNano.toInt
  | .delete d now state nowNano _ value =>
    InFlight clock d now ∧ Placed heap table log clock d now state ∧
    (0 ≤ nowNano.toInt ∧ nowNano.toInt ≤ clock) ∧ Overdue heap value nowNano.toInt
  | .filter d now state => InFlight clock d now ∧ Placed heap table log clock d now state

def Receiver.horizon (clock : ℤ) : Receiver → ℤ
  | .idle => clock
  | .load _ now | .check _ now _ | .expire _ now _ | .count _ now | .store _ now | .touch _ now _
  | .evict _ now _ | .round _ now _ _ | .scan _ now _ _ _ | .delete _ now _ _ _ _
  | .filter _ now _ => now

structure Inv (c : UdpConn) (log : Log) (clock : ℤ) : Prop where
  base : Base c.heap c.replayWindow c.sweeps log clock (c.receiver.horizon clock)
  recv : c.receiver.Ok c.heap c.replayWindow log clock

/-- A datagram in flight that was accepted before is at most the retention period old. -/
theorem InFlight.recent {clock t : ℤ} {d d' : Opened} (h : InFlight clock d now)
    (hkey : d'.key = d.key) (ht : timeUnix d'.timestamp ≤ t + timestampTolerance) :
    now ≤ t + saltStorageDuration := by
  have hts : d'.timestamp = d.timestamp := congrArg (fun k => k.2.2) hkey
  have h1 := h.not_early
  rw [hts] at ht
  simp only [timestampTolerance, saltStorageDuration] at *
  omega

section Delete

variable {heap : List UdpSessionReplayState} {table table' : Table} {log : Log} {clock : ℤ}
  {d : Opened} {value state : ℕ}

theorem Recognised.delete (h : Recognised heap table log d) (hd : InFlight clock d now)
    (htimely : ∀ e ∈ log, timeUnix e.1.timestamp ≤ e.2 + timestampTolerance)
    (hexp : Overdue heap value now) (htab : Deletes value table table') :
    Recognised heap table' log d := by
  intro e he hkey
  obtain ⟨v, s, hv, hs, hspent, hseen⟩ := h e he hkey
  rcases htab.of_some hv with hv' | ⟨rfl, -⟩
  · exact ⟨v, s, hv', hs, hspent, hseen⟩
  · have hlt := hexp.lt hs
    have hrecent := hd.recent hkey (htimely e he)
    omega

theorem Recognised.fresh (h : Recognised heap table log d) (hd : InFlight clock d now)
    (htimely : ∀ e ∈ log, timeUnix e.1.timestamp ≤ e.2 + timestampTolerance)
    (htab : table d.sessionID = none ∨
      ∃ state, table d.sessionID = some state ∧ Overdue heap state now) : Fresh log d := by
  intro e he hkey
  obtain ⟨v, s, hv, hs, hspent, hseen⟩ := h e he hkey
  have hsid : e.1.sessionID = d.sessionID := congrArg Prod.fst hkey
  rw [hsid] at hv
  rcases htab with hnone | ⟨state, hsome, hover⟩
  · cases hv.symm.trans hnone
  · obtain rfl := some.inj (hsome.symm.trans hv)
    have hlt := hover.lt hs
    have hrecent := hd.recent hkey (htimely e he)
    omega

theorem Placed.delete (h : Placed heap table log clock d now state) {bound : ℤ}
    (hexp : Overdue heap value bound) (hbound : bound ≤ clock) (htab : Deletes value table table') :
    Placed heap table' log clock d now state := by
  obtain ⟨s, hs, hseen, hin, hspent⟩ := h
  refine ⟨s, hs, hseen, hin.elim (fun hin => ?_) .inr, hspent⟩
  rcases htab.of_some hin with hin' | ⟨rfl, -⟩
  · exact .inl hin'
  · have hlt := hexp.lt hs
    exact .inr (by omega)

end Delete

namespace UdpConn

variable (c : UdpConn) (key : SessionID) (value : ℕ)

@[simp] theorem heap_compareAndDelete : (c.compareAndDelete key value).heap = c.heap := by
  unfold compareAndDelete
  split_ifs <;> rfl

@[simp] theorem sweeps_compareAndDelete : (c.compareAndDelete key value).sweeps = c.sweeps := by
  unfold compareAndDelete
  split_ifs <;> rfl

@[simp] theorem receiver_compareAndDelete :
    (c.compareAndDelete key value).receiver = c.receiver := by
  unfold compareAndDelete
  split_ifs <;> rfl

theorem replayWindow_compareAndDelete :
    Deletes value c.replayWindow (c.compareAndDelete key value).replayWindow := by
  intro k
  unfold compareAndDelete
  split_ifs with hin
  · by_cases hk : k = key
    · subst hk
      exact .inr ⟨hin, by simp⟩
    · exact .inl (by simp [hk])
  · exact .inl rfl

variable {s : UdpSessionReplayState}

theorem lastSeen_eq {c : UdpConn} {state : ℕ}
    (hs : c.heap[state]? = some s) : c.lastSeen state = s.lastSeen := by
  rw [lastSeen, hs]
  rfl

theorem heap_storeLastSeen {c : UdpConn} {state : ℕ}
    (hs : c.heap[state]? = some s) (nowNano : Int64) :
    (c.storeLastSeen state nowNano).heap = c.heap.set state { s with lastSeen := nowNano } := by
  rw [storeLastSeen, modify_eq_set_getElem?, hs]
  rfl

end UdpConn

def Outcome.log : Option Outcome → Log
  | some (.accepted d now) => [(d, now)]
  | _ => []

variable {log : Log} {c : UdpConn}

theorem Inv.phase {clock : ℤ} (h : Inv c log clock) {r : Receiver} (hr : c.receiver = r) :
    Base c.heap c.replayWindow c.sweeps log clock (r.horizon clock) ∧
      r.Ok c.heap c.replayWindow log clock := hr ▸ ⟨h.base, h.recv⟩

theorem InFlight.toInt_unixNano {clock : ℤ} {d : Opened} (h : InFlight clock d now)
    (hlt : clock < 2 ^ 63) : (unixNano now).toInt = now :=
  Shadowsocks2022.toInt_unixNano h.nonneg (h.le_clock.trans_lt hlt)

theorem Base.compareAndDelete {clock horizon : ℤ} {value : ℕ}
    (h : Base c.heap c.replayWindow c.sweeps log clock horizon) (key : SessionID)
    (hover : Overdue c.heap value clock) :
    Base (c.compareAndDelete key value).heap (c.compareAndDelete key value).replayWindow
      (c.compareAndDelete key value).sweeps log clock horizon := by
  simpa using h.delete hover (c.replayWindow_compareAndDelete key value)

section Advance

variable {c' : UdpConn} {clock : ℤ} {d : Opened} {state : ℕ} {out : Option Outcome}
  (h : Inv c log clock)
include h

theorem inv_check (hr : c.receiver = .check d now state) (hstep : c.advance = some (out, c')) :
    Inv c' (Outcome.log out ++ log) clock := by
  obtain ⟨hb, hd, hrec, hlt, htab⟩ := h.phase hr
  have hnow := hd.toInt_unixNano hb.clock_lt
  obtain ⟨s, hs⟩ : ∃ s, c.heap[state]? = some s := ⟨_, getElem?_eq_getElem hlt⟩
  have hseen := hb.seen s (mem_of_getElem? hs)
  unfold advance at hstep
  simp only [hr, lastSeen_eq hs] at hstep
  have hiff := expired_iff (show 0 ≤ (unixNano now).toInt by rw [hnow]; exact hd.nonneg) hseen.1
  rw [hnow] at hiff
  split_ifs at hstep with hexp
  · cases hstep
    exact ⟨hb, hd, hrec, ⟨s, hs, hiff.mp hexp⟩, htab.imp_right And.left⟩
  · cases hstep
    have hlive : ∀ t ≤ now, ¬ Overdue c.heap state t :=
      fun t ht hover => hexp (hiff.mpr ((hover.lt hs).trans_le ht))
    have hin := htab.resolve_right fun hgone => hlive now le_rfl hgone.2
    have hpend : ∀ w ∈ c.sweeps, ∀ k, w.pending ≠ some (k, state) := by
      intro w hw k hpk
      exact hlive _ (hb.sweep_time w hw).2 (hb.sweep_pending w hw k state hpk)
    have hset := hb.setState { s with lastSeen := unixNano now } hs
      (hb.sound s (mem_of_getElem? hs)) (fun _ => id)
      ⟨by rw [hnow]; exact hseen.2, hnow.le⟩ (.inr hpend)
    rw [← heap_storeLastSeen hs] at hset
    refine ⟨hset, hd, { s with lastSeen := unixNano now }, ?_, hnow, .inl hin, fun hnf => ?_⟩
    · change (c.storeLastSeen state _).heap[state]? = _
      rw [heap_storeLastSeen hs]
      exact getElem?_set_self hlt
    · unfold Fresh at hnf
      push Not at hnf
      obtain ⟨e, he, hkey⟩ := hnf
      obtain ⟨v, r, hv, hrs, hspent, -⟩ := hrec e he hkey
      have hsid : e.1.sessionID = d.sessionID := congrArg Prod.fst hkey
      have hpid : e.1.packetID = d.packetID := congrArg (fun k => k.2.1) hkey
      obtain rfl := some.inj ((hsid ▸ hv).symm.trans hin)
      obtain rfl := some.inj (hrs.symm.trans hs)
      exact hpid ▸ hspent

theorem inv_filter (hr : c.receiver = .filter d now state) (hstep : c.advance = some (out, c')) :
    Inv c' (Outcome.log out ++ log) clock := by
  obtain ⟨hb, hd, s, hs, hseen, hin, hspent⟩ := h.phase hr
  have hsound := hb.sound s (mem_of_getElem? hs)
  have hlt := (List.getElem?_eq_some_iff.mp hs).1
  unfold advance at hstep
  simp only [hr, hs] at hstep
  cases hstep
  have hset := (hb.setState { s with filter := (s.filter.checkAndUpdate d.packetID).2 } hs
    (hsound.checkAndUpdate _) (fun _ hsp => hsp.checkAndUpdate _)
    ⟨le_rfl, (hb.seen s (mem_of_getElem? hs)).2⟩ (.inl rfl)).later le_rfl hd.le_clock le_rfl
    hb.clock_lt
  cases hans : (s.filter.checkAndUpdate d.packetID).1 with
  | false => exact ⟨hset, trivial⟩
  | true =>
    have hfresh : Fresh log d := by
      by_contra hnf
      rw [(hspent hnf).refused] at hans
      simp at hans
    refine ⟨hset.accept hfresh hd.not_late (hin.imp_left fun hin => ?_), trivial⟩
    exact ⟨state, _, hin, getElem?_set_self hlt, hsound.spent_of_accepted _ hans, hseen.ge⟩

theorem inv_advance (hstep : c.advance = some (out, c')) : Inv c' (Outcome.log out ++ log) clock := by
  cases hr : c.receiver with
  | load d now =>
    obtain ⟨hb, hd, hrec⟩ := h.phase hr
    unfold advance at hstep
    simp only [hr] at hstep
    cases htab : c.replayWindow d.sessionID with
    | some st =>
      simp only [htab] at hstep
      cases hstep
      exact ⟨hb, hd, hrec, hb.table_lt _ _ htab, .inl htab⟩
    | none =>
      simp only [htab] at hstep
      cases hstep
      exact ⟨hb, hd, hrec.fresh hd hb.timely (.inl htab), htab⟩
  | check d now state => exact inv_check h hr hstep
  | expire d now state =>
    obtain ⟨hb, hd, hrec, hover, htab⟩ := h.phase hr
    unfold advance at hstep
    simp only [hr] at hstep
    cases hstep
    refine ⟨hb.compareAndDelete _ (hover.mono hd.le_clock), hd,
      hrec.fresh hd hb.timely (htab.symm.imp_right fun hsome => ⟨state, hsome, hover⟩), ?_⟩
    change (c.compareAndDelete d.sessionID state).replayWindow d.sessionID = none
    unfold compareAndDelete
    split_ifs with hin
    · simp
    · exact htab.resolve_left hin
  | count d now =>
    obtain ⟨hb, hok⟩ := h.phase hr
    have hnow := hok.1.toInt_unixNano hb.clock_lt
    unfold advance at hstep
    simp only [hr] at hstep
    cases hstep
    refine ⟨hb.withSweeps ?_, hok⟩
    intro w hw
    split_ifs at hw
    · rcases mem_append.mp hw with hw | hw
      · exact .inl hw
      · rw [mem_singleton.mp hw]
        exact .inr ⟨hok.1.nonneg.trans_eq hnow.symm, hnow.le, by simp⟩
    · exact .inl hw
  | store d now =>
    obtain ⟨hb, hd, hfresh, htab⟩ := h.phase hr
    have hnow := hd.toInt_unixNano hb.clock_lt
    unfold advance at hstep
    simp only [hr, htab] at hstep
    cases hstep
    refine ⟨hb.push htab (SlidingWindowFilter.sound_new _ (by decide)) (hd.nonneg.trans_eq hnow.symm)
      hnow.le, hd, _, getElem?_concat_length, hnow, .inl (if_pos rfl), ?_⟩
    exact fun hnf => absurd hfresh hnf
  | touch d now state => exact (h.phase hr).2.elim
  | round d now state nowNano =>
    obtain ⟨hb, hd, hplaced, hn⟩ := h.phase hr
    unfold advance at hstep
    simp only [hr] at hstep
    split_ifs at hstep
    · cases hstep
      exact ⟨hb, hd, hplaced, hn, by simp⟩
    · cases hstep
      exact ⟨hb, hd, hplaced⟩
  | delete d now state nowNano key value =>
    obtain ⟨hb, hd, hplaced, hn, hover⟩ := h.phase hr
    unfold advance at hstep
    simp only [hr] at hstep
    cases hstep
    refine ⟨hb.compareAndDelete key (hover.mono hn.2), hd, ?_, hn⟩
    change Placed (c.compareAndDelete key value).heap _ log clock d now state
    simpa using hplaced.delete hover hn.2 (c.replayWindow_compareAndDelete _ _)
  | filter d now state => exact inv_filter h hr hstep
  | _ => simp [advance, hr] at hstep

end Advance

theorem Receiver.Ok.delete {heap : List UdpSessionReplayState} {table table' : Table}
    {clock : ℤ} {value : ℕ} {r : Receiver} (h : r.Ok heap table log clock)
    (htimely : ∀ e ∈ log, timeUnix e.1.timestamp ≤ e.2 + timestampTolerance)
    (hexp : Overdue heap value (r.horizon clock)) (htab : Deletes value table table') :
    r.Ok heap table' log clock := by
  cases r with
  | idle => exact trivial
  | load d now => exact ⟨h.1, h.2.delete h.1 htimely hexp htab⟩
  | check d now state =>
    refine ⟨h.1, h.2.1.delete h.1 htimely hexp htab, h.2.2.1, ?_⟩
    rcases h.2.2.2 with hin | ⟨hout, hover⟩
    · rcases htab.of_some hin with hin' | ⟨rfl, hout⟩
      · exact .inl hin'
      · exact .inr ⟨hout, hexp⟩
    · exact .inr ⟨htab.of_none hout, hover⟩
  | expire d now state =>
    refine ⟨h.1, h.2.1.delete h.1 htimely hexp htab, h.2.2.1, ?_⟩
    rcases h.2.2.2 with hin | hout
    · exact (htab.of_some hin).imp_right And.right
    · exact .inr (htab.of_none hout)
  | count d now => exact ⟨h.1, h.2.1, htab.of_none h.2.2⟩
  | store d now => exact ⟨h.1, h.2.1, htab.of_none h.2.2⟩
  | touch d now state => exact h
  | evict d now state => exact ⟨h.1, h.2.delete hexp h.1.le_clock htab⟩
  | filter d now state => exact ⟨h.1, h.2.delete hexp h.1.le_clock htab⟩
  | _ => exact ⟨h.1, h.2.1.delete hexp h.1.le_clock htab, h.2.2⟩

section Events

variable {core : Core} {c' : UdpConn} {clock : ℤ} {out : Option Outcome}

theorem inv_receive (h : Inv c log clock) {buf : Bytes} {now : ℤ} (hc : clock ≤ now)
    (hlt : now < 2 ^ 63) (hstep : c.step core (.receive buf now) = some (out, c')) :
    Inv c' (Outcome.log out ++ log) now := by
  cases hr : c.receiver with
  | idle =>
    have hb := (h.phase hr).1
    have hb' := hb.later hc hc le_rfl hlt
    unfold step at hstep
    simp only [hr] at hstep
    cases hopen : (openPacket core c.decryptCiphers buf now).1 with
    | error err =>
      simp only [hopen] at hstep
      cases hstep
      exact ⟨hb', trivial⟩
    | ok d =>
      simp only [hopen] at hstep
      cases hstep
      obtain ⟨hearly, hlate⟩ := openPacket_timely hopen
      have hd : InFlight now d now := ⟨hb.horizon_nonneg.trans hc, le_rfl, hearly, hlate⟩
      refine ⟨hb', hd, ?_⟩
      intro e he hkey
      have hrecent := hd.recent hkey (hb.timely e he)
      exact (hb.guarded e he).resolve_right (by omega)
  | _ => simp [step, hr] at hstep

variable {key : SessionID}

theorem scanVisit_overdue {nowNano : Int64} {oldest : Oldest}
    (hseen : ∀ s ∈ c.heap, 0 ≤ s.lastSeen.toInt)
    (htab : ∀ k state, c.replayWindow k = some state → state < c.heap.length)
    (hn : 0 ≤ nowNano.toInt)
    (hold : ∀ k v seen, oldest = some (k, v, seen) → Overdue c.heap v nowNano.toInt) :
    ∀ k v seen, c.scanVisit nowNano oldest key = some (k, v, seen) →
      Overdue c.heap v nowNano.toInt := by
  intro k v seen hvisit
  unfold scanVisit at hvisit
  cases hkey : c.replayWindow key with
  | none =>
    simp only [hkey] at hvisit
    exact hold k v seen hvisit
  | some value =>
    obtain ⟨s, hs⟩ : ∃ s, c.heap[value]? = some s := ⟨_, getElem?_eq_getElem (htab key value hkey)⟩
    simp only [hkey, lastSeen_eq hs] at hvisit
    split_ifs at hvisit with hkeep
    · exact hold k v seen hvisit
    · have hover : Overdue c.heap value nowNano.toInt := by
        refine ⟨s, hs, (expired_iff hn (hseen s (mem_of_getElem? hs))).mp ?_⟩
        rwa [gt_iff_lt, ← Int64.not_le]
      cases oldest with
      | none =>
        simp only [some.injEq, Prod.mk.injEq] at hvisit
        exact hvisit.2.1 ▸ hover
      | some o =>
        dsimp only at hvisit
        split_ifs at hvisit
        · simp only [some.injEq, Prod.mk.injEq] at hvisit
          exact hvisit.2.1 ▸ hover
        · exact hold k v seen hvisit

theorem inv_sweepKey (h : Inv c log clock) {i : ℕ}
    (hstep : c.step core (.sweepKey i key) = some (out, c')) :
    Inv c' (Outcome.log out ++ log) clock := by
  have hb := h.base
  unfold step at hstep
  dsimp only at hstep
  split at hstep
  · next nowNano hw =>
    cases hstep
    obtain ⟨h0, hle⟩ := hb.sweep_time _ (mem_of_getElem? hw)
    refine ⟨hb.withSweeps ?_, h.recv⟩
    intro w hmem
    rcases mem_or_eq_of_mem_set hmem with hmem | rfl
    · exact .inl hmem
    refine .inr ⟨h0, hle, ?_⟩
    intro k v hpend
    unfold sweepVisit at hpend
    cases hkey : c.replayWindow key with
    | none => simp [hkey] at hpend
    | some value =>
      obtain ⟨s, hs⟩ : ∃ s, c.heap[value]? = some s :=
        ⟨_, getElem?_eq_getElem (hb.table_lt key value hkey)⟩
      simp only [hkey, lastSeen_eq hs] at hpend
      split_ifs at hpend with hexp
      cases hpend
      exact ⟨s, hs, (expired_iff h0 (hb.seen s (mem_of_getElem? hs)).1).mp hexp⟩
  · simp at hstep

theorem inv_sweepDelete (h : Inv c log clock) {i : ℕ}
    (hstep : c.step core (.sweepDelete i) = some (out, c')) :
    Inv c' (Outcome.log out ++ log) clock := by
  have hb := h.base
  unfold step at hstep
  dsimp only at hstep
  split at hstep
  · next nowNano key value hw =>
    cases hstep
    have hmem := mem_of_getElem? hw
    obtain ⟨h0, hle⟩ := hb.sweep_time _ hmem
    have hover := (hb.sweep_pending _ hmem key value rfl).mono hle
    have hdeleted := hb.compareAndDelete key (hover.mono hb.horizon_le)
    rw [← c.receiver_compareAndDelete key value] at hdeleted hle
    constructor
    · refine hdeleted.withSweeps ?_
      intro w hw'
      rcases mem_or_eq_of_mem_set hw' with hw' | rfl
      · simpa using .inl hw'
      · exact .inr ⟨h0, hle, by simp⟩
    · change (c.compareAndDelete key value).receiver.Ok (c.compareAndDelete key value).heap _ log clock
      simpa using h.recv.delete hb.timely hover (c.replayWindow_compareAndDelete key value)
  · simp at hstep

end Events

def Event.clock (clock : ℤ) (e : Event) : ℤ := e.reading.getD clock

variable {core : Core}

theorem inv_step {c' : UdpConn} {clock : ℤ} {out : Option Outcome} (h : Inv c log clock) (e : Event)
    (hclock : ∀ r, e.reading = some r → clock ≤ r ∧ r < 2 ^ 63)
    (hstep : c.step core e = some (out, c')) : Inv c' (Outcome.log out ++ log) (e.clock clock) := by
  cases e with
  | receive buf now =>
    obtain ⟨hc, hlt⟩ := hclock now rfl
    exact inv_receive h hc hlt hstep
  | advance => exact inv_advance h hstep
  | evictClock now =>
    obtain ⟨hc, hlt⟩ := hclock now rfl
    cases hr : c.receiver with
    | evict d t state =>
      obtain ⟨hb, hd, s, hs, hseen, hin, hspent⟩ := h.phase hr
      unfold step at hstep
      simp only [hr] at hstep
      cases hstep
      have hd' : InFlight now d t := ⟨hd.nonneg, hd.le_clock.trans hc, hd.not_early, hd.not_late⟩
      have hpos := hd'.nonneg.trans hd'.le_clock
      have hnow := toInt_unixNano hpos hlt
      exact ⟨hb.later hc le_rfl hd'.le_clock hlt, hd',
        ⟨s, hs, hseen, hin.imp_right fun hl => hl.trans_le hc, hspent⟩, hpos.trans_eq hnow.symm, hnow.le⟩
    | _ => simp [step, hr] at hstep
  | scanKey key =>
    cases hr : c.receiver with
    | scan d now state nowNano oldest =>
      obtain ⟨hb, hd, hplaced, hn, hold⟩ := h.phase hr
      unfold step at hstep
      simp only [hr] at hstep
      cases hstep
      exact ⟨hb, hd, hplaced, hn,
        scanVisit_overdue (fun s hs => (hb.seen s hs).1) hb.table_lt hn.1 hold⟩
    | _ => simp [step, hr] at hstep
  | scanEnd =>
    cases hr : c.receiver with
    | scan d now state nowNano oldest =>
      obtain ⟨hb, hd, hplaced, hn, hold⟩ := h.phase hr
      unfold step at hstep
      cases oldest with
      | none =>
        simp only [hr] at hstep
        cases hstep
        exact ⟨hb, hd, hplaced⟩
      | some o =>
        obtain ⟨k, v, seen⟩ := o
        simp only [hr] at hstep
        cases hstep
        exact ⟨hb, hd, hplaced, hn, hold k v seen rfl⟩
    | _ => simp [step, hr] at hstep
  | sweepKey i key => exact inv_sweepKey h hstep
  | sweepDelete i => exact inv_sweepDelete h hstep

theorem inv_new : Inv newUdpConn [] 0 where
  base := by
    constructor <;> simp [newUdpConn, Receiver.horizon]
  recv := trivial

def UdpConn.run (core : Core) : UdpConn → List Event → Option (List Outcome × UdpConn)
  | c, [] => some ([], c)
  | c, e :: es => do
    let (out, c') ← c.step core e
    let (outs, c'') ← run core c' es
    some (out.toList ++ outs, c'')

def Outcome.acceptedKey : Outcome → Option (SessionID × BitVec 64 × Int64)
  | .accepted d _ => some d.key
  | .rejected _ => none

theorem inv_run {c' : UdpConn} {clock : ℤ} {events : List Event}
    {outs : List Outcome} (h : Inv c log clock) (hrun : c.run core events = some (outs, c'))
    (hmono : (clock :: events.filterMap Event.reading).Pairwise (· ≤ ·))
    (hlt : ∀ r ∈ events.filterMap Event.reading, r < 2 ^ 63) :
    ∃ log' clock', Inv c' log' clock' ∧
      (log'.map fun e => e.1.key).Perm
        (outs.filterMap Outcome.acceptedKey ++ log.map fun e => e.1.key) := by
  induction events generalizing c log clock outs with
  | nil =>
    obtain ⟨rfl, rfl⟩ := hrun
    exact ⟨log, clock, h, .refl _⟩
  | cons e es ih =>
    obtain ⟨⟨out, c₁⟩, hstep, hrun⟩ := bind_eq_some_iff.mp hrun
    obtain ⟨⟨outs₁, c₂⟩, hrest, hrun⟩ := bind_eq_some_iff.mp hrun
    cases hrun
    have hinv : Inv c₁ (Outcome.log out ++ log) (e.clock clock) := by
      refine inv_step h e ?_ hstep
      intro r hr
      rw [filterMap_cons_some hr] at hmono hlt
      exact ⟨rel_of_pairwise_cons hmono mem_cons_self, hlt r mem_cons_self⟩
    have hmono' : (e.clock clock :: es.filterMap Event.reading).Pairwise (· ≤ ·) := by
      unfold Event.clock
      cases hr : e.reading with
      | none =>
        rwa [filterMap_cons_none hr] at hmono
      | some r =>
        rw [filterMap_cons_some hr] at hmono
        exact List.Pairwise.of_cons hmono
    have hlt' : ∀ r ∈ es.filterMap Event.reading, r < 2 ^ 63 := by
      intro r hr
      obtain ⟨x, hx, hxr⟩ := mem_filterMap.mp hr
      exact hlt r (mem_filterMap.mpr ⟨x, mem_cons_of_mem _ hx, hxr⟩)
    obtain ⟨log', clock', hend, hperm⟩ := ih hinv hrest hmono' hlt'
    refine ⟨log', clock', hend, hperm.trans ?_⟩
    rcases out with _ | (⟨d, now⟩ | err)
    · exact .refl _
    · simp only [Outcome.log, map_cons, toList_some, filterMap_cons,
        Outcome.acceptedKey, cons_append]
      exact perm_middle
    · exact .refl _

theorem advance_rejected {c' : UdpConn} {err : Error}
    (hstep : c.advance = some (some (.rejected err), c')) : err = .sentinel .replayAttack := by
  cases hr : c.receiver with
  | filter d now state =>
    unfold advance at hstep
    simp only [hr] at hstep
    split at hstep
    · simp at hstep
    · simp only [some.injEq, Prod.mk.injEq] at hstep
      split_ifs at hstep
      · simp at hstep
      · simpa using hstep.1.symm
  | _ =>
    unfold advance at hstep
    simp only [hr] at hstep
    repeat' split at hstep
    all_goals simp at hstep

/-- In every interleaving of one receiver with any number of cleanup sweeps and with the eviction,
for non-decreasing clock readings: no datagram is accepted twice, and one that does not decode
changes no session's window or last-seen time. -/
theorem no_datagram_accepted_twice (core : Core) (events : List Event) (outs : List Outcome)
    (c : UdpConn) (hrun : newUdpConn.run core events = some (outs, c))
    (hmono : (events.filterMap Event.reading).Pairwise (· ≤ ·))
    (hrange : ∀ r ∈ events.filterMap Event.reading, 0 ≤ r ∧ r < 2 ^ 63) :
    (outs.filterMap Outcome.acceptedKey).Nodup ∧
      (∀ buf now err, c.receiver = .idle →
        (openPacket core c.decryptCiphers buf now).1 = .error err →
        ∃ c', c.step core (.receive buf now) = some (some (.rejected err), c') ∧
          c'.heap = c.heap ∧ c'.replayWindow = c.replayWindow ∧ c'.receiver = .idle) ∧
      (∀ c' err, c.advance = some (some (.rejected err), c') → err = .sentinel .replayAttack) := by
  refine ⟨?_, fun buf now err hr herr => ?_, fun _ _ => advance_rejected⟩
  swap
  · unfold step
    simp only [hr, herr]
    exact ⟨_, rfl, rfl, rfl, rfl⟩
  have hstart : ((0 : ℤ) :: events.filterMap Event.reading).Pairwise (· ≤ ·) :=
    pairwise_cons.mpr ⟨fun r hr => (hrange r hr).1, hmono⟩
  obtain ⟨log, clock, hinv, hperm⟩ := inv_run inv_new hrun hstart fun r hr => (hrange r hr).2
  have hnodup := hperm.nodup_iff.mp hinv.base.nodup
  simpa using hnodup

/-- Packet 1 of session zero, stamped with the epoch, from 127.0.0.1:53 with one byte. -/
def framedDatagram : Bytes :=
  replicate 24 0 ++ Aead.lengthFraming.sealText []
    (replicate 15 0 ++ [1] ++ [1] ++ replicate 18 0 ++ [1, 127, 0, 0, 1, 0, 53] ++ [42])

/-- The datagram arrives, is accepted into a new session, and arrives again a second later. -/
def replayedArrival : List Event :=
  [.receive framedDatagram 0, .advance, .advance, .advance, .evictClock 0, .advance, .advance,
    .receive framedDatagram second, .advance, .advance, .advance]

theorem no_datagram_accepted_twice_replayed :
    ∃ outs c, newUdpConn.run (framingCore false) replayedArrival = some (outs, c) ∧
      outs.length = 2 ∧ (outs.filterMap Outcome.acceptedKey).length = 1 ∧
      (outs.filterMap Outcome.acceptedKey).Nodup := by
  obtain ⟨outs, c, hrun, hlen, hacc⟩ : ∃ outs c,
      newUdpConn.run (framingCore false) replayedArrival = some (outs, c) ∧
        outs.length = 2 ∧ (outs.filterMap Outcome.acceptedKey).length = 1 := ⟨_, _, rfl, rfl, rfl⟩
  exact ⟨outs, c, hrun, hlen, hacc,
    (no_datagram_accepted_twice (framingCore false) _ outs c hrun (by decide) (by decide)).1⟩

end Outbound.Shadowsocks2022
