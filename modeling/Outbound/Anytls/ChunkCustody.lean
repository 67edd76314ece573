import Mathlib.Data.List.Nodup
import Mathlib.Data.List.Range
import Outbound.Lib.Mutex

/-! The receiving half of a stream as far as its chunks go: one hand puts chunks in at the back, the
holder of the read lock takes them out at the front, for a reader or to throw them away. -/
namespace Outbound.Anytls

open Lib List Function

structure Chunk where
  id : ℕ
  len : ℕ
deriving DecidableEq

/-- How far the one call of `enqueue` has come: it has looked its stream up, is inside its lock, has
seen the stream not closed, and has seen the session not done. -/
inductive Enqueue where
  | idle
  | looked (c : Chunk)
  | inside (c : Chunk)
  | opened (c : Chunk)
  | live (c : Chunk)
deriving DecidableEq

namespace Enqueue

def chunk : Enqueue → List Chunk
  | idle => []
  | looked c => [c]
  | inside c => [c]
  | opened c => [c]
  | live c => [c]

def locked : Enqueue → Bool
  | idle => false
  | looked _ => false
  | inside _ => true
  | opened _ => true
  | live _ => true

def admitted : Enqueue → Bool
  | idle => false
  | looked _ => false
  | inside _ => false
  | opened _ => true
  | live _ => true

theorem admitted_of_locked {e : Enqueue} (h : e.locked = false) : e.admitted = false := by
  cases e <;> first | rfl | cases h

end Enqueue

/-- What a call is to the chunks: a reader or a drainer with the lock, or a drainer before it. -/
inductive ReadRole where
  | out
  | reading
  | past
  | draining
deriving DecidableEq

def ReadRole.Locks (r : ReadRole) : Prop := r = .reading ∨ r = .draining

def ReadRole.Drains (r : ReadRole) : Prop := r = .past ∨ r = .draining

/-- The chunks of a stream and where they are; those received are numbered in their order. -/
structure Custody where
  closed : Bool
  done : Bool
  readMutex : Option ℕ
  role : ℕ → ReadRole
  enq : Enqueue
  inbound : List Chunk
  readBuf : Option Chunk
  received : ℕ
  returned : List ℕ
  delivered : List ℕ
  dropped : List ℕ
  drained : Bool

namespace Custody

def queued (k : Custody) : List ℕ := (k.readBuf.toList ++ k.inbound).map Chunk.id

def passed (k : Custody) : List ℕ := k.delivered ++ k.dropped ++ k.queued

def inHand (k : Custody) : List ℕ := k.enq.chunk.map Chunk.id

def setRole (k : Custody) (t : ℕ) (r : ReadRole) : Custody :=
  { k with role := update k.role t r }

theorem setRole_same (k : Custody) (t : ℕ) {r : ReadRole} (h : k.role t = r) :
    k.setRole t r = k := by
  simp [setRole, ← h]

def Sealed (k : Custody) : Prop := k.closed = true ∧ k.enq.admitted = false

inductive Moves (k : Custody) : Custody → Prop
  | stay : Moves k k
  | mark : Moves k { k with closed := true }
  | finish : Moves k { k with done := true }
  | barrier (t : ℕ) (hclosed : k.closed = true) (hfree : k.enq.locked = false)
      (hrole : k.role t = .out) :
      Moves k (k.setRole t .past)
  | lockReader (t : ℕ) (hfree : k.readMutex = none) (hrole : k.role t = .out) :
      Moves k ({ k with readMutex := some t }.setRole t .reading)
  | lockDrainer (t : ℕ) (hfree : k.readMutex = none) (hrole : k.role t = .past) :
      Moves k ({ k with readMutex := some t }.setRole t .draining)
  | unlock (t : ℕ) (hrole : k.role t = .reading) :
      Moves k ({ k with readMutex := none }.setRole t .out)
  | take (t : ℕ) (c : Chunk) (rest : List Chunk) (hrole : k.role t = .reading)
      (hbuf : k.readBuf = none) (hin : k.inbound = c :: rest) :
      Moves k { k with readBuf := some c, inbound := rest }
  | copy (t : ℕ) (c : Chunk) (len : ℕ) (hrole : k.role t = .reading) (hbuf : k.readBuf = some c) :
      Moves k { k with readBuf := some { c with len := len } }
  | deliver (t : ℕ) (c : Chunk) (hrole : k.role t = .reading) (hbuf : k.readBuf = some c) :
      Moves k { k with
        readBuf := none, returned := k.returned ++ [c.id], delivered := k.delivered ++ [c.id] }
  | dropBuf (t : ℕ) (c : Chunk) (hrole : k.role t = .draining) (hbuf : k.readBuf = some c) :
      Moves k { k with
        readBuf := none, returned := k.returned ++ [c.id], dropped := k.dropped ++ [c.id] }
  | dropHead (t : ℕ) (c : Chunk) (rest : List Chunk) (hrole : k.role t = .draining)
      (hbuf : k.readBuf = none) (hin : k.inbound = c :: rest) :
      Moves k { k with
        inbound := rest, returned := k.returned ++ [c.id], dropped := k.dropped ++ [c.id] }
  | drain (t : ℕ) (hrole : k.role t = .draining) (hbuf : k.readBuf = none) (hin : k.inbound = []) :
      Moves k ({ k with readMutex := none, drained := true }.setRole t .out)
  | refuse (hover : k.closed = true ∨ k.done = true) (hidle : k.enq = .idle) :
      Moves k { k with received := k.received + 1, returned := k.returned ++ [k.received] }
  | look (len : ℕ) (hidle : k.enq = .idle) :
      Moves k { k with received := k.received + 1, enq := .looked ⟨k.received, len⟩ }
  | enter (c : Chunk) (henq : k.enq = .looked c) : Moves k { k with enq := .inside c }
  | accept (c : Chunk) (henq : k.enq = .inside c) (hopen : k.closed = false) :
      Moves k { k with enq := .opened c }
  | live (c : Chunk) (henq : k.enq = .opened c) (hlive : k.done = false) :
      Moves k { k with enq := .live c }
  | push (c : Chunk) (henq : k.enq = .live c) :
      Moves k { k with enq := .idle, inbound := k.inbound ++ [c] }
  | reject (c : Chunk) (henq : k.enq.chunk = [c]) (hover : k.closed = true ∨ k.done = true) :
      Moves k { k with enq := .idle, returned := k.returned ++ [c.id] }

/-- The chunk in hand is the last received one, and the next to be put in unless one was refused
before: then the stream is closed or the session done, and it will be refused as well. -/
def Fresh (k : Custody) : Prop :=
  match k.enq with
  | .idle => k.received = k.passed.length ∨ k.closed = true ∨ k.done = true
  | .looked c => c.id + 1 = k.received ∧ (c.id = k.passed.length ∨ k.closed = true ∨ k.done = true)
  | .inside c => c.id + 1 = k.received ∧ (c.id = k.passed.length ∨ k.closed = true ∨ k.done = true)
  | .opened c => c.id + 1 = k.received ∧ (c.id = k.passed.length ∨ k.done = true)
  | .live c => c.id + 1 = k.received ∧ c.id = k.passed.length

/-- The read lock has one holder, drainers find the stream sealed, the chunks put in are the first
ones received and in their order, and every chunk received is in one place. -/
structure Sound (k : Custody) : Prop where
  locks : Guards ReadRole.Locks k.role k.readMutex
  sealed : ∀ t, (k.role t).Drains → k.Sealed
  order : k.passed = range k.passed.length
  bound : k.passed.length ≤ k.received
  fresh : k.Fresh
  kept : (k.returned ++ (k.inHand ++ k.queued)).Perm (range k.received)
  gone : k.dropped ≠ [] → k.Sealed ∧ ((∃ t, k.role t = .draining) ∨ k.queued = [])
  empty : k.drained = true → k.Sealed ∧ k.queued = []

theorem not_locks_out : ¬ ReadRole.out.Locks := by
  rintro (h | h) <;> cases h

theorem not_drains_out : ¬ ReadRole.out.Drains := by
  rintro (h | h) <;> cases h

namespace Sound

variable {k : Custody} {t : ℕ} {r : ReadRole}

theorem dropped_eq_nil (h : k.Sound) (hrole : k.role t = .reading) (hqueued : k.queued ≠ []) :
    k.dropped = [] := by
  by_contra hne
  rcases (h.gone hne).2 with ⟨u, hu⟩ | hnil
  · have hsame : u = t := h.locks.unique (.inr hu) (.inl hrole)
    rw [hsame, hrole] at hu
    exact ReadRole.noConfusion hu
  · exact hqueued hnil

theorem setRole (h : k.Sound) {mutex : Option ℕ} (hrole : k.role t ≠ .draining)
    (hlocks : Guards ReadRole.Locks (update k.role t r) mutex) (hr : r.Drains → k.Sealed) :
    ({ k with readMutex := mutex }.setRole t r).Sound where
  locks := hlocks
  sealed := (forall_update_iff k.role fun _ r => r.Drains → k.Sealed).mpr
    ⟨hr, fun u _ => h.sealed u⟩
  __ := h
  gone hne := by
    obtain ⟨hsealed, ⟨u, hu⟩ | hnil⟩ := h.gone hne
    · have hother : u ≠ t := fun heq => hrole (heq ▸ hu)
      exact ⟨hsealed, .inl ⟨u, (update_of_ne hother _ _).trans hu⟩⟩
    · exact ⟨hsealed, .inr hnil⟩

/-- What the holder of the lock does to the chunks that are in: none gets out of its order, and each
is still in or returned. -/
theorem rearrange (h : k.Sound) (hqueued : k.queued ≠ []) (inbound : List Chunk)
    (readBuf : Option Chunk) (returned delivered dropped : List ℕ) {k' : Custody}
    (hsame : k' = { k with
      inbound := inbound
      readBuf := readBuf
      returned := returned
      delivered := delivered
      dropped := dropped })
    (hpassed : k'.passed = k.passed)
    (hkept : (k'.returned ++ k'.queued).Perm (k.returned ++ k.queued))
    (hgone : k'.dropped ≠ [] → k.Sealed ∧ ∃ t, k.role t = .draining) : k'.Sound := by
  subst hsame
  exact {
    __ := h
    order := by
      rw [hpassed]
      exact h.order
    bound := by
      rw [hpassed]
      exact h.bound
    fresh := by
      have hfresh := h.fresh
      unfold Fresh at hfresh ⊢
      rwa [hpassed]
    kept := by
      refine List.Perm.trans ?_ h.kept
      have hmove : ∀ a q : List ℕ, (a ++ (k.inHand ++ q)).Perm (k.inHand ++ (a ++ q)) :=
        fun a q => perm_append_comm_assoc a k.inHand q
      exact (hmove _ _).trans ((hkept.append_left k.inHand).trans (hmove _ _).symm)
    gone := fun hne => ⟨(hgone hne).1, .inl (hgone hne).2⟩
    empty := fun hdrained => absurd (h.empty hdrained).2 hqueued }

end Sound

variable {k : Custody} {c : Chunk}

theorem queued_of_buf (hbuf : k.readBuf = some c) : k.queued = c.id :: k.inbound.map Chunk.id := by
  simp [queued, hbuf]

theorem queued_of_none (hbuf : k.readBuf = none) : k.queued = k.inbound.map Chunk.id := by
  simp [queued, hbuf]

theorem inHand_of_chunk (henq : k.enq.chunk = [c]) : k.inHand = [c.id] := by
  rw [inHand, henq]
  rfl

theorem inHand_of_idle (henq : k.enq = .idle) : k.inHand = [] := by
  rw [inHand, henq]
  rfl

theorem Sound.kept_receive (h : k.Sound) (hidle : k.enq = .idle) :
    (k.returned ++ ([k.received] ++ k.queued)).Perm (range (k.received + 1)) := by
  have hkept := h.kept
  rw [inHand_of_idle hidle, nil_append] at hkept
  have hmove : (k.returned ++ ([k.received] ++ k.queued)).Perm
      ((k.returned ++ k.queued) ++ [k.received]) := by
    rw [append_assoc]
    exact perm_append_comm.append_left k.returned
  rw [range_succ]
  exact hmove.trans (hkept.append_right [k.received])

theorem Fresh.raise (h : k.Fresh) {closed done : Bool}
    (hclosed : k.closed = true → closed = true) (hdone : k.done = true → done = true) :
    Fresh { k with closed := closed, done := done } := by
  have hover : k.closed = true ∨ k.done = true → closed = true ∨ done = true := Or.imp hclosed hdone
  unfold Fresh at h ⊢
  cases henq : k.enq <;> simp only [henq] at h ⊢
  case idle => exact h.imp_right hover
  case looked c => exact ⟨h.1, h.2.imp_right hover⟩
  case inside c => exact ⟨h.1, h.2.imp_right hover⟩
  case opened c => exact ⟨h.1, h.2.imp_right hdone⟩
  case live c => exact h

theorem Sound.raise (h : k.Sound) {closed done : Bool}
    (hclosed : k.closed = true → closed = true) (hdone : k.done = true → done = true) :
    Sound { k with closed := closed, done := done } where
  __ := h
  sealed t ht := ⟨hclosed (h.sealed t ht).1, (h.sealed t ht).2⟩
  fresh := h.fresh.raise hclosed hdone
  gone hne := ⟨⟨hclosed (h.gone hne).1.1, (h.gone hne).1.2⟩, (h.gone hne).2⟩
  empty hdrained := ⟨⟨hclosed (h.empty hdrained).1.1, (h.empty hdrained).1.2⟩, (h.empty hdrained).2⟩

theorem Sound.advance (h : k.Sound) {enq : Enqueue} {received : ℕ} {returned : List ℕ}
    (hsealed : k.Sealed → enq.admitted = false) (hbound : k.received ≤ received)
    (hfresh : Fresh { k with enq := enq, received := received, returned := returned })
    (hkept : (returned ++ (enq.chunk.map Chunk.id ++ k.queued)).Perm (range received)) :
    Sound { k with enq := enq, received := received, returned := returned } where
  __ := h
  sealed t ht := ⟨(h.sealed t ht).1, hsealed (h.sealed t ht)⟩
  bound := h.bound.trans hbound
  fresh := hfresh
  kept := hkept
  gone hne := ⟨⟨(h.gone hne).1.1, hsealed (h.gone hne).1⟩, (h.gone hne).2⟩
  empty hdrained := ⟨⟨(h.empty hdrained).1.1, hsealed (h.empty hdrained).1⟩, (h.empty hdrained).2⟩

theorem Sound.push (h : k.Sound) (henq : k.enq = .live c) :
    Sound { k with enq := .idle, inbound := k.inbound ++ [c] } := by
  have hadmitted : k.enq.admitted = true := by rw [henq]; rfl
  have hfresh := h.fresh
  unfold Fresh at hfresh
  simp only [henq] at hfresh
  obtain ⟨hlast, hnext⟩ := hfresh
  have hqueued : queued { k with enq := .idle, inbound := k.inbound ++ [c] } =
      k.queued ++ [c.id] := by
    unfold queued
    simp
  have hpassed : passed { k with enq := .idle, inbound := k.inbound ++ [c] } =
      k.passed ++ [c.id] := by
    unfold passed
    simp [hqueued]
  have hlength : (k.passed ++ [c.id]).length = k.passed.length + 1 := length_append
  exact {
    locks := h.locks
    sealed := fun t ht => ⟨(h.sealed t ht).1, rfl⟩
    order := by rw [hpassed, hlength, range_succ, ← h.order, hnext]
    bound := by rw [hpassed, hlength, ← hlast, hnext]
    fresh := by
      unfold Fresh
      rw [hpassed, hlength]
      exact .inl (by rw [← hlast, hnext])
    kept := by
      have hkept := h.kept
      rw [inHand_of_chunk (c := c) (by rw [henq]; rfl)] at hkept
      have hmove : (k.queued ++ [c.id]).Perm ([c.id] ++ k.queued) := perm_append_comm
      rw [hqueued]
      exact (hmove.append_left k.returned).trans hkept
    gone := fun hne => by
      have hnone := (h.gone hne).1.2
      rw [hadmitted] at hnone
      exact Bool.noConfusion hnone
    empty := fun hdrained => by
      have hnone := (h.empty hdrained).1.2
      rw [hadmitted] at hnone
      exact Bool.noConfusion hnone }

variable {inbound : List Chunk}

theorem Sound.hold (h : k.Sound) {t : ℕ} (hrole : k.role t = .reading)
    {readBuf : Option Chunk} (hqueued : k.queued = c.id :: inbound.map Chunk.id)
    (hbuf : readBuf.toList.map Chunk.id = [c.id]) :
    Sound { k with inbound := inbound, readBuf := readBuf } := by
  have hne : k.queued ≠ [] := hqueued ▸ cons_ne_nil _ _
  have hsame : queued { k with inbound := inbound, readBuf := readBuf } = k.queued := by
    rw [hqueued, queued, map_append, hbuf]
    rfl
  apply h.rearrange hne inbound readBuf k.returned k.delivered k.dropped rfl
  · exact congrArg (k.delivered ++ k.dropped ++ ·) hsame
  · rw [hsame]
  · exact fun hdropped => absurd (h.dropped_eq_nil hrole hne) hdropped

theorem Sound.throw (h : k.Sound) {t : ℕ} (hrole : k.role t = .draining)
    (hqueued : k.queued = c.id :: inbound.map Chunk.id) :
    Sound { k with
      inbound := inbound, readBuf := none, returned := k.returned ++ [c.id],
      dropped := k.dropped ++ [c.id] } := by
  have hne : k.queued ≠ [] := hqueued ▸ cons_ne_nil _ _
  apply h.rearrange hne inbound none (k.returned ++ [c.id]) k.delivered (k.dropped ++ [c.id]) rfl
  · unfold passed
    rw [hqueued, queued_of_none rfl, ← append_assoc k.delivered, append_assoc _ [c.id]]
    rfl
  · rw [hqueued, queued_of_none rfl, append_assoc]
    exact List.Perm.refl _
  · exact fun _ => ⟨h.sealed t (.inr hrole), t, hrole⟩

theorem Moves.sound {k' : Custody} (hmove : Moves k k') (h : k.Sound) : k'.Sound := by
  have hdrains : ∀ {t r}, k.role t = r → r ≠ .draining → k.role t ≠ .draining :=
    fun hrole hne heq => hne (hrole.symm.trans heq)
  cases hmove with
  | stay => exact h
  | mark => exact h.raise (fun _ => rfl) id
  | finish => exact h.raise id fun _ => rfl
  | barrier t hclosed hfree hrole =>
    have hsealed : k.Sealed := ⟨hclosed, Enqueue.admitted_of_locked hfree⟩
    have hlocks : ReadRole.past.Locks → (k.role t).Locks := by rintro (h | h) <;> cases h
    exact h.setRole (hdrains hrole ReadRole.noConfusion) (h.locks.keep hlocks) fun _ => hsealed
  | lockReader t hfree hrole =>
    have hreading : ReadRole.reading.Drains → k.Sealed := by rintro (h | h) <;> cases h
    exact h.setRole (hdrains hrole ReadRole.noConfusion) (h.locks.take hfree) hreading
  | lockDrainer t hfree hrole =>
    exact h.setRole (hdrains hrole ReadRole.noConfusion) (h.locks.take hfree) fun _ =>
      h.sealed t (.inl hrole)
  | unlock t hrole =>
    exact h.setRole (hdrains hrole ReadRole.noConfusion)
      (h.locks.release (.inl hrole) not_locks_out) fun hout => absurd hout not_drains_out
  | take t c rest hrole hbuf hin => exact h.hold hrole (by rw [queued_of_none hbuf, hin]; rfl) rfl
  | copy t c len hrole hbuf => exact h.hold hrole (queued_of_buf hbuf) rfl
  | deliver t c hrole hbuf =>
    have hqueued := queued_of_buf hbuf
    have hne : k.queued ≠ [] := hqueued ▸ cons_ne_nil _ _
    have hdropped := h.dropped_eq_nil hrole hne
    apply h.rearrange hne k.inbound none (k.returned ++ [c.id]) (k.delivered ++ [c.id]) k.dropped rfl
    · unfold passed
      rw [hqueued, hdropped, queued_of_none rfl, append_nil, append_nil, append_assoc]
      rfl
    · rw [hqueued, queued_of_none rfl, append_assoc]
      exact List.Perm.refl _
    · exact fun hne' => absurd hdropped hne'
  | dropBuf t c hrole hbuf => exact h.throw hrole (queued_of_buf hbuf)
  | dropHead t c rest hrole hbuf hin =>
    have hqueued : k.queued = c.id :: rest.map Chunk.id := by
      rw [queued_of_none hbuf, hin]
      rfl
    have hdrop := h.throw hrole hqueued
    rwa [← hbuf] at hdrop
  | drain t hrole hbuf hin =>
    have hsealed := h.sealed t (.inr hrole)
    have hnil : k.queued = [] := by
      rw [queued_of_none hbuf, hin]
      rfl
    exact {
      locks := h.locks.release (.inr hrole) not_locks_out
      sealed := fun _ _ => hsealed
      __ := h
      gone := fun _ => ⟨hsealed, .inr hnil⟩
      empty := fun _ => ⟨hsealed, hnil⟩ }
  | refuse hover hidle =>
    have hfresh : Fresh { k with
        received := k.received + 1, returned := k.returned ++ [k.received] } := by
      simp only [hidle]
      exact .inr hover
    apply h.advance And.right (Nat.le_succ _) hfresh
    rw [hidle, append_assoc]
    exact h.kept_receive hidle
  | look len hidle =>
    have hfresh := h.fresh
    unfold Fresh at hfresh
    simp only [hidle] at hfresh
    exact h.advance (fun _ => rfl) (Nat.le_succ _) ⟨rfl, hfresh⟩ (h.kept_receive hidle)
  | enter c henq =>
    have hfresh := h.fresh
    have hkept := h.kept
    unfold Fresh at hfresh
    simp only [inHand, henq] at hfresh hkept
    exact h.advance (fun _ => rfl) (Nat.le_refl _) hfresh hkept
  | accept c henq hopen =>
    have hfresh := h.fresh
    have hkept := h.kept
    unfold Fresh at hfresh
    simp only [inHand, henq, hopen, Bool.false_eq_true, false_or] at hfresh hkept
    exact h.advance (fun hsealed => Bool.noConfusion (hopen.symm.trans hsealed.1)) (Nat.le_refl _)
      hfresh hkept
  | live c henq hlive =>
    have hfresh := h.fresh
    have hkept := h.kept
    have hadmitted : k.enq.admitted = true := by rw [henq]; rfl
    unfold Fresh at hfresh
    simp only [inHand, henq, hlive, Bool.false_eq_true, or_false] at hfresh hkept
    exact h.advance (fun hsealed => Bool.noConfusion (hadmitted.symm.trans hsealed.2)) (Nat.le_refl _)
      hfresh hkept
  | push c henq => exact h.push henq
  | reject c henq hover =>
    have hkept := h.kept
    rw [inHand_of_chunk henq, ← append_assoc] at hkept
    exact h.advance (fun _ => rfl) (Nat.le_refl _) (.inr hover) hkept

theorem Sound.delivered_prefix (h : k.Sound) : k.delivered <+: range k.received := by
  have hfront : k.delivered <+: k.passed := by
    simp [passed]
  have hrange : range k.passed.length <+: range k.received := by
    obtain ⟨d, hd⟩ := Nat.exists_eq_add_of_le h.bound
    rw [hd, range_add]
    exact prefix_append _ _
  exact (h.order ▸ hfront).trans hrange

theorem Sound.count_eq_one (h : k.Sound) {id : ℕ} (hid : id < k.received) :
    k.returned.count id + k.inHand.count id + k.queued.count id = 1 := by
  have hcount := h.kept.count_eq id
  have hone : (range k.received).count id = 1 := count_eq_one_of_mem nodup_range (mem_range.mpr hid)
  rw [count_append, count_append, hone] at hcount
  omega

end Custody

end Outbound.Anytls
