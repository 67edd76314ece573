import Outbound.Lib.Ledger
import Outbound.Lib.Run

/-! The receive queue of a UDP association: packets are queued, or handed to the handler that is
registered. `mu` guards the queue, and `deliverMu` is held by the one call that hands out packets.
The state is taken between the critical sections of `mu`. -/
namespace Outbound.Tuic.ReceiveQueue

open Lib List Function Multiset

def packetChanCap : ℕ := 2048

/-- A `packetHandlerRegistration`, whether the call that made it has returned its unregister
function, and whether that function has run its first step. -/
structure Registration where
  active : Bool
  returned : Bool
  unregistering : Bool

/-- The call that holds `deliverMu`: a `PushBack` that is about to look at its receiver, or waits for
its handler, or a `registerPacketHandler` in its loop over the queued packets. -/
inductive Holder (α : Type) where
  | idle
  | pushing (receiver : ℕ) (packet : α)
  | pushHandler (receiver : ℕ) (packet : α)
  | draining (registration : ℕ) (queued : List α)
  | drainHandler (registration : ℕ) (packet : α) (queued : List α)

/-- `Packets`, with the registrations by number, the holder of `deliverMu`, and the books of what
became of the packets. A handler that refuses a packet has released it; `released` are those that the
queue released itself. -/
structure Packets (α : Type) where
  ch : Option (List α)
  receiver : Option ℕ
  closed : Bool
  dropped : ℕ
  droppedNoReceiver : ℕ
  registrations : ℕ → Registration
  registered : ℕ
  deliverMu : Holder α
  ledger : Ledger α

inductive Step (α : Type) where
  | pushBack (packet : α)
  | loadActive
  | handlerReturns (ok : Bool)
  | registerPacketHandler
  | unregisterStore (registration : ℕ)
  | unregisterDetach (registration : ℕ)
  | popFrontBlock
  | close

namespace Packets

variable {α : Type} (p : Packets α) (registration : ℕ)

def new : Packets α :=
  ⟨none, none, false, 0, 0, fun _ => ⟨false, false, false⟩, 0, .idle, .empty⟩

def queued : List α := p.ch.getD []

/-- Sending to the channel, which is made first if there is none; a packet that does not fit is
dropped. -/
def enqueue (packet : α) : Packets α :=
  if p.queued.length < packetChanCap then { p with ch := some (p.queued ++ [packet]) }
  else { p with
    ch := some p.queued
    dropped := p.dropped + 1
    ledger := p.ledger.release [packet] }

/-- `PushBack` up to the end of its critical section of `mu`. -/
def pushBack (packet : α) : Packets α :=
  match p.deliverMu with
  | .idle =>
    let p := { p with ledger := p.ledger.push packet }
    if p.closed then { p with ledger := p.ledger.release [packet] }
    else
      match p.receiver with
      | some receiver => { p with deliverMu := .pushing receiver packet }
      | none => p.enqueue packet
  | _ => p

/-- The end of a round of the loop in `registerPacketHandler`; behind the last one the call
returns. -/
def nextRound : List α → Packets α
  | [] => { p with
      deliverMu := .idle
      registrations := update p.registrations registration
        { p.registrations registration with returned := true } }
  | packet :: queued => { p with deliverMu := .draining registration (packet :: queued) }

/-- `active.Load()` of `PushBack` or of a round of the loop, and what follows up to the handler. -/
def loadActive : Packets α :=
  match p.deliverMu with
  | .pushing receiver packet =>
    if (p.registrations receiver).active then
      { p with deliverMu := .pushHandler receiver packet, ledger := p.ledger.hand packet }
    else { p with
      deliverMu := .idle
      droppedNoReceiver := p.droppedNoReceiver + 1
      ledger := p.ledger.release [packet] }
  | .draining registration (packet :: queued) =>
    if (p.registrations registration).active then
      { p with
        deliverMu := .drainHandler registration packet queued
        ledger := p.ledger.hand packet }
    else { p with ledger := p.ledger.release [packet] }.nextRound registration queued
  | _ => p

/-- The handler returns; both callers ignore what. -/
def handlerReturns (ok : Bool) : Packets α :=
  match p.deliverMu with
  | .pushHandler _ packet => { p with deliverMu := .idle, ledger := p.ledger.settle packet ok }
  | .drainHandler registration packet queued =>
    { p with ledger := p.ledger.settle packet ok }.nextRound registration queued
  | _ => p

/-- `registerPacketHandler` up to the end of its critical section of `mu`: the queue is drained. -/
def registerPacketHandler : Packets α :=
  match p.deliverMu with
  | .idle =>
    if p.closed ∨ p.receiver ≠ none then p
    else
      { p with
        receiver := some p.registered
        registrations := update p.registrations p.registered ⟨true, false, false⟩
        registered := p.registered + 1
        ch := p.ch.map fun _ => [] }.nextRound p.registered p.queued
  | _ => p

/-- The unregister function, up to `active.Store(false)`. There is none before the call that
registered has returned. -/
def unregisterStore : Packets α :=
  if (p.registrations registration).returned then
    { p with
      registrations := update p.registrations registration
        { p.registrations registration with active := false, unregistering := true } }
  else p

def unregisterDetach : Packets α :=
  if (p.registrations registration).unregistering ∧ p.receiver = some registration then
    { p with receiver := none }
  else p

/-- `PopFrontBlock`, each time it looks at the queue: it waits while that is empty. -/
def popFrontBlock : Packets α :=
  if p.closed then p
  else
    match p.ch with
    | some (packet :: queued) => { p with ch := some queued, ledger := p.ledger.pop packet }
    | _ => p

def deactivate (registrations : ℕ → Registration) : Option ℕ → ℕ → Registration
  | some receiver => update registrations receiver
      { registrations receiver with active := false }
  | none => registrations

def close : Packets α :=
  if p.closed then p
  else { p with
    closed := true
    registrations := deactivate p.registrations p.receiver
    receiver := none
    ch := p.ch.map fun _ => []
    ledger := p.ledger.release p.queued }

def step : Step α → Packets α
  | .pushBack packet => p.pushBack packet
  | .loadActive => p.loadActive
  | .handlerReturns ok => p.handlerReturns ok
  | .registerPacketHandler => p.registerPacketHandler
  | .unregisterStore registration => p.unregisterStore registration
  | .unregisterDetach registration => p.unregisterDetach registration
  | .popFrontBlock => p.popFrontBlock
  | .close => p.close

def run (steps : List (Step α)) : Packets α := Run.exec (fun p s => ((), p.step s)) new steps

def droppedPackets : ℕ × ℕ := (p.dropped, p.droppedNoReceiver)

end Packets

namespace Holder

variable {α : Type}

def pending : Holder α → List α
  | .pushing _ packet => [packet]
  | .draining _ queued => queued
  | .drainHandler _ _ queued => queued
  | _ => []

def inHandler : Holder α → List α
  | .pushHandler _ packet => [packet]
  | .drainHandler _ packet _ => [packet]
  | _ => []

def drain : Holder α → Option ℕ
  | .draining registration _ => some registration
  | .drainHandler registration _ _ => some registration
  | _ => none

end Holder

namespace Packets

variable {α : Type} {p : Packets α}

/-- Between steps the books balance, nothing is queued while a handler is registered or packets are
held for one, before `Close` the counters count what the queue released, and a registration whose
queued packets are handed out is active. -/
structure Inv (p : Packets α) : Prop where
  balanced : p.ledger.Balanced p.queued p.deliverMu.pending p.deliverMu.inHandler
  direct : p.receiver ≠ none → p.queued = []
  held : p.deliverMu.pending ≠ [] → p.queued = []
  counted : p.closed = false → p.dropped + p.droppedNoReceiver = p.ledger.released.length
  active : p.closed = false → ∀ r, p.deliverMu.drain = some r →
    (p.registrations r).active = true ∧ (p.registrations r).returned = false

theorem Inv.of_idle (hd : p.deliverMu = .idle) (hb : p.ledger.Balanced p.queued [] [])
    (hdirect : p.receiver ≠ none → p.queued = [])
    (hcounted : p.closed = false →
      p.dropped + p.droppedNoReceiver = p.ledger.released.length) : Inv p where
  balanced := by
    rwa [hd]
  direct := hdirect
  held := by
    rw [hd]
    exact fun hne => absurd rfl hne
  counted := hcounted
  active := by
    rw [hd]
    intro _ r hdrain
    cases hdrain

theorem inv_new : Inv (new : Packets α) :=
  .of_idle rfl Ledger.balanced_empty (fun _ => rfl) fun _ => rfl

theorem Inv.balanced_of_idle (h : Inv p) (hd : p.deliverMu = .idle) :
    p.ledger.Balanced p.queued [] [] := by
  have hb := h.balanced
  rwa [hd] at hb

theorem Inv.enqueue (hd : p.deliverMu = .idle) (hr : p.receiver = none) {packet : α}
    {l : Ledger α} (hb : l.Balanced p.queued [] []) (hp : p.ledger = l.push packet)
    (hcounted : p.closed = false → p.dropped + p.droppedNoReceiver = l.released.length) :
    Inv (p.enqueue packet) := by
  unfold Packets.enqueue
  rw [hp]
  split_ifs with hfull
  · exact .of_idle hd hb.push_enqueue (fun hne => absurd hr hne) hcounted
  · refine .of_idle hd hb.push_release (fun hne => absurd hr hne) fun hopen => ?_
    have hcount := hcounted hopen
    change p.dropped + 1 + p.droppedNoReceiver = (l.released ++ [packet]).length
    rw [length_append, length_singleton, ← hcount]
    omega

theorem Inv.pushBack (h : Inv p) (packet : α) : Inv (p.pushBack packet) := by
  unfold Packets.pushBack
  split
  next hd =>
    have hb := h.balanced_of_idle hd
    by_cases hclosed : p.closed = true
    · rw [if_pos hclosed]
      refine .of_idle hd hb.push_release h.direct fun hopen => ?_
      cases hclosed.symm.trans hopen
    rw [if_neg hclosed]
    cases hr : p.receiver with
    | some receiver =>
      have hq : p.queued = [] := h.direct (by rw [hr]; exact Option.some_ne_none receiver)
      rw [hq] at hb
      refine ⟨?_, fun _ => hq, fun _ => hq, h.counted, ?_⟩
      · change (p.ledger.push packet).Balanced p.queued [packet] []
        rw [hq]
        exact hb.push_hold
      · intro _ r hdrain
        cases hdrain
    | none =>
      exact .enqueue (p := { p with receiver := none, ledger := p.ledger.push packet }) hd rfl hb rfl
        h.counted
  next => exact h

theorem Inv.nextRound {registration : ℕ} {queued : List α}
    (hb : p.ledger.Balanced p.queued queued []) (hdirect : p.receiver ≠ none → p.queued = [])
    (hheld : queued ≠ [] → p.queued = [])
    (hcounted : p.closed = false → p.dropped + p.droppedNoReceiver = p.ledger.released.length)
    (hactive : p.closed = false → (p.registrations registration).active = true ∧
      (p.registrations registration).returned = false) : Inv (p.nextRound registration queued) := by
  cases queued with
  | nil => exact .of_idle rfl hb hdirect hcounted
  | cons packet queued =>
    refine ⟨hb, hdirect, hheld, hcounted, ?_⟩
    intro hopen r hdrain
    cases hdrain
    exact hactive hopen

section

variable (h : Inv p)

include h

theorem Inv.loadActive : Inv p.loadActive := by
  have hb := h.balanced
  have hheld := h.held
  have hactive := h.active
  unfold Packets.loadActive
  split
  next receiver packet hd =>
    rw [hd] at hb hheld
    split_ifs with hon
    · refine ⟨hb.hand, h.direct, fun hne => absurd rfl hne, h.counted, ?_⟩
      intro _ r hdrain
      cases hdrain
    · refine .of_idle rfl hb.release_pending h.direct fun hopen => ?_
      change p.dropped + (p.droppedNoReceiver + 1) = (p.ledger.released ++ [packet]).length
      rw [length_append, length_singleton, ← h.counted hopen]
      omega
  next registration packet queued hd =>
    rw [hd] at hb hheld hactive
    have hq : p.queued = [] := hheld (cons_ne_nil packet queued)
    split_ifs with hon
    · refine ⟨hb.hand, h.direct, fun _ => hq, h.counted, ?_⟩
      intro hopen r hdrain
      exact hactive hopen r hdrain
    · -- Only `Close` makes the registration inactive before its call has returned.
      have hclosed : p.closed = true := by
        by_contra hopen
        exact hon (hactive (Bool.eq_false_iff.mpr hopen) registration rfl).1
      have hnever : p.closed ≠ false := by
        rw [hclosed]
        decide
      exact .nextRound (p := { p with ledger := p.ledger.release [packet] }) hb.release_pending
        h.direct (fun _ => hq) (fun hopen => absurd hopen hnever) fun hopen => absurd hopen hnever
  next => exact h

theorem Inv.handlerReturns (ok : Bool) : Inv (p.handlerReturns ok) := by
  have hb := h.balanced
  have hheld := h.held
  have hactive := h.active
  have hreleased (packet : α) : (p.ledger.settle packet ok).released = p.ledger.released := by
    cases ok <;> rfl
  unfold Packets.handlerReturns
  split
  next receiver packet hd =>
    rw [hd] at hb
    refine .of_idle rfl (hb.settle ok) h.direct fun hopen => ?_
    exact (h.counted hopen).trans (congrArg length (hreleased packet).symm)
  next registration packet queued hd =>
    rw [hd] at hb hheld hactive
    refine .nextRound (p := { p with ledger := p.ledger.settle packet ok }) (hb.settle ok) h.direct
      hheld (fun hopen => ?_) fun hopen => hactive hopen registration rfl
    exact (h.counted hopen).trans (congrArg length (hreleased packet).symm)
  next => exact h

theorem Inv.registerPacketHandler : Inv p.registerPacketHandler := by
  unfold Packets.registerPacketHandler
  split
  next hd =>
    split_ifs with hrefused
    · exact h
    have hb := h.balanced_of_idle hd
    have hempty : (p.ch.map fun _ => ([] : List α)).getD [] = [] := by
      cases p.ch <;> rfl
    apply Inv.nextRound
    · change p.ledger.Balanced ((p.ch.map fun _ => []).getD []) p.queued []
      rw [hempty]
      exact hb.drain
    · exact fun _ => hempty
    · exact fun _ => hempty
    · exact h.counted
    · simp
  next => exact h

theorem Inv.unregisterStore (registration : ℕ) : Inv (p.unregisterStore registration) := by
  unfold Packets.unregisterStore
  split_ifs with hreturned
  · refine ⟨h.balanced, h.direct, h.held, h.counted, ?_⟩
    intro hopen r hdrain
    obtain ⟨hon, hcall⟩ := h.active hopen r hdrain
    have hne : r ≠ registration := by
      rintro rfl
      rw [hreturned] at hcall
      cases hcall
    simp only [update_of_ne hne]
    exact ⟨hon, hcall⟩
  · exact h

theorem Inv.unregisterDetach (registration : ℕ) : Inv (p.unregisterDetach registration) := by
  unfold Packets.unregisterDetach
  split_ifs
  · exact ⟨h.balanced, fun hne => absurd rfl hne, h.held, h.counted, h.active⟩
  · exact h

theorem Inv.popFrontBlock : Inv p.popFrontBlock := by
  unfold Packets.popFrontBlock
  split_ifs with hclosed
  · exact h
  split
  next packet queued hch =>
    have hq : p.queued = packet :: queued := by simp [Packets.queued, hch]
    have hne : p.queued ≠ [] := by
      rw [hq]
      exact cons_ne_nil packet queued
    have hpending : p.deliverMu.pending = [] := by
      by_contra hheld
      exact hne (h.held hheld)
    have hb := h.balanced
    rw [hq, hpending] at hb
    refine ⟨?_, ?_, ?_, h.counted, h.active⟩
    · rw [hpending]
      exact hb.pop
    · exact fun hr => absurd (h.direct hr) hne
    · exact fun hheld => absurd hpending hheld
  next => exact h

theorem Inv.close : Inv p.close := by
  unfold Packets.close
  split_ifs with hclosed
  · exact h
  have hempty : (p.ch.map fun _ => ([] : List α)).getD [] = [] := by
    cases p.ch <;> rfl
  refine ⟨?_, fun hne => absurd rfl hne, fun _ => hempty, ?_, ?_⟩
  · change (p.ledger.release p.queued).Balanced ((p.ch.map fun _ => []).getD []) _ _
    rw [hempty]
    exact h.balanced.release_queued
  · intro hopen
    cases hopen
  · intro hopen
    cases hopen

theorem Inv.step (step : Step α) : Inv (p.step step) := by
  cases step with
  | pushBack packet => exact h.pushBack packet
  | loadActive => exact h.loadActive
  | handlerReturns ok => exact h.handlerReturns ok
  | registerPacketHandler => exact h.registerPacketHandler
  | unregisterStore registration => exact h.unregisterStore registration
  | unregisterDetach registration => exact h.unregisterDetach registration
  | popFrontBlock => exact h.popFrontBlock
  | close => exact h.close

end

theorem inv_run (steps : List (Step α)) : Inv (run steps) :=
  Run.exec_invariant _ Inv (fun _ step h => h.step step) new inv_new steps

end Packets

/-- What the queue owes for its packets. Each is queued, held by the call that holds `deliverMu`,
popped, accepted by a handler, or released, by the queue or by the handler that refused it.
Consumers get packets in the order of the pushes. Before `Close` the two counters count every packet
that was released without a handler. -/
structure Accounted {α : Type} (p : Packets α) : Prop where
  partition : p.ledger.pushed.Perm (p.queued ++ (p.deliverMu.pending ++ p.deliverMu.inHandler) ++
    p.ledger.popped ++ p.ledger.accepted ++ (p.ledger.refused ++ p.ledger.released))
  settled : p.deliverMu = .idle → p.deliverMu.pending ++ p.deliverMu.inHandler = []
  consumed : p.ledger.consumed.Perm
    (p.ledger.popped ++ p.ledger.accepted ++ p.ledger.refused ++ p.deliverMu.inHandler)
  inOrder : p.ledger.consumed.Sublist p.ledger.pushed
  poppedInOrder : p.ledger.popped.Sublist p.ledger.consumed
  acceptedInOrder : p.ledger.accepted.Sublist p.ledger.consumed
  counted : p.closed = false →
    p.droppedPackets.1 + p.droppedPackets.2 = p.ledger.released.length

theorem receive_queue_accounting {α : Type} (steps : List (Step α)) :
    Accounted (Packets.run steps) := by
  have h := Packets.inv_run steps
  refine ⟨?_, ?_, ?_, ?_, h.balanced.poppedInOrder, ?_, h.counted⟩
  · rw [← coe_eq_coe, h.balanced.conserved]
    simp only [← coe_add]
    abel
  · intro hidle
    rw [hidle]
    rfl
  · rw [← coe_eq_coe, h.balanced.handed]
    simp
  · exact (sublist_append_left _ _).trans h.balanced.inOrder
  · exact (sublist_append_left _ _).trans h.balanced.acceptedInOrder

/-- A packet that its handler refuses is released before `Close`, and no counter counts it. -/
theorem refused_not_counted :
    (Packets.run [.registerPacketHandler, .pushBack 7, .loadActive, .handlerReturns false]).closed =
        false ∧
      (Packets.run [.registerPacketHandler, .pushBack 7, .loadActive,
        .handlerReturns false]).ledger.refused = [7] ∧
      (Packets.run [.registerPacketHandler, .pushBack 7, .loadActive,
        .handlerReturns false]).droppedPackets = (0, 0) := by
  exact ⟨rfl, rfl, rfl⟩

/-- Nothing is queued behind a receiver or behind packets on their way to one, so none is overtaken;
before `Close` the registration that drains the queue is active and its call has not returned. -/
theorem nothing_overtaken {α : Type} (steps : List (Step α)) :
    let p := Packets.run steps
    (p.receiver ≠ none ∨ p.deliverMu.pending ≠ [] → p.queued = []) ∧
      (p.closed = false → ∀ r, p.deliverMu.drain = some r →
        (p.registrations r).active = true ∧ (p.registrations r).returned = false) := by
  have h := Packets.inv_run steps
  exact ⟨fun hheld => hheld.elim h.direct h.held, h.active⟩

end Outbound.Tuic.ReceiveQueue
