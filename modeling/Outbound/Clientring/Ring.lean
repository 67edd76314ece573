import Mathlib.Data.Int.Notation
import Outbound.Errors
import Outbound.Lib.Elements
import Outbound.Lib.Run

/-! The failover ring of QUIC clients. -/
namespace Outbound.Clientring

open Errors Lib

def isFailoverError (err : Error) : Bool :=
  isStreamExhausted err || err.is .errClientClosed || err.is .errOperationHold

/-- A client with the capability it reported last, `-1` until the first report. -/
structure Node (T : Type*) where
  client : T
  capability : ℤ

/-- A context as its looks see it: `err i` is what the look number `i` finds. -/
structure Context where
  err : ℕ → Option Error
  sticky : ∀ i e, err i = some e → err (i + 1) = some e

namespace Context

def background : Context := ⟨fun _ => none, fun _ _ h => h⟩

variable {ctx : Context} {i j : ℕ}

theorem live_of_le (hij : i ≤ j) (h : ctx.err j = none) : ctx.err i = none := by
  obtain ⟨d, rfl⟩ := Nat.exists_eq_add_of_le hij
  induction d with
  | zero => exact h
  | succ d ih =>
    apply ih (Nat.le_add_right i d)
    cases hd : ctx.err (i + d) with
    | none => rfl
    | some e =>
      have hsome : ctx.err (i + (d + 1)) = some e := ctx.sticky (i + d) e hd
      rw [h] at hsome
      exact nomatch hsome

end Context

/-- One call of `TryNextContext`: how the wait for the permit ends, the context, and what the
callback returns on its attempt number `i`. -/
structure Call (T : Type*) where
  acquire : Option Error
  ctx : Context
  f : ℕ → Node T → Option Error

/-- The ring. Elements are named in the order of their making; `value` is gone once the element is
out of the list. `removed`, `closing` and `handed` are the clients that left: removed by their own
hook, held by a `Close` that still has to close them, and handed to the close function. -/
structure Ring (T : Type*) where
  closed : Bool
  ring : List ℕ
  value : ℕ → Option (Node T)
  current : Option ℕ
  made : ℕ
  removed : List ℕ
  closing : List (ℕ × T)
  handed : List (ℕ × T)

variable {T : Type*} (newClient : ℕ → T)

def new : Ring T := ⟨false, [], fun _ => none, none, 0, [], [], []⟩

namespace Ring

variable (r : Ring T) (elem : ℕ)

def setValue (value : Option (Node T)) : Ring T :=
  { r with value := Function.update r.value elem value }

def insertAfterCurrent (node : Node T) : ℕ × Ring T :=
  let r' := { r.setValue r.made (some node) with made := r.made + 1 }
  match r.current with
  | none => (r.made, { r' with ring := r.ring ++ [r.made], current := some r.made })
  | some c => (r.made, { r' with ring := Elements.insertAfter r.ring r.made c })

def passiveRemove : Ring T :=
  if (r.value elem).isNone then r else
  let r' := r.setValue elem none
  let current := if r.current = some elem then Elements.next r.ring elem else r.current
  { r' with current, ring := r.ring.erase elem, removed := r.removed ++ [elem] }

/-- The part of `Close` under the permit: the clients are taken out of the list. -/
def close : Ring T :=
  { r with
    closed := true
    ring := []
    value := fun elem => if elem ∈ r.ring then none else r.value elem
    current := none
    closing := r.closing ++ r.ring.filterMap fun elem => (r.value elem).map fun n => (elem, n.client) }

/-- The part of `Close` after the permit: the next client goes to the close function. -/
def handOff : Ring T :=
  match r.closing with
  | [] => r
  | cli :: closing => { r with closing, handed := r.handed ++ [cli] }

/-- A capability report, from the stream table of the client of `elem`. -/
def report (n : ℤ) : Ring T :=
  r.setValue elem ((r.value elem).map fun node => { node with capability := n })

end Ring

/-- Where a call stands: the ring, the cursor it walks with, the attempts it made and how often it
looked at its context. -/
structure Walk (T : Type*) where
  ring : Ring T
  current : Option ℕ
  attempts : List (ℕ × Option Error)
  looks : ℕ

structure Outcome where
  err : Option Error
  attempts : List (ℕ × Option Error)
deriving DecidableEq

namespace Walk

def look (w : Walk T) : Walk T := { w with looks := w.looks + 1 }

def attempt (w : Walk T) (elem : ℕ) (err : Option Error) : Walk T :=
  { w with attempts := w.attempts ++ [(elem, err)] }

def moveOn (w : Walk T) (elem : ℕ) (err : Error) : Walk T :=
  { (w.look.attempt elem (some err)).look with
    current := Elements.nextOrFront w.ring.ring elem }

/-- The end of a walk: a client is constructed, put behind the ring's current one and attempted. -/
def getNew (call : Call T) (w : Walk T) : Option Error × Walk T :=
  match call.ctx.err w.looks with
  | some err => (some err, w.look)
  | none =>
    if w.ring.closed then (some (.sentinel .errClientClosed), w.look) else
    let node : Node T := ⟨newClient w.ring.made, -1⟩
    let inserted := w.ring.insertAfterCurrent node
    let err := call.f w.attempts.length node
    (err, { w.look.attempt inserted.1 err with
      ring := { inserted.2 with current := some inserted.1 }, current := some inserted.1 })

/-- The recursive walk, with fuel. It has no result where the fuel runs out, and where the cursor
is at an element without a node. -/
def tryNext (newClient : ℕ → T) (call : Call T) : ℕ → Walk T → Option (Option Error × Walk T)
  | 0, _ => none
  | fuel + 1, w =>
    match call.ctx.err w.looks with
    | some err => some (some err, w.look)
    | none =>
      match w.current with
      | none => some (w.look.getNew newClient call)
      | some elem =>
        match w.ring.value elem with
        | none => none
        | some node =>
          match call.f w.attempts.length node with
          | none => some (none, w.look.attempt elem none)
          | some err =>
            -- the caller gave up during this attempt
            if (call.ctx.err (w.looks + 1)).isSome then
              some (some err, (w.look.attempt elem (some err)).look)
            else
              if (w.moveOn elem err).current = w.ring.current then
                if isFailoverError err then some ((w.moveOn elem err).getNew newClient call)
                else some (some err, w.moveOn elem err)
              else tryNext newClient call fuel (w.moveOn elem err)

end Walk

/-- A call under the permit, and what it leaves behind. A walk makes one attempt at most for every
client of the ring before it ends, so the fuel is one more. -/
def tryNextContext (r : Ring T) (call : Call T) : Option (Outcome × Ring T) :=
  match call.acquire with
  | some err => some (⟨some err, []⟩, r)
  | none =>
    if r.closed then some (⟨some (.sentinel .errClientClosed), []⟩, r) else
    (Walk.tryNext newClient call (r.ring.length + 1) ⟨r, r.current, [], 0⟩).map fun out =>
      (⟨out.1, out.2.attempts⟩, { out.2.ring with current := out.2.current })

inductive Event (T : Type*) where
  | tryNext (call : Call T)
  | passiveRemove (elem : ℕ)
  | close
  | handOff
  | report (elem : ℕ) (n : ℤ)

def step (r : Ring T) : Event T → Option (Ring T)
  | .tryNext call => (tryNextContext newClient r call).map Prod.snd
  | .passiveRemove elem => some (r.passiveRemove elem)
  | .close => some r.close
  | .handOff => some r.handOff
  | .report elem n => some (r.report elem n)

def run (events : List (Event T)) : Option (Ring T) :=
  events.foldlM (step newClient) new

end Outbound.Clientring
