import Outbound.Transport.Grpc.ReadSide

/-! The sending half of a gRPC tunnel: the writes, the sender and the requests between them, which
all connections take from one pool. -/
namespace Outbound.Transport.Grpc

open Lib List Function Option Bool

abbrev Tag := ℕ × ℕ

/-- Who has a request: the pool, a write that has not queued it yet, the channel of a connection or
its sender. -/
inductive Place where
  | unmade
  | pooled
  | writer (c : ℕ)
  | queue (c : ℕ)
  | sender (c : ℕ)
deriving DecidableEq

def Place.of (c : ℕ) : Place → Prop
  | .writer c' => c' = c
  | .queue c' => c' = c
  | .sender c' => c' = c
  | _ => False

theorem Place.of_unique {c c' : ℕ} {place : Place} (h : place.of c) (h' : place.of c') : c = c' := by
  cases place with
  | unmade => exact h.elim
  | pooled => exact h.elim
  | _ => exact h.symm.trans h'

/-- A request with the one-place channel of its result. The write its hunk is of, and the write
whose hunk the result is of, are kept for the statements. -/
structure Request where
  hunk : Tag × Bytes
  done : Option (Tag × Option Err)
  place : Place
deriving DecidableEq

inductive Sender where
  | off
  | idle
  | sending (q : ℕ)
  | putting (q : ℕ)
  | exited
deriving DecidableEq

/-- What a write returned; an outcome with the write whose `Send` had it. -/
inductive WriteResult where
  | outcome (n : ℕ) (err : Option Err) (of : Tag)
  | deadline (ctx : ℕ)
  | closed
deriving DecidableEq

/-- Where a write is: it has the context, is past the first `select`, has the lock, has a request,
or waits for the result of its request. -/
inductive WritePhase where
  | fresh
  | snapped (ctx : ℕ) (data : Bytes)
  | queued (data : Bytes)
  | locked (ctx : ℕ) (data : Bytes)
  | ready (ctx q : ℕ) (data : Bytes)
  | waiting (ctx q : ℕ) (data : Bytes)
  | returned
deriving DecidableEq

/-- The sending half. `entered` are the writes in the order they got the lock, `handed` the hunks in
the order they were handed to the stream, `results` what `Send` returned for them, and `log` what
the writes returned. -/
structure WriteSide where
  sender : Sender
  sendCh : Option ℕ
  muWriting : Option ℕ
  writes : ℕ → WritePhase
  streamCancelled : Bool
  entered : List (ℕ × Bytes)
  handed : List (ℕ × Bytes)
  results : List (Tag × Option Err)
  log : List (ℕ × WriteResult)

inductive WriteEvent where
  | snapshot (i : ℕ) (data : Bytes)
  | check (i : ℕ) (arm : Arm)
  | lock (i : ℕ)
  | get (i q : ℕ)
  | offer (i : ℕ) (arm : Arm)
  | await (i : ℕ) (arm : Arm)
  | take
  | sent (err : Option Err)
  | put
  | exit
deriving DecidableEq

abbrev Requests := ℕ → Request

def Requests.new : Requests := fun _ => ⟨((0, 0), []), none, .unmade⟩

def Requests.setPlace (reqs : Requests) (q : ℕ) (place : Place) : Requests :=
  update reqs q { reqs q with place }

def Requests.setDone (reqs : Requests) (q : ℕ) (done : Option (Tag × Option Err)) : Requests :=
  update reqs q { reqs q with done }

namespace Requests

variable (reqs : Requests) (q q' : ℕ) (place : Place)

@[simp] theorem setPlace_self : (reqs.setPlace q place q).place = place := by
  simp [setPlace]

theorem setPlace_of_ne {q q' : ℕ} (h : q' ≠ q) (place : Place) :
    reqs.setPlace q place q' = reqs q' := by
  rw [setPlace, update_of_ne h]

@[simp] theorem setPlace_hunk : (reqs.setPlace q place q').hunk = (reqs q').hunk := by
  by_cases h : q' = q
  · simp [h, setPlace]
  · rw [reqs.setPlace_of_ne h]

@[simp] theorem setPlace_done : (reqs.setPlace q place q').done = (reqs q').done := by
  by_cases h : q' = q
  · simp [h, setPlace]
  · rw [reqs.setPlace_of_ne h]

@[simp] theorem setDone_self (done : Option (Tag × Option Err)) :
    (reqs.setDone q done q).done = done := by
  simp [setDone]

theorem setDone_of_ne {q q' : ℕ} (h : q' ≠ q) (done : Option (Tag × Option Err)) :
    reqs.setDone q done q' = reqs q' := by
  rw [setDone, update_of_ne h]

variable (done : Option (Tag × Option Err))

@[simp] theorem setDone_hunk : (reqs.setDone q done q').hunk = (reqs q').hunk := by
  by_cases h : q' = q
  · simp [h, setDone]
  · rw [setDone, update_of_ne h]

@[simp] theorem setDone_place : (reqs.setDone q done q').place = (reqs q').place := by
  by_cases h : q' = q
  · simp [h, setDone]
  · rw [setDone, update_of_ne h]

end Requests

namespace WriteSide

def new : WriteSide := ⟨.off, none, none, fun _ => .fresh, false, [], [], [], []⟩

variable (c : ℕ) (d : Deadline) (closed : Bool) (w : WriteSide) (reqs : Requests) (i : ℕ)
  (arm : Arm)

def setPhase (phase : WritePhase) : WriteSide :=
  { w with writes := update w.writes i phase }

def finish (res : WriteResult) : WriteSide :=
  { w.setPhase i .returned with log := w.log ++ [(i, res)] }

def unlock : WriteSide := { w with muWriting := none }

/-- The context of the stream is cancelled, so that a `Send` in it can return. -/
def closer : WriteSide := { w with streamCancelled := true }

def snapshot (data : Bytes) : WriteSide :=
  match w.writes i with
  | .fresh => w.setPhase i (.snapped d.ctx data)
  | _ => w

def check : WriteSide :=
  match w.writes i with
  | .snapped ctx data =>
    match arm with
    | .deadline => if ctx ∈ d.cancelled then w.finish i (.deadline ctx) else w
    | .closed => if closed then w.finish i .closed else w
    | .go => if ctx ∈ d.cancelled ∨ closed = true then w else w.setPhase i (.queued data)
  | _ => w

def ensureSender : WriteSide :=
  match w.sender with
  | .off => { w with sender := .idle }
  | _ => w

theorem ensureSender_eq :
    w.ensureSender = { w with sender := if w.sender = .off then .idle else w.sender } := by
  obtain ⟨sender, _, _, _, _, _, _, _, _⟩ := w
  cases sender <;> rfl

def lock : WriteSide :=
  match w.writes i with
  | .queued data =>
    match w.muWriting with
    | some _ => w
    | none =>
      { w.ensureSender.setPhase i (.locked d.ctx data) with
        muWriting := some i, entered := w.entered ++ [(i, data)] }
  | _ => w

/-- The write gets a request, a pooled one or a new one, drops a result left in it and puts its
data in. -/
def get (q : ℕ) : WriteSide × Requests :=
  match w.writes i with
  | .locked ctx data =>
    if (reqs q).place = .pooled ∨ (reqs q).place = .unmade then
      (w.setPhase i (.ready ctx q data),
        update reqs q ⟨((c, i), data), none, .writer c⟩)
    else (w, reqs)
  | _ => (w, reqs)

/-- The second `select` of a write, in which it queues its request. -/
def offer : WriteSide × Requests :=
  match w.writes i with
  | .ready ctx q data =>
    match arm with
    | .deadline =>
      if ctx ∈ d.cancelled then
        (w.closer.unlock.finish i (.deadline ctx), reqs.setPlace q .pooled)
      else (w, reqs)
    | .closed =>
      if closed then (w.unlock.finish i .closed, reqs.setPlace q .pooled) else (w, reqs)
    | .go =>
      match w.sendCh with
      | some _ => (w, reqs)
      | none =>
        ({ w.setPhase i (.waiting ctx q data) with sendCh := some q }, reqs.setPlace q (.queue c))
  | _ => (w, reqs)

/-- What a write reports: a hunk is sent whole or not at all. -/
def report (data : Bytes) (of : Tag) : Option Err → WriteResult
  | none => .outcome data.length none of
  | some e => .outcome 0 (some (streamErr e)) of

/-- The third `select` of a write, in which it waits for the result. -/
def await : WriteSide × Requests :=
  match w.writes i with
  | .waiting ctx q data =>
    match arm with
    | .deadline =>
      if ctx ∈ d.cancelled then (w.closer.unlock.finish i (.deadline ctx), reqs) else (w, reqs)
    | .closed => if closed then (w.unlock.finish i .closed, reqs) else (w, reqs)
    | .go =>
      match (reqs q).done with
      | none => (w, reqs)
      | some (of, err) => (w.unlock.finish i (report data of err), reqs.setDone q none)
  | _ => (w, reqs)

def take : WriteSide × Requests :=
  match w.sender, w.sendCh with
  | .idle, some q =>
    ({ w with
        sender := .sending q
        sendCh := none
        handed := w.handed ++ [((reqs q).hunk.1.2, (reqs q).hunk.2)] },
      reqs.setPlace q (.sender c))
  | _, _ => (w, reqs)

/-- `Send` returns, and its result goes into the channel of the request. -/
def sent (err : Option Err) : WriteSide × Requests :=
  match w.sender with
  | .sending q =>
    match (reqs q).done with
    | some _ => (w, reqs)
    | none =>
      ({ w with sender := .putting q, results := w.results ++ [((reqs q).hunk.1, err)] },
        reqs.setDone q (some ((reqs q).hunk.1, err)))
  | _ => (w, reqs)

def put : WriteSide × Requests :=
  match w.sender with
  | .putting q => ({ w with sender := .idle }, reqs.setPlace q .pooled)
  | _ => (w, reqs)

def exit : WriteSide :=
  match w.sender with
  | .idle => if closed then { w with sender := .exited } else w
  | _ => w

/-- The sending half of the connection `c` takes a step. A step that is not possible changes
nothing. -/
def step (c : ℕ) (d : Deadline) (closed : Bool) (w : WriteSide) (reqs : Requests) :
    WriteEvent → WriteSide × Requests
  | .snapshot i data => (w.snapshot d i data, reqs)
  | .check i arm => (w.check d closed i arm, reqs)
  | .lock i => (w.lock d i, reqs)
  | .get i q => w.get c reqs i q
  | .offer i arm => w.offer c d closed reqs i arm
  | .await i arm => w.await d closed reqs i arm
  | .take => w.take c reqs
  | .sent err => w.sent reqs err
  | .put => w.put reqs
  | .exit => (w.exit closed, reqs)

end WriteSide

def WritePhase.unsent : WritePhase → Option Bytes
  | .locked _ data => some data
  | .ready _ _ data => some data
  | _ => none

def WritePhase.inside : WritePhase → Bool
  | .locked _ _ => true
  | .ready _ _ _ => true
  | .waiting _ _ _ => true
  | _ => false

namespace WriteSide

variable {c : ℕ} {d : Deadline} {closed : Bool} {w : WriteSide} {reqs : Requests}

def queuedHunk (w : WriteSide) (reqs : Requests) : List (ℕ × Bytes) :=
  w.sendCh.toList.map fun q => ((reqs q).hunk.1.2, (reqs q).hunk.2)

def pending (w : WriteSide) : List (ℕ × Bytes) :=
  (w.muWriting.bind fun i => (w.writes i).unsent.map fun data => (i, data)).toList

structure Sound (c : ℕ) (reqs : Requests) (w : WriteSide) : Prop where
  queue : ∀ q, w.sendCh = some q → (reqs q).place = .queue c
  sender : ∀ q, w.sender = .sending q ∨ w.sender = .putting q → (reqs q).place = .sender c
  inside : ∀ i, (w.writes i).inside = true → w.muWriting = some i
  ready : ∀ i ctx q data, w.writes i = .ready ctx q data →
    (reqs q).place = .writer c ∧ (reqs q).hunk = ((c, i), data)
  order : (w.handed ++ (w.queuedHunk reqs ++ w.pending)).Sublist w.entered

theorem sound_new : new.Sound c Requests.new where
  queue _ h := nomatch h
  sender _ h := by rcases h with h | h <;> exact nomatch h
  inside _ h := nomatch h
  ready _ _ _ _ h := nomatch h
  order := List.Sublist.refl _

/-- The request is filled, queued or being sent here. A write that waits for its result is not
meant: the sender may have given the request back, and another connection may have it. -/
def Sends (w : WriteSide) (q : ℕ) : Prop :=
  w.sendCh = some q ∨ w.sender = .sending q ∨ w.sender = .putting q ∨
    ∃ i ctx data, w.writes i = .ready ctx q data

section

variable (h : w.Sound c reqs)

include h

theorem Sound.place_of_sends {q : ℕ} (hq : w.Sends q) : (reqs q).place.of c := by
  rcases hq with hq | hq | hq | ⟨i, ctx, data, hq⟩
  · rw [h.queue q hq]
    rfl
  · rw [h.sender q (.inl hq)]
    rfl
  · rw [h.sender q (.inr hq)]
    rfl
  · rw [(h.ready i ctx q data hq).1]
    rfl

theorem Sound.congr {reqs' : Requests}
    (hsame : ∀ q, w.Sends q →
      (reqs' q).place = (reqs q).place ∧ (reqs' q).hunk = (reqs q).hunk) : w.Sound c reqs' where
  queue q hq := (hsame q (.inl hq)).1.trans (h.queue q hq)
  sender q hq := (hsame q (.inr (hq.imp_right .inl))).1.trans (h.sender q hq)
  inside := h.inside
  ready i ctx q data hi := by
    obtain ⟨hplace, hhunk⟩ := hsame q (.inr (.inr (.inr ⟨i, ctx, data, hi⟩)))
    rw [hplace, hhunk]
    exact h.ready i ctx q data hi
  order := by
    have hqueued : w.queuedHunk reqs' = w.queuedHunk reqs := by
      unfold queuedHunk
      cases hch : w.sendCh with
      | none => rfl
      | some q =>
        simp [(hsame q (.inl hch)).2]
    rw [hqueued]
    exact h.order

theorem Sound.frame {reqs' : Requests}
    (hframe : ∀ q, (reqs q).place.of c →
      (reqs' q).place = (reqs q).place ∧ (reqs' q).hunk = (reqs q).hunk) : w.Sound c reqs' :=
  h.congr fun q hq => hframe q (h.place_of_sends hq)

theorem Sound.update {q : ℕ} (hq : ¬ w.Sends q) (r : Request) : w.Sound c (update reqs q r) := by
  apply h.congr
  intro q' hq'
  have hother : q' ≠ q := fun heq => hq (heq ▸ hq')
  rw [update_of_ne hother]
  exact ⟨rfl, rfl⟩

end

variable {phase : WritePhase} {i : ℕ}

theorem Sound.enter (h : w.Sound c reqs) {w' : WriteSide} (hch : w'.sendCh = w.sendCh)
    (hsender : ∀ q, w'.sender = .sending q ∨ w'.sender = .putting q → w.sender = w'.sender)
    (hwrites : w'.writes = Function.update w.writes i phase)
    (hinside : phase.inside = true → w'.muWriting = some i)
    (hothers : ∀ j ≠ i, (w.writes j).inside = true → w'.muWriting = w.muWriting)
    (hready : ∀ ctx q data, phase = .ready ctx q data →
      (reqs q).place = .writer c ∧ (reqs q).hunk = ((c, i), data))
    (horder : (w'.handed ++ (w'.queuedHunk reqs ++ w'.pending)).Sublist w'.entered) :
    w'.Sound c reqs where
  queue q hq := h.queue q (hch ▸ hq)
  sender q hq := h.sender q (by rwa [hsender q hq])
  inside j hj := by
    rw [hwrites] at hj
    by_cases heq : j = i
    · rw [heq, update_self] at hj
      rw [heq, hinside hj]
    · rw [update_of_ne heq] at hj
      exact (hothers j heq hj).trans (h.inside j hj)
  ready j ctx q data hj := by
    rw [hwrites] at hj
    by_cases heq : j = i
    · rw [heq, update_self] at hj
      rw [heq]
      exact hready ctx q data hj
    · rw [update_of_ne heq] at hj
      exact h.ready j ctx q data hj
  order := horder

theorem pending_setPhase (hold : (w.writes i).unsent = none)
    (hnew : phase.unsent = none) : (w.setPhase i phase).pending = w.pending := by
  unfold pending setPhase
  cases w.muWriting with
  | none => rfl
  | some j =>
    by_cases heq : j = i
    · subst heq
      simp [hold, hnew]
    · simp only [bind_some, update_of_ne heq]

section

variable (h : w.Sound c reqs)

include h

theorem Sound.setPhase (hold : (w.writes i).unsent = none) (hnew : phase.inside = false) :
    (w.setPhase i phase).Sound c reqs := by
  have hunsent : phase.unsent = none := by
    cases phase <;> first | rfl | exact nomatch hnew
  refine h.enter rfl (fun _ _ => rfl) rfl (fun hin => ?_) (fun _ _ _ => rfl)
    (fun ctx q data heq => ?_) ?_
  · cases hnew.symm.trans hin
  · rw [heq] at hnew
    exact nomatch hnew
  · rw [pending_setPhase hold hunsent]
    exact h.order

theorem Sound.closer : w.closer.Sound c reqs :=
  ⟨h.queue, h.sender, h.inside, h.ready, h.order⟩

section

variable (hi : (w.writes i).inside = true)

include hi

theorem Sound.alone {j : ℕ} (hne : j ≠ i) : (w.writes j).inside = false := by
  cases hj : (w.writes j).inside with
  | false => rfl
  | true =>
    have hsame := (h.inside i hi).symm.trans (h.inside j hj)
    exact absurd (some.inj hsame).symm hne

theorem Sound.leave (res : WriteResult) : (w.unlock.finish i res).Sound c reqs := by
  refine h.enter rfl (fun _ _ => rfl) rfl Bool.noConfusion (fun j hne hj => ?_)
    (fun _ _ _ => WritePhase.noConfusion) ?_
  · cases (h.alone hi hne).symm.trans hj
  · have hless : (w.handed ++ (w.queuedHunk reqs ++ [])).Sublist
        (w.handed ++ (w.queuedHunk reqs ++ w.pending)) :=
      ((nil_sublist _).append_left _).append_left _
    exact hless.trans h.order

theorem Sound.moveInside (hready : ∀ ctx q data, phase = .ready ctx q data →
      (reqs q).place = .writer c ∧ (reqs q).hunk = ((c, i), data))
    (hunsent : phase.unsent = none ∨ phase.unsent = (w.writes i).unsent) :
    (w.setPhase i phase).Sound c reqs := by
  have hmu := h.inside i hi
  have hless : (w.setPhase i phase).pending.Sublist w.pending := by
    unfold pending WriteSide.setPhase
    dsimp only
    rw [hmu, bind_some, bind_some, update_self]
    rcases hunsent with hnone | hsame
    · rw [hnone]
      exact nil_sublist _
    · rw [hsame]
  exact h.enter rfl (fun _ _ => rfl) rfl (fun _ => hmu) (fun _ _ _ => rfl) hready
    (((hless.append_left _).append_left _).trans h.order)

end

end

variable {data : Bytes}

theorem Sound.giveBack (h : w.Sound c reqs) {ctx q : ℕ}
    (hphase : w.writes i = .ready ctx q data) (res : WriteResult) :
    (w.unlock.finish i res).Sound c (reqs.setPlace q .pooled) := by
  have hleave := h.leave (i := i) (by rw [hphase]; rfl) res
  have hplace := (h.ready i ctx q data hphase).1
  apply hleave.update
  rintro (hq | hq | hq | ⟨j, ctx', data', hq⟩)
  · exact nomatch hplace.symm.trans (hleave.queue q hq)
  · exact nomatch hplace.symm.trans (hleave.sender q (.inl hq))
  · exact nomatch hplace.symm.trans (hleave.sender q (.inr hq))
  · have hmu := hleave.inside j (by rw [hq]; rfl)
    exact nomatch hmu

/-- What a step can do to the sending half and to the requests. -/
inductive Moves (c : ℕ) (e : WriteEvent) (w : WriteSide) (reqs : Requests) :
    WriteSide × Requests → Prop where
  | stay : Moves c e w reqs (w, reqs)
  | begin (i : ℕ) (phase : WritePhase) (hold : (w.writes i).unsent = none)
      (hnew : phase.inside = false) : Moves c e w reqs (w.setPhase i phase, reqs)
  | turnAway (i : ℕ) (res : WriteResult) (hold : (w.writes i).unsent = none)
      (hres : ∀ n err of, res ≠ .outcome n err of) : Moves c e w reqs (w.finish i res, reqs)
  | lock (i ctx : ℕ) (data : Bytes) (hmu : w.muWriting = none) :
      Moves c e w reqs ({ w.setPhase i (.locked ctx data) with
        sender := if w.sender = .off then .idle else w.sender
        muWriting := some i
        entered := w.entered ++ [(i, data)] }, reqs)
  | get (i q ctx : ℕ) (data : Bytes) (he : e = .get i q) (hphase : w.writes i = .locked ctx data)
      (hplace : (reqs q).place = .pooled ∨ (reqs q).place = .unmade) :
      Moves c e w reqs (w.setPhase i (.ready ctx q data),
        update reqs q ⟨((c, i), data), none, .writer c⟩)
  | giveBack (i ctx q : ℕ) (data : Bytes) (res : WriteResult) (w' : WriteSide)
      (hw' : w' = w ∨ w' = w.closer) (hphase : w.writes i = .ready ctx q data)
      (hres : ∀ n err of, res ≠ .outcome n err of) :
      Moves c e w reqs (w'.unlock.finish i res, reqs.setPlace q .pooled)
  | offer (i ctx q : ℕ) (data : Bytes) (hphase : w.writes i = .ready ctx q data)
      (hch : w.sendCh = none) :
      Moves c e w reqs
        ({ w.setPhase i (.waiting ctx q data) with sendCh := some q }, reqs.setPlace q (.queue c))
  | abandon (i ctx q : ℕ) (data : Bytes) (res : WriteResult) (w' : WriteSide)
      (hw' : w' = w ∨ w' = w.closer) (hphase : w.writes i = .waiting ctx q data)
      (hres : ∀ n err of, res ≠ .outcome n err of) :
      Moves c e w reqs (w'.unlock.finish i res, reqs)
  | receive (i ctx q : ℕ) (data : Bytes) (of : Tag) (err : Option Err)
      (hphase : w.writes i = .waiting ctx q data) (hdone : (reqs q).done = some (of, err)) :
      Moves c e w reqs (w.unlock.finish i (report data of err), reqs.setDone q none)
  | take (q : ℕ) (hsender : w.sender = .idle) (hch : w.sendCh = some q) :
      Moves c e w reqs ({ w with
        sender := .sending q
        sendCh := none
        handed := w.handed ++ [((reqs q).hunk.1.2, (reqs q).hunk.2)] }, reqs.setPlace q (.sender c))
  | sent (q : ℕ) (err : Option Err) (hsender : w.sender = .sending q) (hdone : (reqs q).done = none) :
      Moves c e w reqs
        ({ w with sender := .putting q, results := w.results ++ [((reqs q).hunk.1, err)] },
          reqs.setDone q (some ((reqs q).hunk.1, err)))
  | put (q : ℕ) (hsender : w.sender = .putting q) :
      Moves c e w reqs ({ w with sender := .idle }, reqs.setPlace q .pooled)
  | exit (hsender : w.sender = .idle) : Moves c e w reqs ({ w with sender := .exited }, reqs)

theorem step_moves (e : WriteEvent) : Moves c e w reqs (w.step c d closed reqs e) := by
  cases e with
  | snapshot i data =>
    dsimp only [step, snapshot]
    split
    · next hphase => exact .begin i _ (by rw [hphase]; rfl) rfl
    · exact .stay
  | check i arm =>
    dsimp only [step, check]
    split
    · next ctx data hphase =>
      have hold : (w.writes i).unsent = none := by rw [hphase]; rfl
      split <;> split_ifs
      · exact .turnAway i _ hold fun _ _ _ => WriteResult.noConfusion
      · exact .stay
      · exact .turnAway i _ hold fun _ _ _ => WriteResult.noConfusion
      · exact .stay
      · exact .stay
      · exact .begin i _ hold rfl
    · exact .stay
  | lock i =>
    dsimp only [step, lock]
    split
    · next data hphase =>
      split
      · exact .stay
      · next hmu =>
        rw [ensureSender_eq]
        exact .lock i d.ctx data hmu
    · exact .stay
  | get i q =>
    dsimp only [step, get]
    split
    · next ctx data hphase =>
      split_ifs with hplace
      · exact .get i q ctx data rfl hphase hplace
      · exact .stay
    · exact .stay
  | offer i arm =>
    dsimp only [step, offer]
    split
    · next ctx q data hphase =>
      split
      · split_ifs
        · exact .giveBack i ctx q data _ _ (.inr rfl) hphase fun _ _ _ => WriteResult.noConfusion
        · exact .stay
      · split_ifs
        · exact .giveBack i ctx q data _ _ (.inl rfl) hphase fun _ _ _ => WriteResult.noConfusion
        · exact .stay
      · split
        · exact .stay
        · next hch => exact .offer i ctx q data hphase hch
    · exact .stay
  | await i arm =>
    dsimp only [step, await]
    split
    · next ctx q data hphase =>
      split
      · split_ifs
        · exact .abandon i ctx q data _ _ (.inr rfl) hphase fun _ _ _ => WriteResult.noConfusion
        · exact .stay
      · split_ifs
        · exact .abandon i ctx q data _ _ (.inl rfl) hphase fun _ _ _ => WriteResult.noConfusion
        · exact .stay
      · split
        · exact .stay
        · next of err hdone => exact .receive i ctx q data of err hphase hdone
    · exact .stay
  | take =>
    dsimp only [step, take]
    split
    · next q hsender hch => exact .take q hsender hch
    · exact .stay
  | sent err =>
    dsimp only [step, sent]
    split
    · next q hsender =>
      split
      · exact .stay
      · next hdone => exact .sent q err hsender hdone
    · exact .stay
  | put =>
    dsimp only [step, put]
    split
    · next q hsender => exact .put q hsender
    · exact .stay
  | exit =>
    dsimp only [step, exit]
    split
    · next hsender =>
      split_ifs
      · exact .exit hsender
      · exact .stay
    · exact .stay

theorem Sound.lock (h : w.Sound c reqs) {ctx : ℕ} (hmu : w.muWriting = none) :
    Sound c reqs { w.setPhase i (.locked ctx data) with
      sender := if w.sender = .off then .idle else w.sender
      muWriting := some i
      entered := w.entered ++ [(i, data)] } := by
  refine h.enter rfl (fun q hq => ?_) rfl (fun _ => rfl) (fun j _ hj => ?_)
    (fun _ _ _ => WritePhase.noConfusion) ?_
  · split_ifs at hq ⊢
    · rcases hq with hq | hq <;> exact nomatch hq
    · rfl
  · exact nomatch hmu.symm.trans (h.inside j hj)
  · have hbefore := h.order
    have hnone : w.pending = [] := by
      rw [pending, hmu]
      rfl
    rw [hnone, append_nil] at hbefore
    have hentered : (w.handed ++ (w.queuedHunk reqs ++ [(i, data)])).Sublist
        (w.entered ++ [(i, data)]) := by
      simpa using hbefore.append_right _
    change (w.handed ++ (w.queuedHunk reqs ++
      ((Function.update w.writes i (.locked ctx data) i).unsent.map
        fun data => (i, data)).toList)).Sublist (w.entered ++ [(i, data)])
    rwa [update_self]

theorem Sound.offer (h : w.Sound c reqs) {ctx q : ℕ}
    (hphase : w.writes i = .ready ctx q data) (hch : w.sendCh = none) :
    Sound c (reqs.setPlace q (.queue c))
      { w.setPhase i (.waiting ctx q data) with sendCh := some q } := by
  obtain ⟨hplace, hhunk⟩ := h.ready i ctx q data hphase
  have hinside : (w.writes i).inside = true := by rw [hphase]; rfl
  have hmu := h.inside i hinside
  have hmove : (w.setPhase i (.waiting ctx q data)).Sound c reqs :=
    h.moveInside hinside (fun _ _ _ => WritePhase.noConfusion) (.inl rfl)
  refine ⟨fun q' hq' => ?_, fun q' hq' => ?_, hmove.inside, fun j ctx' q' data' hj => ?_, ?_⟩
  · rw [← some.inj hq', Requests.setPlace_self]
  · have hother : q' ≠ q := fun heq => by
      have hsender := h.sender q' hq'
      rw [heq, hplace] at hsender
      exact nomatch hsender
    rw [Requests.setPlace_of_ne _ hother]
    exact h.sender q' hq'
  · have hsame : some i = some j := hmu.symm.trans (hmove.inside j (by rw [hj]; rfl))
    cases hsame
    simp [WriteSide.setPhase] at hj
  · have hbefore := h.order
    have hone : w.queuedHunk reqs ++ w.pending = [(i, data)] := by
      rw [queuedHunk, hch, pending, hmu, bind_some, hphase]
      rfl
    have hnow : (w.setPhase i (.waiting ctx q data)).pending = [] := by
      unfold pending WriteSide.setPhase
      dsimp only
      rw [hmu, bind_some, update_self]
      rfl
    rw [hone] at hbefore
    change (w.handed ++ ([(((reqs.setPlace q (.queue c)) q).hunk.1.2,
      ((reqs.setPlace q (.queue c)) q).hunk.2)] ++
        (w.setPhase i (.waiting ctx q data)).pending)).Sublist w.entered
    rwa [hnow, Requests.setPlace_hunk, hhunk]

theorem Sound.setSender (h : w.Sound c reqs) {sender : Sender} (results : List (Tag × Option Err))
    (hsender : ∀ q, sender = .sending q ∨ sender = .putting q → w.sender = .sending q) :
    Sound c reqs { w with sender, results } :=
  ⟨h.queue, fun q hq => h.sender q (.inl (hsender q hq)), h.inside, h.ready, h.order⟩

variable {e : WriteEvent} {r : WriteSide × Requests}

theorem Moves.sound (hmove : Moves c e w reqs r) (h : w.Sound c reqs) : r.1.Sound c r.2 := by
  have hcloser : ∀ w', w' = w ∨ w' = w.closer → w'.Sound c reqs ∧ w'.writes = w.writes := by
    rintro w' (rfl | rfl)
    · exact ⟨h, rfl⟩
    · exact ⟨h.closer, rfl⟩
  cases hmove with
  | stay => exact h
  | begin i phase hold hnew => exact h.setPhase hold hnew
  | turnAway i res hold hres =>
    have hset : (w.setPhase i .returned).Sound c reqs := h.setPhase hold rfl
    exact ⟨hset.queue, hset.sender, hset.inside, hset.ready, hset.order⟩
  | lock i ctx data hmu => exact h.lock hmu
  | get i q ctx data he hphase hplace =>
    have hfree : ¬ w.Sends q := fun hq => by
      have hof := h.place_of_sends hq
      rcases hplace with hplace | hplace <;> rw [hplace] at hof <;> exact hof
    apply (h.update hfree _).moveInside (by rw [hphase]; rfl)
    · intro ctx' q' data' heq
      cases heq
      simp
    · exact .inr (by rw [hphase]; rfl)
  | giveBack i ctx q data res w' hw' hphase hres =>
    obtain ⟨hsound, hwrites⟩ := hcloser w' hw'
    exact hsound.giveBack (hwrites ▸ hphase) res
  | offer i ctx q data hphase hch => exact h.offer hphase hch
  | abandon i ctx q data res w' hw' hphase hres =>
    obtain ⟨hsound, hwrites⟩ := hcloser w' hw'
    exact hsound.leave (by rw [hwrites, hphase]; rfl) res
  | receive i ctx q data of err hphase hdone =>
    apply (h.leave (by rw [hphase]; rfl) _).frame
    intro q' _
    exact ⟨reqs.setDone_place q q' none, reqs.setDone_hunk q q' none⟩
  | take q hsender hch =>
    have hplace := h.queue q hch
    refine ⟨fun _ hnot => (nomatch hnot), fun q' hq' => ?_, h.inside,
      fun i ctx q' data hi => ?_, ?_⟩
    · have heq : q = q' := by
        rcases hq' with hq' | hq'
        · exact Sender.sending.inj hq'
        · exact nomatch hq'
      rw [← heq, Requests.setPlace_self]
    · obtain ⟨hwriter, hhunk⟩ := h.ready i ctx q' data hi
      have hother : q' ≠ q := fun heq => by
        rw [heq, hplace] at hwriter
        exact nomatch hwriter
      dsimp only
      rw [Requests.setPlace_of_ne _ hother]
      exact ⟨hwriter, hhunk⟩
    · have hbefore := h.order
      rwa [queuedHunk, hch, toList_some, map_singleton, ← append_assoc] at hbefore
  | sent q err hsender hdone =>
    have hputting : ∀ q', Sender.putting q = .sending q' ∨ Sender.putting q = .putting q' →
        w.sender = .sending q' := by
      rintro q' (hq' | hq')
      · exact nomatch hq'
      · rw [hsender, Sender.putting.inj hq']
    apply (h.setSender _ hputting).frame
    intro q' _
    exact ⟨reqs.setDone_place q q' _, reqs.setDone_hunk q q' _⟩
  | put q hsender =>
    have hplace := h.sender q (.inr hsender)
    have hidle : Sound c reqs { w with sender := .idle } :=
      h.setSender w.results fun q' hq' => by rcases hq' with hq' | hq' <;> exact nomatch hq'
    apply hidle.update
    rintro (hq | hq | hq | ⟨i, ctx, data, hq⟩)
    · exact nomatch hplace.symm.trans (hidle.queue q hq)
    · exact nomatch hq
    · exact nomatch hq
    · exact nomatch hplace.symm.trans (hidle.ready i ctx q data hq).1
  | exit hsender =>
    exact h.setSender w.results fun q' hq' => by rcases hq' with hq' | hq' <;> exact nomatch hq'

/-- What a step of the connection `c` does to the requests: it takes one from the pool or a new
one, moves one of its own, receives the result from one that a write waits for, or puts a result
into the one of its sender. -/
inductive Touches (c : ℕ) (w : WriteSide) (reqs : Requests) (e : WriteEvent) : Requests → Prop where
  | nothing : Touches c w reqs e reqs
  | got (i q : ℕ) (r : Request) (he : e = .get i q)
      (hplace : (reqs q).place = .pooled ∨ (reqs q).place = .unmade) :
      Touches c w reqs e (update reqs q r)
  | moved (q : ℕ) (place : Place) (hown : (reqs q).place.of c) :
      Touches c w reqs e (reqs.setPlace q place)
  | received (i ctx q : ℕ) (data : Bytes) (hphase : w.writes i = .waiting ctx q data)
      (hdone : (reqs q).done ≠ none) : Touches c w reqs e (reqs.setDone q none)
  | result (q : ℕ) (done : Option (Tag × Option Err)) (hsender : w.sender = .sending q) :
      Touches c w reqs e (reqs.setDone q done)

theorem Moves.touches (hmove : Moves c e w reqs r)
    (h : w.Sound c reqs) : Touches c w reqs e r.2 := by
  have hown : ∀ {i ctx q data}, w.writes i = .ready ctx q data → (reqs q).place.of c :=
    fun hphase => h.place_of_sends (.inr (.inr (.inr ⟨_, _, _, hphase⟩)))
  cases hmove with
  | get i q ctx data he hphase hplace => exact .got i q _ he hplace
  | giveBack i ctx q data res w' hw' hphase hres => exact .moved q .pooled (hown hphase)
  | offer i ctx q data hphase hch => exact .moved q (.queue c) (hown hphase)
  | receive i ctx q data of err hphase hdone =>
    exact .received i ctx q data hphase (by rw [hdone]; exact some_ne_none _)
  | take q hsender hch => exact .moved q _ (h.place_of_sends (.inl hch))
  | sent q err hsender hdone => exact .result q _ hsender
  | put q hsender => exact .moved q _ (h.place_of_sends (.inr (.inr (.inl hsender))))
  | _ => exact .nothing

theorem Touches.keeps {reqs' : Requests} (h : Touches c w reqs e reqs') {c' q : ℕ} (hne : c' ≠ c)
    (hq : (reqs q).place.of c') :
    (reqs' q).place = (reqs q).place ∧ (reqs' q).hunk = (reqs q).hunk := by
  cases h with
  | nothing => exact ⟨rfl, rfl⟩
  | got i q' r he hplace =>
    have hother : q ≠ q' := by
      rintro rfl
      rcases hplace with hplace | hplace <;> rw [hplace] at hq <;> exact hq
    rw [update_of_ne hother]
    exact ⟨rfl, rfl⟩
  | moved q' place hown =>
    have hother : q ≠ q' := by
      rintro rfl
      exact hne (Place.of_unique hq hown)
    rw [reqs.setPlace_of_ne hother]
    exact ⟨rfl, rfl⟩
  | received i ctx q' data hphase hdone =>
    exact ⟨reqs.setDone_place q' q none, reqs.setDone_hunk q' q none⟩
  | result q' done hsender => exact ⟨reqs.setDone_place q' q done, reqs.setDone_hunk q' q done⟩

end WriteSide

end Outbound.Transport.Grpc
