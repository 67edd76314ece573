import Outbound.Anytls.Stream

/-! What becomes of the frames and the chunks of a stream, however its calls are interleaved. -/
namespace Outbound.Anytls

open Lib Function Bool Phase WriteGate
open Phase (noConfusion)

namespace Phase

def writeRole : Phase → WriteRole
  | .holding _ _ => .held
  | .holdingOpen _ => .held
  | .sending _ _ => .sending
  | .halfClosed => .won
  | .finHeld => .held
  | .fin _ => .fin
  | .finSend _ => .fin
  | _ => .out

def readRole : Phase → ReadRole
  | .drainWait _ => .past
  | .draining _ => .draining
  | .readLocked => .reading
  | .readBarrier => .reading
  | _ => .out

def Closes : Phase → Prop
  | .finWait => True
  | .finHeld => True
  | .fin half => half = false
  | .finSend half => half = false
  | .marked _ => True
  | .barrier _ => True
  | .drainWait _ => True
  | .draining _ => True
  | .removing => True
  | _ => False

/-- What a call is about in a phase: its data, the end of the stream, the stream's close or a read. -/
inductive Part where
  | writing
  | ending
  | closing
  | reading

def part : Phase → Part
  | .entry _ _ | .entryOpen _ | .waiting _ _ | .holding _ _ | .holdingOpen _ | .sending _ _ => .writing
  | .halfClosing | .halfClosingOpen | .halfClosed | .finWait | .finHeld | .fin _ | .finSend _ => .ending
  | .reading | .readLocked | .readBarrier => .reading
  | _ => .closing

end Phase

namespace Stream

variable (events : List StreamEvent) {s : Stream} {t : ℕ} {p : Phase}

def gate (s : Stream) : WriteGate where
  writeClosed := s.writeClosed
  writeMutex := s.writeMutex
  wire := s.wire
  role := fun t => (s.phase t).writeRole

def custody (s : Stream) : Custody where
  closed := s.closed
  done := s.done
  readMutex := s.readMutex
  role := fun t => (s.phase t).readRole
  enq := s.enq
  inbound := s.inbound
  readBuf := s.readBuf
  received := s.received
  returned := s.returned
  delivered := s.delivered
  dropped := s.dropped
  drained := s.drained

theorem gate_setPhase (s : Stream) (t : ℕ) (p : Phase) :
    (s.setPhase t p).gate = s.gate.setRole t p.writeRole :=
  congrArg (WriteGate.mk s.writeClosed s.writeMutex s.wire)
    (comp_update writeRole s.phase t p)

theorem custody_setPhase (s : Stream) (t : ℕ) (p : Phase) :
    (s.setPhase t p).custody = s.custody.setRole t p.readRole :=
  congrArg (fun role => { s.custody with role := role })
    (comp_update readRole s.phase t p)

/-- A closed channel, a stream that is not registered, and every call that closes tell of a flag that
is up. -/
structure Closing (s : Stream) : Prop where
  closeCh : s.closeCh = true → s.closed = true
  registered : s.registered = false → s.closed = true ∨ s.done = true
  closes : ∀ t, (s.phase t).Closes → s.closed = true
  session : ∀ t, s.phase t = .sessionTake → s.done = true

structure Simulates (strict : Prop) (s s' : Stream) : Prop where
  gate : WriteGate.Moves strict s.gate s'.gate
  custody : Custody.Moves s.custody s'.custody
  closing : s'.Closing

theorem Closing.setPhase (h : s.Closing) (hcloses : p.Closes → s.closed = true)
    (hsession : p = .sessionTake → s.done = true) : (s.setPhase t p).Closing where
  __ := h
  closes := (forall_update_iff s.phase fun _ p => p.Closes → s.closed = true).mpr
    ⟨hcloses, fun u _ => h.closes u⟩
  session := (forall_update_iff s.phase fun _ p => p = .sessionTake → s.done = true).mpr
    ⟨hsession, fun u _ => h.session u⟩

theorem Closing.raise (h : s.Closing) {s' : Stream} (hphase : s'.phase = s.phase)
    (hclosed : s.closed = true → s'.closed = true) (hdone : s.done = true → s'.done = true)
    (hcloseCh : s'.closeCh = true → s.closeCh = true ∨ s'.closed = true)
    (hregistered : s'.registered = false → s.registered = false ∨ s'.closed = true ∨ s'.done = true) :
    s'.Closing where
  closeCh hch := (hcloseCh hch).elim (fun hold => hclosed (h.closeCh hold)) id
  registered hreg := (hregistered hreg).elim
    (fun hold => (h.registered hold).imp hclosed hdone) id
  closes t ht := hclosed (h.closes t (hphase ▸ ht))
  session t ht := hdone (h.session t (hphase ▸ ht))

variable {strict : Prop}

theorem simulates_of {s' : Stream} (h : s'.Closing)
    (hgate : WriteGate.Moves strict s.gate (s'.gate.setRole t p.writeRole))
    (hcustody : Custody.Moves s.custody (s'.custody.setRole t p.readRole))
    (hcloses : p.Closes → s'.closed = true) (hsession : p = .sessionTake → s'.done = true) :
    Simulates strict s (s'.setPhase t p) where
  gate := by
    rwa [gate_setPhase]
  custody := by
    rwa [custody_setPhase]
  closing := h.setPhase hcloses hsession

theorem gate_stay {r : WriteRole} (hrole : (s.phase t).writeRole = r) :
    WriteGate.Moves strict s.gate (s.gate.setRole t r) := by
  rw [s.gate.setRole_same t hrole]
  exact .stay

theorem custody_stay {r : ReadRole} (hrole : (s.phase t).readRole = r) :
    Custody.Moves s.custody (s.custody.setRole t r) := by
  rw [s.custody.setRole_same t hrole]
  exact .stay

theorem simulates_refl (h : s.Closing) : Simulates strict s s :=
  ⟨.stay, .stay, h⟩

section Steps

variable {p₀ : Phase} (hphase : s.phase t = p₀)

include hphase

theorem simulates_outside {s' : Stream} (h' : s'.Closing) (hgate : s'.gate = s.gate)
    (hcustody : s'.custody = s.custody) (hwrite : p₀.writeRole = p.writeRole)
    (hread : p₀.readRole = p.readRole) (hcloses : p.Closes → s'.closed = true)
    (hsession : p ≠ .sessionTake) : Simulates strict s (s'.setPhase t p) := by
  subst hphase
  refine simulates_of h' ?_ ?_ hcloses fun heq => absurd heq hsession
  · rw [hgate]
    exact gate_stay hwrite
  · rw [hcustody]
    exact custody_stay hread

theorem simulates_afterMark {s' : Stream} {closer : Closer} {first : Bool} (h' : s'.Closing)
    (hgate : s'.gate = s.gate) (hcustody : s'.custody = s.custody) (hwrite : p₀.writeRole = .out)
    (hread : p₀.readRole = .out) (hclosed : s'.closed = true) :
    Simulates strict s (s'.setPhase t (afterMark closer first)) := by
  apply simulates_outside hphase h' hgate hcustody
  · rw [hwrite]
    cases closer <;> rfl
  · rw [hread]
    cases closer <;> rfl
  · exact fun _ => hclosed
  · cases closer <;> exact noConfusion

variable (h : s.Closing)

include h

theorem simulates_setPhase (hwrite : p₀.writeRole = p.writeRole) (hread : p₀.readRole = p.readRole)
    (hcloses : p.Closes → s.closed = true) (hsession : p = .sessionTake → s.done = true) :
    Simulates strict s (s.setPhase t p) := by
  subst hphase
  exact simulates_of h (gate_stay hwrite) (custody_stay hread) hcloses hsession

theorem simulates_entry (hwrite : p₀.writeRole = p.writeRole) (hread : p₀.readRole = p.readRole)
    (hcloses : ¬ p.Closes) (hsession : p ≠ .sessionTake) : Simulates strict s (s.setPhase t p) :=
  simulates_setPhase hphase h hwrite hread (fun hyes => absurd hyes hcloses)
    fun heq => absurd heq hsession

theorem simulates_pass {job : Job} {n : ℕ} (hheld : p₀.writeRole = .held)
    (hread : p₀.readRole = .out) (hguard : strict → Sent.fin ∉ s.wire) :
    Simulates strict s (s.setPhase t (.sending job n)) := by
  subst hphase
  exact simulates_of h (.pass t hguard hheld) (custody_stay hread) False.elim noConfusion

section

variable (hcloses : p.Closes → s.closed = true) (hsession : p ≠ .sessionTake)

include hcloses hsession

theorem simulates_unlockWrite (hlocks : p₀.writeRole.Locks) (hwrite : p.writeRole = .out)
    (hread : p₀.readRole = p.readRole) : Simulates strict s (s.unlockWrite t p) := by
  subst hphase
  refine simulates_of (h.raise rfl id id .inl .inl) ?_ (custody_stay hread) hcloses
    fun heq => absurd heq hsession
  rw [hwrite]
  exact .unlock t hlocks

theorem simulates_lockWrite
    (hrole : p₀.writeRole = .out ∧ p.writeRole = .held ∨ p₀.writeRole = .won ∧ p.writeRole = .fin)
    (hread : p₀.readRole = p.readRole) : Simulates strict s (s.lockWrite t p) := by
  subst hphase
  unfold lockWrite
  cases hmutex : s.writeMutex with
  | some u => exact simulates_refl h
  | none =>
    refine simulates_of (h.raise rfl id id .inl .inl) ?_ (custody_stay hread) hcloses
      fun heq => absurd heq hsession
    rcases hrole with ⟨hout, hheld⟩ | ⟨hwon, hfin⟩
    · rw [hheld]
      exact .lock t hmutex hout
    · rw [hfin]
      exact .lockWon t hmutex hwon

theorem simulates_unlockRead (hreading : p₀.readRole = .reading) (hread : p.readRole = .out)
    (hwrite : p₀.writeRole = p.writeRole) : Simulates strict s (s.unlockRead t p) := by
  subst hphase
  refine simulates_of (h.raise rfl id id .inl .inl) (gate_stay hwrite) ?_ hcloses
    fun heq => absurd heq hsession
  rw [hread]
  exact .unlock t hreading

theorem simulates_lockRead
    (hrole : p₀.readRole = .out ∧ p.readRole = .reading ∨ p₀.readRole = .past ∧ p.readRole = .draining)
    (hwrite : p₀.writeRole = p.writeRole) : Simulates strict s (s.lockRead t p) := by
  subst hphase
  unfold lockRead
  cases hmutex : s.readMutex with
  | some u => exact simulates_refl h
  | none =>
    refine simulates_of (h.raise rfl id id .inl .inl) (gate_stay hwrite) ?_ hcloses
      fun heq => absurd heq hsession
    rcases hrole with ⟨hout, hreading⟩ | ⟨hpast, hdraining⟩
    · rw [hreading]
      exact .lockReader t hmutex hout
    · rw [hdraining]
      exact .lockDrainer t hmutex hpast

theorem simulates_win (hopen : s.writeClosed = false)
    (hrole : p₀.writeRole = .out ∧ p.writeRole = .won ∨ p₀.writeRole = .held ∧ p.writeRole = .fin)
    (hread : p₀.readRole = p.readRole) :
    Simulates strict s ({ s with writeClosed := true }.setPhase t p) := by
  subst hphase
  refine simulates_of (h.raise rfl id id .inl .inl) ?_ (custody_stay hread) hcloses
    fun heq => absurd heq hsession
  rcases hrole with ⟨hout, hwon⟩ | ⟨hheld, hfin⟩
  · rw [hwon]
    exact .win t hopen hout
  · rw [hfin]
    exact .winHeld t hopen hheld

end

theorem simulates_afterFin {half : Bool} (hfin : p₀.writeRole = .fin) (hread : p₀.readRole = .out)
    (hcloses : half = false → s.closed = true) :
    Simulates strict s (s.unlockWrite t (afterFin half)) ∧
      Simulates strict s ({ s with wire := s.wire ++ [Sent.fin] }.unlockWrite t (afterFin half)) := by
  have hwrite : (afterFin half).writeRole = .out := by cases half <;> rfl
  have hread' : p₀.readRole = (afterFin half).readRole := by
    rw [hread]
    cases half <;> rfl
  have hcloses' : (afterFin half).Closes → s.closed = true := by
    cases half with
    | true => exact False.elim
    | false => exact fun _ => hcloses rfl
  have hsession : afterFin half ≠ .sessionTake := by cases half <;> exact noConfusion
  constructor
  · exact simulates_unlockWrite hphase h hcloses' hsession (.inr (.inr hfin)) hwrite hread'
  · subst hphase
    refine simulates_of (h.raise rfl id id .inl .inl) ?_ (custody_stay hread') hcloses'
      fun heq => absurd heq hsession
    rw [hwrite]
    exact .sendFin t hfin

end Steps

theorem simulates_sendData (h : s.Closing) {job : Job} {left : ℕ}
    (hphase : s.phase t = .sending job left) (choice : Choice) :
    Simulates strict s (s.sendData t job left choice) := by
  have hunlock : Simulates strict s (s.unlockWrite t .idle) :=
    simulates_unlockWrite hphase h False.elim noConfusion (.inr (.inl rfl)) rfl rfl
  have hsending : (s.phase t).writeRole = .sending := by rw [hphase]; rfl
  have hread : (s.phase t).readRole = .out := by rw [hphase]; rfl
  unfold sendData
  by_cases hnone : left = 0
  · rwa [if_pos hnone]
  by_cases hclosed : s.sessionClosed = true
  · simpa [hnone, hclosed] using hunlock
  rw [if_neg hnone, if_neg hclosed]
  refine simulates_of (h.raise rfl id id .inl .inl) ?_ (custody_stay hread) False.elim
    fun heq => noConfusion heq
  refine (congrArg (WriteGate.Moves strict s.gate) (setRole_same _ t hsending)).mpr ?_
  exact .push t (burst job left) hsending

theorem simulates_drain (h : s.Closing) {first : Bool}
    (hphase : s.phase t = .draining first) : Simulates strict s (s.drain t first) := by
  have hdraining : (s.phase t).readRole = .draining := by rw [hphase]; rfl
  have hclosed : s.closed = true := h.closes t (by rw [hphase]; trivial)
  unfold drain
  split
  case h_1 c hbuf => exact ⟨.stay, .dropBuf t c hdraining hbuf, h.raise rfl id id .inl .inl⟩
  case h_2 hbuf =>
    split
    case h_1 c rest hin =>
      exact ⟨.stay, .dropHead t c rest hdraining hbuf hin, h.raise rfl id id .inl .inl⟩
    case h_2 hin =>
      have hread : (if first then finWait else removing).readRole = .out := by
        cases first <;> rfl
      have hwrite : (s.phase t).writeRole = (if first then finWait else removing).writeRole := by
        rw [hphase]
        cases first <;> rfl
      refine simulates_of (h.raise rfl id id .inl .inl) (gate_stay hwrite) ?_ (fun _ => hclosed) ?_
      · rw [hread]
        exact .drain t hdraining hbuf hin
      · cases first <;> exact fun heq => noConfusion heq

theorem simulates_copyOut (h : s.Closing) (hphase : s.phase t = .readLocked)
    (len : ℕ) : Simulates strict s (s.copyOut t len) := by
  have hreading : (s.phase t).readRole = .reading := by rw [hphase]; rfl
  unfold copyOut
  cases hbuf : s.readBuf with
  | some c =>
    dsimp only
    split_ifs with hlen
    · exact ⟨.stay, .deliver t c hreading hbuf, h.raise rfl id id .inl .inl⟩
    · exact ⟨.stay, .copy t c (c.len - len) hreading hbuf, h.raise rfl id id .inl .inl⟩
  | none =>
    cases hin : s.inbound with
    | cons c rest => exact ⟨.stay, .take t c rest hreading hbuf hin, h.raise rfl id id .inl .inl⟩
    | nil =>
      split_ifs with hclosed
      · exact simulates_setPhase hphase h rfl rfl (fun _ => hclosed) fun heq => noConfusion heq
      · exact simulates_refl h

theorem simulates_lastChunk (h : s.Closing) (hphase : s.phase t = .readBarrier) :
    Simulates strict s (s.lastChunk t) := by
  unfold lastChunk
  split_ifs with hlocked hnil
  · exact simulates_refl h
  · exact simulates_unlockRead hphase h False.elim noConfusion rfl rfl rfl
  · exact simulates_entry hphase h rfl rfl id noConfusion

/-- A write of a packet stream that comes to its check under the lock finds the stream closed, or
its end not sent yet. -/
def Meets (s : Stream) : StreamEvent → Prop
  | .step t _ => ∀ job n, s.phase t = .holding job n → job ≠ .write →
    s.closed = true ∨ Sent.fin ∉ s.wire
  | _ => True

section

variable (h : s.Closing)

include h

theorem simulates_writing (hgate : s.gate.Sound) (hphase : s.phase t = p)
    (hpart : p.part = .writing) (choice : Choice) :
    Simulates (s.Meets (.step t choice)) s (s.advance t choice) := by
  unfold advance
  rw [hphase]
  cases p with
  | entry job n =>
    dsimp only
    split_ifs <;> exact simulates_entry hphase h rfl rfl id noConfusion
  | entryOpen n =>
    dsimp only
    split_ifs <;> exact simulates_entry hphase h rfl rfl id noConfusion
  | waiting job n =>
    exact simulates_lockWrite hphase h False.elim noConfusion (.inl ⟨rfl, rfl⟩) rfl
  | holding job n =>
    have hunlock : Simulates (s.Meets (.step t choice)) s (s.unlockWrite t .idle) :=
      simulates_unlockWrite hphase h False.elim noConfusion (.inl rfl) rfl rfl
    dsimp only
    split_ifs with hover hjob hfail
    · exact hunlock
    · exact simulates_entry hphase h rfl rfl id noConfusion
    · exact hunlock
    · exact simulates_pass hphase h rfl rfl fun hmeets =>
        (hmeets job n hphase hjob).resolve_left hover
  | holdingOpen n =>
    dsimp only
    split_ifs with hover
    · exact simulates_unlockWrite hphase h False.elim noConfusion (.inl rfl) rfl rfl
    · exact simulates_pass hphase h rfl rfl fun _ => hgate.not_fin_of_open (not_eq_true _ ▸ hover)
  | sending job left => exact simulates_sendData h hphase choice
  | _ => exact Phase.Part.noConfusion hpart

theorem simulates_ending (hphase : s.phase t = p) (hpart : p.part = .ending) (choice : Choice) :
    Simulates (s.Meets (.step t choice)) s (s.advance t choice) := by
  have hclosed : p.Closes → s.closed = true := fun hcloses => h.closes t (hphase ▸ hcloses)
  unfold advance
  rw [hphase]
  cases p with
  | halfClosing =>
    dsimp only
    split_ifs <;> exact simulates_entry hphase h rfl rfl id noConfusion
  | halfClosingOpen =>
    dsimp only
    split_ifs with hover
    · exact simulates_entry hphase h rfl rfl id noConfusion
    · exact simulates_win hphase h False.elim noConfusion (not_eq_true _ ▸ hover)
        (.inl ⟨rfl, rfl⟩) rfl
  | halfClosed =>
    exact simulates_lockWrite hphase h (fun hyes => Bool.noConfusion hyes) noConfusion
      (.inr ⟨rfl, rfl⟩) rfl
  | finWait =>
    exact simulates_lockWrite hphase h (fun _ => hclosed trivial) noConfusion (.inl ⟨rfl, rfl⟩) rfl
  | finHeld =>
    have hcloses := hclosed trivial
    dsimp only
    split_ifs with hover
    · exact simulates_unlockWrite hphase h (fun _ => hcloses) noConfusion (.inl rfl) rfl rfl
    · exact simulates_win hphase h (fun _ => hcloses) noConfusion (not_eq_true _ ▸ hover)
        (.inr ⟨rfl, rfl⟩) rfl
  | fin half =>
    dsimp only
    split_ifs with hsession
    · exact (simulates_afterFin hphase h rfl rfl hclosed).1
    · exact simulates_setPhase hphase h rfl rfl hclosed fun heq =>
        noConfusion heq
  | finSend half =>
    dsimp only
    split_ifs with hsession
    · exact (simulates_afterFin hphase h rfl rfl hclosed).1
    · exact (simulates_afterFin hphase h rfl rfl hclosed).2
  | _ => exact Phase.Part.noConfusion hpart

theorem simulates_closing (hphase : s.phase t = p) (hpart : p.part = .closing) (choice : Choice) :
    Simulates (s.Meets (.step t choice)) s (s.advance t choice) := by
  have hclosed : p.Closes → s.closed = true := fun hcloses => h.closes t (hphase ▸ hcloses)
  unfold advance
  rw [hphase]
  cases p with
  | idle => exact simulates_refl h
  | marking closer =>
    dsimp only
    split
    case h_1 hfree =>
      exact simulates_outside hphase (h.raise rfl id id .inl .inl) rfl rfl rfl rfl False.elim
        noConfusion
    case h_2 => exact simulates_refl h
  | markHeld closer =>
    dsimp only
    split_ifs with hover
    · exact simulates_afterMark hphase (h.raise rfl id id .inl .inl) rfl rfl rfl rfl hover
    · have hread : (s.phase t).readRole = .out := by rw [hphase]; rfl
      refine simulates_of (h.raise rfl (fun _ => rfl) id .inl .inl) (gate_stay (by rw [hphase]; rfl))
        ?_ (fun _ => rfl) fun heq => noConfusion heq
      rw [Custody.setRole_same _ t hread]
      exact .mark
  | marked closer =>
    have hover := hclosed trivial
    exact simulates_afterMark hphase (h.raise rfl id id (fun _ => .inr hover) .inl) rfl rfl rfl rfl
      hover
  | barrier first =>
    have hover := hclosed trivial
    dsimp only
    split_ifs with hlocked
    · exact simulates_refl h
    · have hread : (s.phase t).readRole = .out := by rw [hphase]; rfl
      exact simulates_of h (gate_stay (by rw [hphase]; rfl))
        (.barrier t hover (not_eq_true _ ▸ hlocked) hread)
        (fun _ => hover) fun heq => noConfusion heq
  | drainWait first =>
    exact simulates_lockRead hphase h (fun _ => hclosed trivial) noConfusion (.inr ⟨rfl, rfl⟩) rfl
  | draining first => exact simulates_drain h hphase
  | removing =>
    have hover := hclosed trivial
    exact simulates_outside hphase (h.raise rfl id id .inl fun _ => .inr (.inl hover)) rfl rfl rfl
      rfl False.elim noConfusion
  | sessionClosing =>
    dsimp only
    split_ifs with hover
    · exact simulates_entry hphase h rfl rfl id noConfusion
    · exact simulates_outside hphase (h.raise rfl id id .inl .inl) rfl rfl rfl rfl False.elim
        noConfusion
  | sessionDone =>
    have hread : (s.phase t).readRole = .out := by rw [hphase]; rfl
    refine simulates_of (h.raise rfl id (fun _ => rfl) .inl .inl) (gate_stay (by rw [hphase]; rfl))
      ?_ False.elim fun _ => rfl
    rw [Custody.setRole_same _ t hread]
    exact .finish
  | sessionTake =>
    have hdone : s.done = true := h.session t hphase
    dsimp only
    split_ifs with hregistered
    · exact simulates_outside hphase (h.raise rfl id id .inl fun _ => .inr (.inr hdone)) rfl rfl
        rfl rfl False.elim noConfusion
    · exact simulates_entry hphase h rfl rfl id noConfusion
  | _ => exact Phase.Part.noConfusion hpart

theorem simulates_reading (hphase : s.phase t = p) (hpart : p.part = .reading) (choice : Choice) :
    Simulates (s.Meets (.step t choice)) s (s.advance t choice) := by
  unfold advance
  rw [hphase]
  cases p with
  | reading =>
    exact simulates_lockRead hphase h False.elim noConfusion (.inl ⟨rfl, rfl⟩) rfl
  | readLocked =>
    have hleave : Simulates (s.Meets (.step t choice)) s (s.unlockRead t .idle) :=
      simulates_unlockRead hphase h False.elim noConfusion rfl rfl rfl
    cases choice with
    | copy len => exact simulates_copyOut h hphase len
    | _ => exact hleave
  | readBarrier => exact simulates_lastChunk h hphase
  | _ => exact Phase.Part.noConfusion hpart

theorem simulates_advance (hgate : s.gate.Sound) (t : ℕ) (choice : Choice) :
    Simulates (s.Meets (.step t choice)) s (s.advance t choice) := by
  cases hpart : (s.phase t).part with
  | writing => exact simulates_writing h hgate rfl hpart choice
  | ending => exact simulates_ending h rfl hpart choice
  | closing => exact simulates_closing h rfl hpart choice
  | reading => exact simulates_reading h rfl hpart choice

theorem simulates_recv (len : ℕ) : Simulates strict s (s.recv len) := by
  unfold recv
  by_cases hskip : len = 0 ∨ s.enq ≠ .idle
  · rw [if_pos hskip]
    exact simulates_refl h
  · rw [if_neg hskip]
    obtain ⟨-, hbusy⟩ := not_or.mp hskip
    have hidle : s.enq = .idle := not_not.mp hbusy
    split_ifs with hregistered
    · exact ⟨.stay, .look len hidle, h.raise rfl id id .inl .inl⟩
    · have hover := h.registered (not_eq_true _ ▸ hregistered)
      exact ⟨.stay, .refuse hover hidle, h.raise rfl id id .inl .inl⟩

theorem simulates_reject {c : Chunk} (henq : s.enq.chunk = [c])
    (hover : s.closed = true ∨ s.done = true) : Simulates strict s (s.reject c) :=
  ⟨.stay, .reject c henq hover, h.raise rfl id id .inl .inl⟩

theorem simulates_enqueue (arm : Arm) : Simulates strict s (s.enqueue arm) := by
  unfold enqueue
  split
  case h_1 => exact simulates_refl h
  case h_2 c henq => exact ⟨.stay, .enter c henq, h.raise rfl id id .inl .inl⟩
  case h_3 c henq =>
    split_ifs with hclosed
    · exact simulates_reject h (by rw [henq]; rfl) (.inl hclosed)
    · exact ⟨.stay, .accept c henq (not_eq_true _ ▸ hclosed), h.raise rfl id id .inl .inl⟩
  case h_4 c henq =>
    split_ifs with hdone
    · exact simulates_reject h (by rw [henq]; rfl) (.inr hdone)
    · exact ⟨.stay, .live c henq (not_eq_true _ ▸ hdone), h.raise rfl id id .inl .inl⟩
  case h_5 c henq =>
    have hchunk : s.enq.chunk = [c] := by rw [henq]; rfl
    cases arm with
    | send =>
      dsimp only
      split_ifs with hroom
      · exact ⟨.stay, .push c henq, h.raise rfl id id .inl .inl⟩
      · exact simulates_refl h
    | closeCh =>
      dsimp only
      split_ifs with hch
      · exact simulates_reject h hchunk (.inl (h.closeCh hch))
      · exact simulates_refl h
    | done =>
      dsimp only
      split_ifs with hdone
      · exact simulates_reject h hchunk (.inr hdone)
      · exact simulates_refl h

theorem simulates_step (hgate : s.gate.Sound) (e : StreamEvent) :
    Simulates (s.Meets e) s (s.step e) := by
  cases e with
  | start t call =>
    unfold step
    dsimp only
    split_ifs with hidle
    · cases call <;> exact simulates_entry hidle h rfl rfl id noConfusion
    · exact simulates_refl h
  | step t choice => exact simulates_advance h hgate t choice
  | recv len => exact simulates_recv h len
  | enqueue arm => exact simulates_enqueue h arm

end

structure Sound (s : Stream) : Prop where
  closing : s.Closing
  gate : s.gate.Sound
  custody : s.custody.Sound

theorem sound_new : new.Sound where
  closing := by
    constructor
    · exact fun hch => hch
    · exact fun hreg => Bool.noConfusion hreg
    · exact fun _ hyes => hyes.elim
    · exact fun _ heq => noConfusion heq
  gate := by
    constructor
    · exact fun _ hlocks => absurd hlocks not_locks_out
    · exact fun _ hwins => absurd hwins not_wins_out
    · exact fun _ _ hwins => absurd hwins not_wins_out
    · exact fun hfin => absurd hfin List.not_mem_nil
    · exact Nat.zero_le 1
  custody := by
    constructor
    · exact fun _ hlocks => absurd hlocks Custody.not_locks_out
    · exact fun _ hdrains => absurd hdrains Custody.not_drains_out
    · rfl
    · exact Nat.le_refl 0
    · exact .inl rfl
    · exact List.Perm.refl _
    · exact fun hne => absurd rfl hne
    · exact fun hdrained => Bool.noConfusion hdrained

theorem Sound.step (h : s.Sound) (e : StreamEvent) : (s.step e).Sound := by
  have hstep := simulates_step h.closing h.gate e
  exact ⟨hstep.closing, hstep.gate.sound h.gate, hstep.custody.sound h.custody⟩

theorem sound_run : (run events).Sound :=
  Run.exec_invariant (fun s e => ((), Stream.step s e)) Sound (fun _ e h => h.step e) new sound_new
    events

theorem ordered_new : new.gate.Ordered where
  wire := List.Pairwise.nil
  quiet hfin := absurd hfin List.not_mem_nil

/-- The frames stay in order as long as the writes of a packet stream keep to the rule. -/
theorem ordered_run {events : List StreamEvent}
    (hmeets : Run.Along (fun s e => ((), Stream.step s e)) Meets new events) :
    (run events).gate.Ordered := by
  have hboth : (run events).Sound ∧ (run events).gate.Ordered := by
    apply Run.exec_invariant_along (fun s : Stream => s.Sound ∧ s.gate.Ordered) ?_
      ⟨sound_new, ordered_new⟩ hmeets
    intro s e h hmeet
    have hstep := simulates_step h.1.closing h.1.gate e
    exact ⟨h.1.step e, hstep.gate.ordered hmeet h.1.gate h.2⟩
  exact hboth.2

/-- At most one end of the stream is sent, and no data behind it where the writes of a packet stream
keep to the rule; every chunk received is at the pool, with the enqueueing call or in the queue,
those read to their end are the first ones, and after a local close has drained the queue all are at
the pool. -/
theorem close_discipline :
    (run events).wire.count .fin ≤ 1 ∧
      (Run.Along (fun s e => ((), Stream.step s e)) Meets new events →
        (run events).wire.Pairwise fun a b => a = .fin → b ≠ .psh) ∧
      (∀ id < (run events).received, (run events).returned.count id +
        (run events).custody.inHand.count id + (run events).custody.queued.count id = 1) ∧
      (run events).delivered <+: List.range (run events).received ∧
      ((run events).drained = true → (run events).enq = .idle →
        ∀ id < (run events).received, (run events).returned.count id = 1) := by
  have h := sound_run events
  refine ⟨h.gate.once, fun hmeets => (ordered_run hmeets).wire, ?_, h.custody.delivered_prefix, ?_⟩
  · exact fun id hid => h.custody.count_eq_one hid
  · intro hdrained hidle id hid
    have hone := h.custody.count_eq_one hid
    rwa [Custody.inHand_of_idle hidle, (h.custody.empty hdrained).2, List.count_nil] at hone

/-- One call at most is inside each mutex and one owes the end of the stream, which is then not yet
sent; chunks are dropped and drained only when no enqueueing call can add one. -/
theorem calls_exclusive (events : List StreamEvent) :
    let s := run events
    (∀ t u, (s.gate.role t).Locks → (s.gate.role u).Locks → t = u) ∧
      (∀ t u, (s.custody.role t).Locks → (s.custody.role u).Locks → t = u) ∧
      (∀ t u, (s.gate.role t).Wins → (s.gate.role u).Wins → t = u ∧ .fin ∉ s.wire) ∧
      ((s.dropped ≠ [] ∨ ∃ t, (s.custody.role t).Drains) →
        s.closed = true ∧ s.enq.admitted = false) := by
  have h := sound_run events
  refine ⟨fun _ _ => h.gate.locks.unique, fun _ _ => h.custody.locks.unique,
    fun t u ht hu => ⟨h.gate.unique t u ht hu, (h.gate.wins t ht).2⟩, ?_⟩
  rintro (hdropped | ⟨t, ht⟩)
  · exact (h.custody.gone hdropped).1
  · exact h.custody.sealed t ht

/-- `CloseWrite` from its first look to its end, and then a datagram. -/
def datagramAfterCloseWrite : List StreamEvent :=
  [.start 0 .closeWrite, .step 0 .go, .step 0 .go, .step 0 .go, .step 0 .go, .step 0 .go,
    .start 1 (.writeTo 1), .step 1 .go, .step 1 .go, .step 1 .go, .step 1 .go]

theorem data_behind_fin : (run datagramAfterCloseWrite).wire = [.fin, .psh] ∧
    ¬ (run datagramAfterCloseWrite).wire.Pairwise fun a b => a = .fin → b ≠ .psh := by
  have hwire : (run datagramAfterCloseWrite).wire = [.fin, .psh] := by decide
  refine ⟨hwire, ?_⟩
  decide

end Stream

end Outbound.Anytls
