import Outbound.Lib.Delivery

/-! A reader in a pooled buffer that goes back to its pool when the last of the read and the close
finds it drained. A read is several steps, and a close may come between any two of them. -/
namespace Outbound.Lib.Pooled

open List Option

variable {σ ι α ε : Type*}

/-- A reader: a read with its result and the error that ends the read side, if it found one; `none`
where it panics. -/
structure Reader (σ ι α ε : Type*) where
  read : σ → ι → Option (ReadOut α ε × Option ε × σ)
  window : σ → List α
  closed : ε

/-- A read whose result ends the read side, or that leaves the reader over, says so, unless the
reader was over before. -/
def Reader.Tells (m : Reader σ ι α ε) (ends : ReadOut α ε → Prop) (past : σ → Prop) : Prop :=
  ∀ s i out terminal s', m.read s i = some (out, terminal, s') → ends out ∨ past s' →
    terminal ≠ none ∨ past s

/-- Where the one read at a time is. -/
inductive Phase (ι α ε : Type*) where
  | idle
  | inside (i : ι)
  | done (out : Option (ReadOut α ε)) (terminal : Option ε)
  | leaving (out : Option (ReadOut α ε))

/-- The connection. How often its buffer went to the pool and what its reads returned are kept for
the statements. -/
structure Conn (σ ι α ε : Type*) where
  reader : σ
  phase : Phase ι α ε
  readers : ℕ
  released : Bool
  termErr : Option ε
  puts : ℕ
  returned : List (ReadOut α ε)

inductive Event (ι : Type*) where
  | start (i : ι)
  | finish
  | record
  | exit
  | close

def Phase.isIdle : Phase ι α ε → Bool
  | .idle => true
  | _ => false

def Phase.held : Phase ι α ε → List α
  | .idle => []
  | .inside _ => []
  | .done out _ => (out.map ReadOut.data).getD []
  | .leaving out => (out.map ReadOut.data).getD []

def new (s : σ) : Conn σ ι α ε := ⟨s, .idle, 0, false, none, 0, []⟩

namespace Conn

variable (m : Reader σ ι α ε) (c : Conn σ ι α ε)

def recordErr (e : ε) : Conn σ ι α ε := { c with termErr := c.termErr.or (some e) }

def releaseIfDrained : Conn σ ι α ε :=
  if c.released || c.readers != 0 || c.termErr.isNone || !(m.window c.reader).isEmpty then c
  else { c with released := true, puts := c.puts + 1 }

def start (i : ι) : Conn σ ι α ε :=
  if c.released then { c with returned := c.returned ++ [⟨[], c.termErr⟩] }
  else { c with readers := c.readers + 1, phase := .inside i }

def finish (i : ι) : Conn σ ι α ε :=
  match m.read c.reader i with
  | some (out, terminal, s) => { c with reader := s, phase := .done (some out) terminal }
  | none => { c with phase := .done none none }

def record (out : Option (ReadOut α ε)) (terminal : Option ε) : Conn σ ι α ε :=
  match terminal with
  | some e => { c.recordErr e with phase := .leaving out }
  | none => { c with phase := .leaving out }

def exit (out : Option (ReadOut α ε)) : Conn σ ι α ε :=
  { c with readers := c.readers - 1, phase := .idle, returned := c.returned ++ out.toList
    }.releaseIfDrained m

def close : Conn σ ι α ε := (c.recordErr m.closed).releaseIfDrained m

/-- A step that is not due changes nothing. -/
def step (e : Event ι) : Conn σ ι α ε :=
  match e, c.phase with
  | .start i, .idle => c.start i
  | .finish, .inside i => c.finish m i
  | .record, .done out terminal => c.record out terminal
  | .exit, .leaving out => c.exit m out
  | .close, _ => c.close m
  | _, _ => c

inductive Moves : Conn σ ι α ε → Prop
  | stay : Moves c
  | start (i : ι) (h : c.phase = .idle) : Moves (c.start i)
  | finish (i : ι) (h : c.phase = .inside i) : Moves (c.finish m i)
  | record (out : Option (ReadOut α ε)) (terminal : Option ε) (h : c.phase = .done out terminal) :
      Moves (c.record out terminal)
  | exit (out : Option (ReadOut α ε)) (h : c.phase = .leaving out) : Moves (c.exit m out)
  | close : Moves (c.close m)

theorem step_moves (e : Event ι) : c.Moves m (c.step m e) := by
  unfold step
  cases e with
  | start i => cases hphase : c.phase <;> first | exact .start i hphase | exact .stay
  | finish => cases hphase : c.phase <;> first | exact .finish _ hphase | exact .stay
  | record => cases hphase : c.phase <;> first | exact .record _ _ hphase | exact .stay
  | exit => cases hphase : c.phase <;> first | exact .exit _ hphase | exact .stay
  | close => exact .close

/-- The buffer goes to the pool at most once; when it is there, no read is under way and nothing is
left in the window; and it is there when the read side is over, the window empty and no read under
way. -/
structure Sound : Prop where
  count : c.readers = if c.phase.isIdle then 0 else 1
  puts : c.puts = if c.released then 1 else 0
  gone : c.released = true → c.phase.isIdle = true ∧ m.window c.reader = [] ∧ c.termErr ≠ none
  settled : c.phase.isIdle = true → c.termErr ≠ none → m.window c.reader = [] → c.released = true

structure Kept : Prop where
  count : c.readers = if c.phase.isIdle then 0 else 1
  puts : c.puts = if c.released then 1 else 0
  gone : c.released = true → c.phase.isIdle = true ∧ m.window c.reader = [] ∧ c.termErr ≠ none

variable {m c}

theorem Sound.kept (h : c.Sound m) : c.Kept m := ⟨h.count, h.puts, h.gone⟩

theorem Kept.recordErr (h : c.Kept m) (e : ε) : (c.recordErr e).Kept m where
  __ := h
  gone := by
    intro hreleased
    obtain ⟨hidle, hwindow, hterm⟩ := h.gone hreleased
    refine ⟨hidle, hwindow, ?_⟩
    change c.termErr.or (some e) ≠ none
    cases hc : c.termErr with
    | none => exact absurd hc hterm
    | some e' => exact some_ne_none e'

theorem Kept.releaseIfDrained (h : c.Kept m) : (c.releaseIfDrained m).Sound m := by
  unfold Conn.releaseIfDrained
  split_ifs with hkeep
  · refine ⟨h.count, h.puts, h.gone, fun hidle hterm hwindow => ?_⟩
    have hcount := h.count
    rw [hidle, if_pos rfl] at hcount
    simpa [hcount, hterm, hwindow] using hkeep
  · simp only [Bool.or_eq_true, not_or, Bool.not_eq_true, bne_eq_false_iff_eq, isNone_eq_false_iff,
      Bool.not_eq_false', List.isEmpty_iff] at hkeep
    obtain ⟨⟨⟨hreleased, hreaders⟩, hterm⟩, hwindow⟩ := hkeep
    have hidle : c.phase.isIdle = true := by
      have hcount := h.count
      rw [hreaders] at hcount
      by_contra hnot
      rw [if_neg hnot] at hcount
      exact absurd hcount Nat.zero_ne_one
    have hputs := h.puts
    rw [hreleased, if_neg Bool.false_ne_true] at hputs
    refine ⟨h.count, ?_, fun _ => ⟨hidle, hwindow, ?_⟩, fun _ _ _ => rfl⟩
    · change c.puts + 1 = 1
      rw [hputs]
    · exact isSome_iff_ne_none.mp hterm

section

variable (h : c.Sound m)

include h

theorem Sound.not_released (hphase : c.phase.isIdle = false) : c.released = false := by
  cases hreleased : c.released with
  | false => rfl
  | true =>
    have hidle := (h.gone hreleased).1
    rw [hphase] at hidle
    cases hidle

theorem Sound.inside (hphase : c.phase.isIdle = false) {c' : Conn σ ι α ε}
    (hphase' : c'.phase.isIdle = false) (hreaders : c'.readers = c.readers)
    (hreleased : c'.released = c.released) (hputs : c'.puts = c.puts) : c'.Sound m := by
  have hnot := h.not_released hphase
  refine ⟨?_, ?_, fun hyes => ?_, fun hidle => ?_⟩
  · rw [hreaders, h.count, hphase, hphase']
  · rw [hputs, hreleased]
    exact h.puts
  · rw [hreleased, hnot] at hyes
    cases hyes
  · rw [hphase'] at hidle
    cases hidle

theorem Sound.start (hidle : c.phase.isIdle = true) (i : ι) : (c.start i).Sound m := by
  unfold Conn.start
  split_ifs with hreleased
  · exact ⟨h.count, h.puts, h.gone, h.settled⟩
  · refine ⟨?_, h.puts, fun hyes => absurd hyes hreleased, fun hyes => absurd hyes Bool.false_ne_true⟩
    have hcount := h.count
    rw [hidle, if_pos rfl] at hcount
    change c.readers + 1 = 1
    rw [hcount]

section

variable (hphase : c.phase.isIdle = false) (out : Option (ReadOut α ε))

include hphase

theorem Sound.finish (i : ι) : (c.finish m i).Sound m := by
  unfold Conn.finish
  cases m.read c.reader i with
  | none => exact h.inside hphase rfl rfl rfl rfl
  | some r => exact h.inside hphase rfl rfl rfl rfl

theorem Sound.record (terminal : Option ε) : (c.record out terminal).Sound m := by
  cases terminal with
  | none => exact h.inside hphase rfl rfl rfl rfl
  | some e => exact h.inside hphase rfl rfl rfl rfl

theorem Sound.exit : (c.exit m out).Sound m := by
  have hnot := h.not_released hphase
  have hcount := h.count
  rw [hphase, if_neg Bool.false_ne_true] at hcount
  apply Kept.releaseIfDrained
  refine ⟨?_, h.puts, fun hyes => ?_⟩
  · change c.readers - 1 = 0
    rw [hcount]
  · cases hnot.symm.trans hyes

end

theorem Sound.close : (c.close m).Sound m :=
  (h.kept.recordErr m.closed).releaseIfDrained

theorem Sound.step (e : Event ι) : (c.step m e).Sound m := by
  have hmoves := step_moves m c e
  generalize c.step m e = c' at hmoves
  cases hmoves with
  | stay => exact h
  | start i hphase => exact h.start (by rw [hphase]; rfl) i
  | finish i hphase => exact h.finish (by rw [hphase]; rfl) i
  | record out terminal hphase => exact h.record (by rw [hphase]; rfl) out terminal
  | exit out hphase => exact h.exit (by rw [hphase]; rfl) out
  | close => exact h.close

end

theorem sound_new (s : σ) : (new s : Conn σ ι α ε).Sound m :=
  ⟨rfl, rfl, fun hyes => absurd hyes Bool.false_ne_true, fun _ hterm => absurd rfl hterm⟩

theorem releaseIfDrained_eq (m : Reader σ ι α ε) (c : Conn σ ι α ε) :
    (c.releaseIfDrained m).reader = c.reader ∧ (c.releaseIfDrained m).phase = c.phase ∧
      (c.releaseIfDrained m).returned = c.returned ∧ (c.releaseIfDrained m).termErr = c.termErr := by
  unfold releaseIfDrained
  split_ifs
  · exact ⟨rfl, rfl, rfl, rfl⟩
  · exact ⟨rfl, rfl, rfl, rfl⟩

/-- After the release nothing changes any more, and a read reports the recorded error. -/
theorem step_of_released (h : c.Sound m) (hreleased : c.released = true) (e : Event ι) :
    (c.step m e).released = true ∧ (c.step m e).termErr = c.termErr ∧
      ∃ outs, (c.step m e).returned = c.returned ++ outs ∧ ∀ out ∈ outs, out = ⟨[], c.termErr⟩ := by
  obtain ⟨hidle, -, hterm⟩ := h.gone hreleased
  have hmoves := step_moves m c e
  generalize c.step m e = c' at hmoves
  have hnone : ∀ {phase : Phase ι α ε}, c.phase = phase → phase.isIdle = false → False := by
    intro phase hphase hnot
    rw [hphase, hnot] at hidle
    exact Bool.false_ne_true hidle
  cases hmoves with
  | stay => exact ⟨hreleased, rfl, [], (append_nil _).symm, fun out hout => absurd hout not_mem_nil⟩
  | start i hphase =>
    unfold start
    rw [if_pos hreleased]
    exact ⟨hreleased, rfl, [⟨[], c.termErr⟩], rfl, fun out hout => mem_singleton.mp hout⟩
  | finish i hphase => exact (hnone hphase rfl).elim
  | record out terminal hphase => exact (hnone hphase rfl).elim
  | exit out hphase => exact (hnone hphase rfl).elim
  | close =>
    have hrecord : c.recordErr m.closed = c := by
      obtain ⟨e, he⟩ := ne_none_iff_exists'.mp hterm
      unfold recordErr
      rw [he]
      change ({ c with termErr := some e } : Conn σ ι α ε) = c
      rw [← he]
    have hkeep : c.close m = c := by
      rw [close, hrecord, releaseIfDrained, hreleased]
      rfl
    rw [hkeep]
    exact ⟨hreleased, rfl, [], (append_nil _).symm, fun out hout => absurd hout not_mem_nil⟩

variable (c)

theorem recordErr_termErr (e : ε) : (c.recordErr e).termErr ≠ none := by
  change c.termErr.or (some e) ≠ none
  cases c.termErr with
  | none => exact some_ne_none e
  | some e' => exact some_ne_none e'

theorem step_termErr (e : Event ι) :
    (c.termErr ≠ none → (c.step m e).termErr ≠ none) ∧
      (e = .close → (c.step m e).termErr ≠ none) := by
  have hclose : (c.close m).termErr ≠ none := by
    rw [close, (releaseIfDrained_eq m _).2.2.2]
    exact recordErr_termErr c m.closed
  constructor
  · intro hterm
    have hmoves := step_moves m c e
    generalize c.step m e = c' at hmoves
    cases hmoves with
    | stay => exact hterm
    | start i hphase =>
      unfold start
      split_ifs
      · exact hterm
      · exact hterm
    | finish i hphase =>
      unfold finish
      cases m.read c.reader i with
      | none => exact hterm
      | some r => exact hterm
    | record out terminal hphase =>
      cases terminal with
      | none => exact hterm
      | some e => exact recordErr_termErr c e
    | exit out hphase =>
      rwa [exit, (releaseIfDrained_eq m _).2.2.2]
    | close => exact hclose
  · rintro rfl
    exact hclose

variable {c}

/-- An error that ends the read side is recorded before it is returned, and so is the one that a
reader keeps for its later reads. -/
structure Recorded (ends : ReadOut α ε → Prop) (past : σ → Prop) (c : Conn σ ι α ε) : Prop where
  returned : ∀ out ∈ c.returned, ends out → c.termErr ≠ none
  done : ∀ out terminal, c.phase = .done (some out) terminal → ends out →
    terminal ≠ none ∨ c.termErr ≠ none
  leaving : ∀ out, c.phase = .leaving (some out) → ends out → c.termErr ≠ none
  past : past c.reader → c.termErr ≠ none ∨ ∃ out e, c.phase = .done out (some e)

theorem Recorded.step {ends : ReadOut α ε → Prop} {past : σ → Prop} (hread : m.Tells ends past)
    (hsound : c.Sound m) (h : c.Recorded ends past) (e : Event ι) :
    (c.step m e).Recorded ends past := by
  have hmono := (step_termErr (m := m) c e).1
  have hmoves := step_moves m c e
  generalize c.step m e = c' at hmoves hmono
  have hreturned : ∀ out ∈ c.returned, ends out → c'.termErr ≠ none :=
    fun out hout hends => hmono (h.returned out hout hends)
  -- a reader that is over has its error recorded, but for a read that is about to record it
  have hover : ∀ {phase}, c.phase = phase → (∀ out e, phase ≠ .done out (some e)) →
      past c.reader → c.termErr ≠ none := by
    rintro phase rfl hnot hyes
    exact (h.past hyes).resolve_right fun ⟨out, e, heq⟩ => hnot out e heq
  cases hmoves with
  | stay => exact h
  | start i hphase =>
    unfold Conn.start at hreturned ⊢
    split_ifs at hreturned ⊢ with hreleased
    · refine ⟨fun out hout hends => ?_, h.done, h.leaving, h.past⟩
      rcases mem_append.mp hout with hout | hout
      · exact h.returned out hout hends
      · exact (hsound.gone hreleased).2.2
    · exact ⟨hreturned, fun out terminal hnot => (nomatch hnot), fun out hnot => (nomatch hnot),
        fun hyes => .inl (hover hphase (fun out e hnot => (nomatch hnot)) hyes)⟩
  | finish i hphase =>
    have hbefore := hover hphase fun out e hnot => (nomatch hnot)
    unfold Conn.finish at hreturned ⊢
    cases hout : m.read c.reader i with
    | none =>
      exact ⟨h.returned, fun out terminal hnot => (nomatch hnot), fun out hnot => (nomatch hnot),
        fun hyes => .inl (hbefore hyes)⟩
    | some r =>
      have htells := hread _ _ _ _ _ hout
      refine ⟨h.returned, fun out' terminal' heq hends => ?_, fun out hnot => (nomatch hnot),
        fun hyes => ?_⟩
      · obtain ⟨hsome, rfl⟩ := Phase.done.inj heq
        cases hsome
        exact (htells (.inl hends)).imp_right hbefore
      · rcases htells (.inr hyes) with hterminal | hyes
        · obtain ⟨e, he⟩ := ne_none_iff_exists'.mp hterminal
          exact .inr ⟨some r.1, e, congrArg _ he⟩
        · exact .inl (hbefore hyes)
  | record out terminal hphase =>
    cases terminal with
    | none =>
      refine ⟨h.returned, fun out terminal hnot => (nomatch hnot), fun out' heq hends => ?_,
        fun hyes => .inl (hover hphase (fun out e hnot => (nomatch hnot)) hyes)⟩
      cases heq
      exact (h.done out' none hphase hends).resolve_left (absurd rfl)
    | some e =>
      exact ⟨hreturned, fun out terminal hnot => (nomatch hnot),
        fun _ _ _ => recordErr_termErr c e, fun _ => .inl (recordErr_termErr c e)⟩
  | exit out hphase =>
    obtain ⟨hreader, hidle, houts, hterm⟩ := releaseIfDrained_eq m
      { c with readers := c.readers - 1, phase := .idle, returned := c.returned ++ out.toList }
    unfold Conn.exit
    refine ⟨fun out' hout hends => ?_, fun out' terminal heq => ?_, fun out' heq => ?_,
      fun hyes => ?_⟩
    · rw [houts] at hout
      rw [hterm]
      rcases mem_append.mp hout with hout | hout
      · exact h.returned out' hout hends
      · rw [mem_toList] at hout
        exact h.leaving out' (by rw [hphase, hout]) hends
    · rw [hidle] at heq
      exact nomatch heq
    · rw [hidle] at heq
      exact nomatch heq
    · rw [hreader] at hyes
      rw [hterm]
      exact .inl (hover hphase (fun out e hnot => (nomatch hnot)) hyes)
  | close =>
    have hterm : (c.close m).termErr ≠ none := by
      unfold Conn.close
      rw [(releaseIfDrained_eq m (c.recordErr m.closed)).2.2.2]
      exact recordErr_termErr c m.closed
    exact ⟨fun _ _ _ => hterm, fun _ _ _ _ => .inr hterm, fun _ _ _ => hterm, fun _ => .inl hterm⟩

def contents (total : σ → List α) (c : Conn σ ι α ε) : List α :=
  received c.returned ++ (c.phase.held ++ total c.reader)

theorem contents_step {total : σ → List α}
    (hread : ∀ s i out terminal s', m.read s i = some (out, terminal, s') →
      total s = out.data ++ total s') (c : Conn σ ι α ε) (e : Event ι) :
    (c.step m e).contents total = c.contents total := by
  have hmoves := step_moves m c e
  generalize c.step m e = c' at hmoves
  cases hmoves with
  | stay => rfl
  | start i hphase =>
    unfold start contents
    split_ifs
    · simp [received]
    · rw [hphase]
      rfl
  | finish i hphase =>
    unfold finish contents
    cases hout : m.read c.reader i with
    | none =>
      rw [hphase]
      rfl
    | some r =>
      rw [hphase, hread _ _ _ _ _ hout]
      rfl
  | record out terminal hphase =>
    unfold record contents
    rw [hphase]
    cases terminal <;> rfl
  | exit out hphase =>
    obtain ⟨hreader, hidle, hreturned, -⟩ := releaseIfDrained_eq m
      { c with readers := c.readers - 1, phase := .idle, returned := c.returned ++ out.toList }
    unfold exit contents
    rw [hreader, hidle, hreturned, hphase]
    cases out <;> simp [Phase.held, received]
  | close =>
    obtain ⟨hreader, hidle, hreturned, -⟩ := releaseIfDrained_eq m (c.recordErr m.closed)
    unfold close contents
    rw [hreader, hidle, hreturned]
    rfl

end Conn

def run (m : Reader σ ι α ε) (s : σ) (events : List (Event ι)) : Conn σ ι α ε :=
  Run.exec (fun c e => ((), c.step m e)) (new s) events

variable {m : Reader σ ι α ε}

theorem sound_run (s : σ) (events : List (Event ι)) : (run m s events).Sound m :=
  Run.exec_invariant _ (fun c : Conn σ ι α ε => c.Sound m) (fun _ e h => h.step e) _
    (Conn.sound_new s) events

theorem contents_run {total : σ → List α}
    (hread : ∀ s i out terminal s', m.read s i = some (out, terminal, s') →
      total s = out.data ++ total s') (s : σ) (events : List (Event ι)) :
    (run m s events).contents total = total s :=
  Run.exec_invariant _ (fun c : Conn σ ι α ε => c.contents total = total s)
    (fun c e h => (Conn.contents_step hread c e).trans h) _ rfl events

theorem termErr_of_close (s : σ) {events : List (Event ι)} (h : .close ∈ events) :
    (run m s events).termErr ≠ none := by
  obtain ⟨before, later, rfl⟩ := append_of_mem h
  rw [run, Run.exec_append, ← run, Run.exec_cons]
  exact Run.exec_invariant _ (fun c : Conn σ ι α ε => c.termErr ≠ none)
    (fun c e => (Conn.step_termErr c e).1) _ ((Conn.step_termErr (run m s before) .close).2 rfl) later

theorem recorded_run {ends : ReadOut α ε → Prop} {past : σ → Prop} (hread : m.Tells ends past)
    {s : σ} (hfresh : ¬ past s) (events : List (Event ι)) :
    (run m s events).Recorded ends past := by
  have hboth := Run.exec_invariant (fun c e => ((), c.step m e))
    (fun c : Conn σ ι α ε => c.Sound m ∧ c.Recorded ends past)
    (fun c e h => ⟨h.1.step e, h.2.step hread h.1 e⟩) (new s)
    ⟨Conn.sound_new s, ⟨fun out hout => absurd hout not_mem_nil,
      fun out terminal hnot => (nomatch hnot), fun out hnot => (nomatch hnot),
      fun hyes => absurd hyes hfresh⟩⟩ events
  exact hboth.2

/-- A close, or a returned error that ends the read side, is recorded. -/
theorem termErr_of_ends {ends : ReadOut α ε → Prop} {past : σ → Prop} (hread : m.Tells ends past)
    {s : σ} (hfresh : ¬ past s) {events : List (Event ι)}
    (h : .close ∈ events ∨ ∃ out ∈ (run m s events).returned, ends out) :
    (run m s events).termErr ≠ none := by
  rcases h with hclose | ⟨out, hout, hends⟩
  · exact termErr_of_close s hclose
  · exact (recorded_run hread hfresh events).returned out hout hends

theorem run_of_released (s : σ) (before later : List (Event ι))
    (hreleased : (run m s before).released = true) :
    ∃ outs, (run m s (before ++ later)).returned = (run m s before).returned ++ outs ∧
      ∀ out ∈ outs, out = ⟨[], (run m s before).termErr⟩ := by
  have hstep : ∀ (c : Conn σ ι α ε) (e : Event ι),
      (c.Sound m ∧ c.released = true ∧ c.termErr = (run m s before).termErr ∧
        ∃ outs, c.returned = (run m s before).returned ++ outs ∧
          ∀ out ∈ outs, out = ⟨[], (run m s before).termErr⟩) →
      (c.step m e).Sound m ∧ (c.step m e).released = true ∧
        (c.step m e).termErr = (run m s before).termErr ∧
        ∃ outs, (c.step m e).returned = (run m s before).returned ++ outs ∧
          ∀ out ∈ outs, out = ⟨[], (run m s before).termErr⟩ := by
    rintro c e ⟨hsound, hreleased, hterm, outs, hreturned, houts⟩
    obtain ⟨hreleased', hterm', outs', hreturned', houts'⟩ := Conn.step_of_released hsound hreleased e
    refine ⟨hsound.step e, hreleased', hterm'.trans hterm, outs ++ outs', ?_, fun out hout => ?_⟩
    · simp [hreturned', hreturned]
    · rcases mem_append.mp hout with hout | hout
      · exact houts out hout
      · rw [houts' out hout, hterm]
  have hkept := Run.exec_invariant (fun c e => ((), c.step m e)) _ hstep (run m s before)
    ⟨sound_run s before, hreleased, rfl, [], (append_nil _).symm,
      fun out hout => absurd hout not_mem_nil⟩ later
  rw [run, Run.exec_append, ← run]
  exact hkept.2.2.2

end Outbound.Lib.Pooled
