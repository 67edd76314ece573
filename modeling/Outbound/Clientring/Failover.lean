import Outbound.Clientring.Safety

/-! When a call constructs a client, and when it goes on past an error. -/
namespace Outbound.Clientring

open Errors Lib List Option Bool Elements Walk

variable {T : Type*} {newClient : ℕ → T} {r : Ring T} {call : Call T}

/-- A new client only after every client of the ring was attempted and failed over; an error of
another class ends the call and is what it returns. -/
structure OnlyWhenNeeded (r r' : Ring T) (out : Outcome) : Prop where
  exhausted : r'.made ≠ r.made → ∀ elem ∈ r.ring, (∃ o, (elem, o) ∈ out.attempts) ∧
    ∀ o, (elem, o) ∈ out.attempts → ∃ err, o = some err ∧ isFailoverError err = true
  returned : ∀ before elem err after, out.attempts = before ++ (elem, some err) :: after →
    isFailoverError err = false → after = [] ∧ out.err = some err

/-- Among the clients `rest`, after `k` attempts: one that is not the last, and that fails after all
before it failed and with the context live, fails with an error of the failover class, or with the
error the context has ended with before the next attempt. -/
def FailsOverFrom (r : Ring T) (call : Call T) (k : ℕ) (rest : List ℕ) : Prop :=
  ∀ i elem err, rest[i]? = some elem → i + 1 < rest.length →
    (∀ j elem', j < i → rest[j]? = some elem' → outcome r call (k + j) elem' ≠ none) →
    call.ctx.err (2 * (k + i) + 1) = none → outcome r call (k + i) elem = some err →
    isFailoverError err = true ∨ call.ctx.err (2 * (k + i) + 2) = some err

/-- The calls that keep to the rule: the cursor is not lost in a ring that has clients, unless the
context is over, and the errors on the way fail over. -/
structure KeepsToRing (r : Ring T) (call : Call T) : Prop where
  cursor : r.current = none → r.ring ≠ [] → call.ctx.err 1 ≠ none
  errors : FailsOverFrom r call 0 r.order

theorem failsOverFrom_nil (k : ℕ) : FailsOverFrom r call k [] := by
  intro i elem err helem
  cases helem.symm

variable {rest : List ℕ}

theorem failsOverFrom_of_ended {k : ℕ} {e : Error}
    (hended : call.ctx.err (2 * k + 1) = some e) : FailsOverFrom r call k rest := by
  intro i elem err helem hlast hfailed hlive hout
  have hle : 2 * k + 1 ≤ 2 * (k + i) + 1 := by omega
  rw [Context.live_of_le hle hlive] at hended
  exact nomatch hended

variable {elem : ℕ}

theorem failsOverFrom_of_success {k : ℕ}
    (hout : outcome r call k elem = none) : FailsOverFrom r call k (elem :: rest) := by
  intro i elem' err helem hlast hfailed hlive hout'
  cases i with
  | zero =>
    obtain rfl : elem = elem' := some.inj helem
    rw [Nat.add_zero, hout] at hout'
    exact nomatch hout'
  | succ i => exact absurd hout (hfailed 0 elem (Nat.succ_pos i) rfl)

variable {err : Error}

theorem failsOverFrom_cons {k : ℕ}
    (hout : outcome r call k elem = some err) (hlive : call.ctx.err (2 * k + 1) = none) :
    FailsOverFrom r call k (elem :: rest) ↔
      (rest = [] ∨ isFailoverError err = true ∨ call.ctx.err (2 * k + 2) = some err) ∧
        FailsOverFrom r call (k + 1) rest := by
  have hindex : ∀ i, k + (i + 1) = k + 1 + i := fun i => by omega
  constructor
  · intro h
    constructor
    · by_cases hrest : rest = []
      · exact .inl hrest
      · have hlast : 0 + 1 < (elem :: rest).length := Nat.succ_lt_succ (length_pos_iff.mpr hrest)
        exact .inr (h 0 elem err rfl hlast (fun j _ hj => absurd hj (Nat.not_lt_zero j)) hlive hout)
    · intro i elem' err' helem hlast hfailed hlive' hout'
      have hfailed' : ∀ j e, j < i + 1 → (elem :: rest)[j]? = some e →
          outcome r call (k + j) e ≠ none := by
        intro j e hj he
        cases j with
        | zero =>
          obtain rfl : elem = e := some.inj he
          simp [hout]
        | succ j =>
          rw [hindex]
          exact hfailed j e (Nat.lt_of_succ_lt_succ hj) he
      have hrest := h (i + 1) elem' err' helem (Nat.succ_lt_succ hlast) hfailed'
      rw [hindex] at hrest
      exact hrest hlive' hout'
  · rintro ⟨hhead, hrest⟩ i elem' err' helem hlast hfailed hlive' hout'
    cases i with
    | zero =>
      obtain rfl : elem = elem' := some.inj helem
      rw [Nat.add_zero, hout] at hout'
      obtain rfl := some.inj hout'
      rcases hhead with rfl | hhead
      · exact absurd hlast (Nat.lt_irrefl _)
      · exact hhead
    | succ i =>
      rw [hindex] at hlive' hout' ⊢
      apply hrest i elem' err' helem (Nat.lt_of_succ_lt_succ hlast) ?_ hlive' hout'
      intro j e hj he
      have := hfailed (j + 1) e (Nat.succ_lt_succ hj) he
      rwa [hindex] at this

structure Trace.Keeps (r : Ring T) (t : Trace) : Prop where
  exhausted : t.fresh = true → ∀ a ∈ t.attempts, a.1 ≠ r.made →
    ∃ err, a.2 = some err ∧ isFailoverError err = true
  returned : ∀ before elem err after, t.attempts = before ++ (elem, some err) :: after →
    isFailoverError err = false → after = [] ∧ t.err = some err

variable {t : Trace}

theorem keeps_nil (h : t.attempts = []) : t.Keeps r where
  exhausted _ a ha := absurd (h ▸ ha) not_mem_nil
  returned before elem err after hsplit _ := by
    rw [h] at hsplit
    exact absurd hsplit.symm (append_ne_nil_of_right_ne_nil before (cons_ne_nil _ after))

theorem keeps_singleton (h : t.attempts = [(elem, t.err)])
    (hfresh : t.fresh = true → elem = r.made) : t.Keeps r where
  exhausted hf a ha hne := by
    rw [h, mem_singleton] at ha
    exact absurd (ha ▸ hfresh hf) hne
  returned before elem' err after hsplit _ := by
    rw [h] at hsplit
    rcases append_eq_singleton_iff.mp hsplit.symm with ⟨-, hone⟩ | ⟨-, hnone⟩
    · obtain ⟨hattempt, rfl⟩ := cons.inj hone
      exact ⟨rfl, (Prod.mk.inj hattempt).2.symm⟩
    · exact absurd hnone (cons_ne_nil _ after)

theorem freshTrace_keeps (look k : ℕ) (current : Option ℕ) :
    (freshTrace newClient r call look k current).Keeps r := by
  unfold freshTrace
  cases call.ctx.err look with
  | some err => exact keeps_nil rfl
  | none => exact keeps_singleton rfl fun _ => rfl

theorem keeps_cons_of_failover (hover : isFailoverError err = true) :
    Trace.Keeps r { t with attempts := (elem, some err) :: t.attempts } ↔ t.Keeps r := by
  constructor
  · intro h
    refine ⟨fun hf a ha => h.exhausted hf a (mem_cons_of_mem _ ha), ?_⟩
    intro before elem' err' after hsplit
    apply h.returned ((elem, some err) :: before) elem' err' after
    rw [cons_append, ← hsplit]
  · intro h
    refine ⟨fun hf a ha hne => ?_, fun before elem' err' after hsplit hother => ?_⟩
    · rcases mem_cons.mp ha with rfl | ha
      · exact ⟨err, rfl, hover⟩
      · exact h.exhausted hf a ha hne
    · cases before with
      | nil =>
        obtain ⟨hhead, -⟩ := cons.inj hsplit
        obtain rfl := some.inj (Prod.mk.inj hhead).2
        cases hother.symm.trans hover
      | cons a before => exact h.returned before elem' err' after (cons.inj hsplit).2 hother

/-- Past an error of another class the walk breaks the rule, unless the context is found to have
ended with that very error. -/
theorem keeps_cons_of_other {start k elem' : ℕ} (hother : isFailoverError err = false) :
    Trace.Keeps r { visit newClient r call start (k + 1) (elem' :: rest) with
        attempts := (elem, some err) ::
          (visit newClient r call start (k + 1) (elem' :: rest)).attempts } ↔
      (elem' :: rest = [] ∨ false = true ∨ call.ctx.err (2 * k + 2) = some err) ∧
        FailsOverFrom r call (k + 1) (elem' :: rest) := by
  constructor
  · intro h
    obtain ⟨hnone, herr⟩ := h.returned [] elem err _ rfl hother
    have hvisit := visit_cons newClient r call start (k + 1) elem' rest
    generalize visit newClient r call start (k + 1) (elem' :: rest) = t at hvisit hnone herr
    cases hvisit with
    | canceled e hbefore =>
      obtain rfl : e = err := some.inj herr
      exact ⟨.inr (.inr hbefore), failsOverFrom_of_ended (call.ctx.sticky _ e hbefore)⟩
    | _ => cases hnone
  · rintro ⟨hnil | hfalse | hended, -⟩
    · cases hnil
    · cases hfalse
    · have hvisit : visit newClient r call start (k + 1) (elem' :: rest) =
          ⟨[], some err, some elem', false⟩ := by
        rw [visit, show 2 * (k + 1) = 2 * k + 2 from rfl, hended]
      rw [hvisit]
      exact keeps_singleton rfl fun hnot => absurd hnot false_ne_true

theorem visit_keeps_iff (newClient : ℕ → T) (r : Ring T) (call : Call T) (start k : ℕ)
    (rest : List ℕ) :
    (visit newClient r call start k rest).Keeps r ↔ FailsOverFrom r call k rest := by
  induction rest generalizing k with
  | nil =>
    exact iff_of_true (freshTrace_keeps (2 * k) k (some start)) (failsOverFrom_nil k)
  | cons elem rest ih =>
    rw [visit]
    cases hbefore : call.ctx.err (2 * k) with
    | some e =>
      exact iff_of_true (keeps_nil rfl) (failsOverFrom_of_ended (call.ctx.sticky (2 * k) e hbefore))
    | none =>
      cases hout : outcome r call k elem with
      | none =>
        exact iff_of_true (keeps_singleton rfl fun hnot => absurd hnot false_ne_true)
          (failsOverFrom_of_success hout)
      | some err =>
        dsimp only
        cases hafter : call.ctx.err (2 * k + 1) with
        | some e =>
          exact iff_of_true (keeps_singleton rfl fun hnot => absurd hnot false_ne_true)
            (failsOverFrom_of_ended hafter)
        | none =>
          have hlive : ¬ (none : Option Error).isSome = true := false_ne_true
          rw [if_neg hlive, failsOverFrom_cons hout hafter]
          cases hover : isFailoverError err with
          | true =>
            rw [if_neg (by simp), keeps_cons_of_failover hover, ih (k + 1)]
            simp
          | false =>
            cases rest with
            | nil =>
              refine iff_of_true (keeps_singleton rfl fun hnot => absurd hnot false_ne_true) ⟨.inl rfl, ?_⟩
              exact failsOverFrom_nil (k + 1)
            | cons elem' rest =>
              simpa using keeps_cons_of_other hover

/-- The rule for what a call did is the rule for its walk, and that every client of the ring stands
in the order of the walk. -/
theorem onlyWhenNeeded_iff (h : r.Sound newClient) :
    OnlyWhenNeeded r ((trace newClient r call).leave newClient r)
        ⟨(trace newClient r call).err, (trace newClient r call).attempts⟩ ↔
      ((trace newClient r call).fresh = true → ∀ elem ∈ r.ring, elem ∈ r.order) ∧
        (trace newClient r call).Keeps r := by
  obtain ⟨tried, htried, hattempts⟩ := trace_attempts newClient r call
  have hmade := (trace newClient r call).leave_made newClient r
  generalize trace newClient r call = t at hattempts hmade ⊢
  constructor
  · intro hneeded
    have hexhausted : t.fresh = true → ∀ elem ∈ r.ring, _ := fun hfresh => by
      apply hneeded.exhausted
      rw [hmade, if_pos hfresh]
      exact Nat.succ_ne_self r.made
    refine ⟨fun hfresh elem helem => ?_, fun hfresh a ha hne => ?_, hneeded.returned⟩
    · obtain ⟨⟨o, ho⟩, -⟩ := hexhausted hfresh elem helem
      have hfst : elem ∈ t.attempts.map Prod.fst := mem_map_of_mem ho
      rw [hattempts, if_pos hfresh] at hfst
      rcases mem_append.mp hfst with hin | hnew
      · exact hin
      · exact absurd (mem_singleton.mp hnew ▸ helem) h.made_notMem
    · have hfst : a.1 ∈ t.attempts.map Prod.fst := mem_map_of_mem ha
      rw [hattempts, if_pos hfresh] at hfst
      rcases mem_append.mp hfst with hin | hnew
      · exact (hexhausted hfresh a.1 (Ring.mem_order hin)).2 a.2 ha
      · exact absurd (mem_singleton.mp hnew) hne
  · rintro ⟨hall, hkeeps⟩
    refine ⟨fun hnew elem helem => ?_, hkeeps.returned⟩
    have hfresh : t.fresh = true := by
      by_contra hold
      rw [hmade, if_neg hold] at hnew
      exact hnew rfl
    have hne : elem ≠ r.made := fun heq => h.made_notMem (heq ▸ helem)
    constructor
    · have hfst : elem ∈ t.attempts.map Prod.fst := by
        rw [hattempts, if_pos hfresh]
        exact mem_append_left _ (hall hfresh elem helem)
      obtain ⟨a, ha, rfl⟩ := mem_map.mp hfst
      exact ⟨a.2, ha⟩
    · exact fun o ho => hkeeps.exhausted hfresh (elem, o) ho hne

theorem trace_keepsToRing_iff :
    (((trace newClient r call).fresh = true → ∀ elem ∈ r.ring, elem ∈ r.order) ∧
      (trace newClient r call).Keeps r) ↔ KeepsToRing r call := by
  unfold trace
  cases hcurrent : r.current with
  | some start =>
    have hall : ∀ elem ∈ r.ring, elem ∈ r.order := fun elem helem => by
      rw [Ring.order_of_current hcurrent]
      exact mem_cycleFrom.mpr helem
    rw [visit_keeps_iff]
    constructor
    · exact fun hkeeps => ⟨fun hnone => absurd hnone (hcurrent ▸ some_ne_none start), hkeeps.2⟩
    · exact fun hkeeps => ⟨fun _ => hall, hkeeps.errors⟩
  | none =>
    have horder : r.order = [] := by rw [Ring.order, hcurrent]
    have herrors : FailsOverFrom r call 0 r.order := horder ▸ failsOverFrom_nil 0
    cases hbefore : call.ctx.err 0 with
    | some e =>
      have hended : call.ctx.err 1 = some e := call.ctx.sticky 0 e hbefore
      apply iff_of_true ⟨fun hnot => absurd hnot false_ne_true, keeps_nil rfl⟩
      refine ⟨fun _ _ hlive => ?_, herrors⟩
      rw [hended] at hlive
      cases hlive
    | none =>
      have hfresh : (freshTrace newClient r call 1 0 none).fresh = (call.ctx.err 1).isNone := by
        unfold freshTrace
        cases call.ctx.err 1 with
        | some e => rfl
        | none => rfl
      rw [hfresh, horder]
      constructor
      · rintro ⟨hall, -⟩
        refine ⟨fun _ hring hlive => hring ?_, herrors⟩
        rw [hlive] at hall
        exact eq_nil_iff_forall_not_mem.mpr fun elem helem =>
          not_mem_nil (hall rfl elem helem)
      · intro hkeeps
        refine ⟨fun hlive elem helem => ?_, freshTrace_keeps 1 0 none⟩
        exact absurd (isNone_iff_eq_none.mp hlive)
          (hkeeps.cursor hcurrent (ne_nil_of_mem helem))

theorem onlyWhenNeeded_refl (r : Ring T) (err : Option Error) : OnlyWhenNeeded r r ⟨err, []⟩ where
  exhausted h := absurd rfl h
  returned before _ _ after hsplit := by
    exact absurd hsplit.symm (append_ne_nil_of_right_ne_nil before (cons_ne_nil _ after))

/-- A new client is constructed only when it is needed, and an error of another class is returned
at once, exactly in the calls that do not get the permit or keep to the ring. -/
theorem created_only_when_needed_iff (newClient : ℕ → T) (events : List (Event T)) (call : Call T) :
    ∃ r out r', run newClient events = some r ∧
      tryNextContext newClient r call = some (out, r') ∧
      (OnlyWhenNeeded r r' out ↔ call.acquire ≠ none ∨ KeepsToRing r call) := by
  obtain ⟨r, hrun, h⟩ := run_sound newClient events
  cases hacquire : call.acquire with
  | some err =>
    refine ⟨r, ⟨some err, []⟩, r, hrun, ?_, ?_⟩
    · rw [tryNextContext, hacquire]
    · exact iff_of_true (onlyWhenNeeded_refl r (some err)) (.inl (some_ne_none err))
  | none =>
    cases hclosed : r.closed with
    | true =>
      have hring := h.ended hclosed
      have hcurrent : r.current = none := by
        cases hcurrent : r.current with
        | none => rfl
        | some elem => exact absurd (hring ▸ h.cursor elem hcurrent) not_mem_nil
      have horder : r.order = [] := by rw [Ring.order, hcurrent]
      refine ⟨r, ⟨some (.sentinel .errClientClosed), []⟩, r, hrun, ?_, ?_⟩
      · rw [tryNextContext, hacquire]
        exact if_pos hclosed
      · apply iff_of_true (onlyWhenNeeded_refl r _)
        exact .inr ⟨fun _ hne => absurd hring hne, horder ▸ failsOverFrom_nil 0⟩
    | false =>
      refine ⟨r, _, _, hrun, tryNextContext_eq h hacquire hclosed, ?_⟩
      rw [onlyWhenNeeded_iff h, trace_keepsToRing_iff]
      simp

def holdOn : Error := .sentinel .errOperationHold

def eof : Error := .errorf "EOF"

theorem isFailoverError_holdOn : isFailoverError holdOn = true := by
  simp [isFailoverError, show Error.is holdOn .errOperationHold = true from rfl]

theorem isFailoverError_eof : isFailoverError eof = false := by
  rfl

def twoClients : List (Event ℕ) :=
  replicate 2 (.tryNext ⟨none, .background, fun _ _ => some holdOn⟩)

def otherError : Call ℕ :=
  ⟨none, .background, fun i _ => [eof, holdOn][i]?⟩

theorem otherError_run :
    ((run id twoClients).bind fun r => (tryNextContext id r otherError).map fun o =>
      (r.ring, r.made, o.1, o.2.made)) =
      some ([0, 1], 2, ⟨none, [(1, some eof), (0, some holdOn), (2, none)]⟩, 3) := by
  simp [run, twoClients, step, tryNextContext, tryNext, getNew, new, Context.background,
    Ring.insertAfterCurrent, Ring.setValue, look, attempt, moveOn,
    nextOrFront, Elements.next, insertAfter, isFailoverError_holdOn, otherError,
    isFailoverError_eof, Function.update]

def answered : Call ℕ := ⟨none, .background, fun _ _ => none⟩

theorem lostCursor_run :
    ((run id (twoClients ++ [.passiveRemove 1])).bind fun r =>
      (tryNextContext id r answered).map fun o => (r.ring, r.made, o.1, o.2.made)) =
      some ([0], 2, ⟨none, [(2, none)]⟩, 3) := by
  simp [run, twoClients, step, tryNextContext, tryNext, getNew, new, Context.background,
    Ring.insertAfterCurrent, Ring.setValue, look, attempt, moveOn,
    Ring.passiveRemove, nextOrFront, Elements.next, insertAfter,
    isFailoverError_holdOn, answered, Function.update]

/-- A client is constructed after one of the two in the ring failed with another error; and one is
constructed without an attempt on the client that is left when the last of the list is removed. -/
theorem constructed_when_not_needed :
    (∃ r out r', run id twoClients = some r ∧ tryNextContext id r otherError = some (out, r') ∧
      ¬ OnlyWhenNeeded r r' out) ∧
    (∃ r out r', run id (twoClients ++ [.passiveRemove 1]) = some r ∧
      tryNextContext id r answered = some (out, r') ∧ ¬ OnlyWhenNeeded r r' out) := by
  constructor
  · obtain ⟨r, hrun, hcall⟩ := bind_eq_some_iff.mp otherError_run
    obtain ⟨⟨out, r'⟩, hout, hfields⟩ := map_eq_some_iff.mp hcall
    refine ⟨r, out, r', hrun, hout, fun hneeded => ?_⟩
    simp only [Prod.mk.injEq] at hfields
    obtain ⟨-, -, rfl, -⟩ := hfields
    have hlast := hneeded.returned [] 1 eof [(0, some holdOn), (2, none)] rfl isFailoverError_eof
    exact nomatch hlast.1
  · obtain ⟨r, hrun, hcall⟩ := bind_eq_some_iff.mp lostCursor_run
    obtain ⟨⟨out, r'⟩, hout, hfields⟩ := map_eq_some_iff.mp hcall
    refine ⟨r, out, r', hrun, hout, fun hneeded => ?_⟩
    simp only [Prod.mk.injEq] at hfields
    obtain ⟨hring, hmade, rfl, hmade'⟩ := hfields
    have hnew : r'.made ≠ r.made := by omega
    have hin : 0 ∈ r.ring := hring ▸ mem_singleton_self 0
    obtain ⟨⟨o, ho⟩, -⟩ := hneeded.exhausted hnew 0 hin
    simp at ho

end Outbound.Clientring
