import Mathlib.Data.Nat.Notation

/-! Runs of a deterministic machine that answers every input it is fed. -/
namespace Outbound.Run

open List

variable {σ τ ι ω : Type*}

def exec (step : σ → ι → ω × σ) (s : σ) (is : List ι) : σ :=
  is.foldl (fun s i => (step s i).2) s

def answers (step : σ → ι → ω × σ) : σ → List ι → List ω
  | _, [] => []
  | s, i :: is => (step s i).1 :: answers step (step s i).2 is

/-- Every input is allowed in the state it is fed to. -/
def Along (step : σ → ι → ω × σ) (P : σ → ι → Prop) : σ → List ι → Prop
  | _, [] => True
  | s, i :: is => P s i ∧ Along step P (step s i).2 is

section

variable (step : σ → ι → ω × σ)

include step

@[simp] theorem exec_nil (s : σ) : exec step s [] = s := rfl

@[simp] theorem exec_cons (s : σ) (i : ι) (is : List ι) :
    exec step s (i :: is) = exec step (step s i).2 is := rfl

theorem exec_append (s : σ) (is js : List ι) :
    exec step s (is ++ js) = exec step (exec step s is) js := by
  simp [exec, foldl_append]

end

variable {step : σ → ι → ω × σ} {s : σ} {is : List ι}

theorem along_append {P : σ → ι → Prop} {js : List ι} :
    Along step P s (is ++ js) ↔ Along step P s is ∧ Along step P (exec step s is) js := by
  induction is generalizing s with
  | nil => exact ⟨fun h => ⟨trivial, h⟩, fun h => h.2⟩
  | cons i is ih =>
    simp [Along, ih, and_assoc]

theorem exec_invariant (step : σ → ι → ω × σ) (P : σ → Prop)
    (hstep : ∀ s i, P s → P (step s i).2) (s : σ) (hs : P s) (is : List ι) :
    P (exec step s is) := by
  induction is generalizing s with
  | nil => exact hs
  | cons i is ih => exact ih _ (hstep s i hs)

theorem exec_invariant_along (P : σ → Prop) {Q : σ → ι → Prop}
    (hstep : ∀ s i, P s → Q s i → P (step s i).2) (hs : P s)
    (hrun : Along step Q s is) : P (exec step s is) := by
  induction is generalizing s with
  | nil => exact hs
  | cons i is ih => exact ih (hstep s i hs hrun.1) hrun.2

/-- What an allowed step does under an invariant, every step of an allowed run does. -/
theorem Along.of_invariant (P : σ → Prop) {Q R : σ → ι → Prop}
    (hstep : ∀ s i, P s → Q s i → R s i ∧ P (step s i).2) (hs : P s)
    (hrun : Along step Q s is) : Along step R s is := by
  induction is generalizing s with
  | nil => trivial
  | cons i is ih =>
    obtain ⟨hone, hnext⟩ := hstep s i hs hrun.1
    exact ⟨hone, ih hnext hrun.2⟩

/-- The invariant rule for a machine that can stop: what every step that does not stop keeps, every
run that does not stop keeps. -/
theorem foldlM_invariant (step : σ → ι → Option σ) (P : σ → Prop)
    (hstep : ∀ s i t, P s → step s i = some t → P t) (is : List ι) {t : σ} (hs : P s)
    (hrun : is.foldlM step s = some t) : P t := by
  induction is generalizing s with
  | nil =>
    cases hrun
    exact hs
  | cons i is ih =>
    rw [foldlM_cons] at hrun
    cases hi : step s i with
    | none => simp [hi] at hrun
    | some u =>
      rw [hi] at hrun
      exact ih (hstep s i u hs hi) hrun

/-- Where every step goes on and keeps the invariant, every run goes on and keeps it. -/
theorem foldlM_total (step : σ → ι → Option σ) (P : σ → Prop)
    (hstep : ∀ s i, P s → ∃ t, step s i = some t ∧ P t) (is : List ι) (hs : P s) :
    ∃ t, is.foldlM step s = some t ∧ P t := by
  induction is generalizing s with
  | nil => exact ⟨s, rfl, hs⟩
  | cons i is ih =>
    obtain ⟨t, hone, ht⟩ := hstep s i hs
    obtain ⟨u, hrun, hu⟩ := ih ht
    refine ⟨u, ?_, hu⟩
    simpa [hone] using hrun

/-- The answers of a machine that can stop, and the state it ends in. -/
def answersM (step : σ → ι → Option (ω × σ)) : σ → List ι → Option (List ω × σ)
  | s, [] => some ([], s)
  | s, i :: is => (step s i).bind fun r => (answersM step r.2 is).map fun t => (r.1 :: t.1, t.2)

/-- The invariant rule for what a machine has been fed and has answered so far: where every step
goes on and keeps the invariant, every run does. -/
theorem answersM_invariant (step : σ → ι → Option (ω × σ)) (Inv : σ → List (ι × ω) → Prop)
    (is : List ι) (hstep : ∀ s past, ∀ i ∈ is, Inv s past →
      ∃ o s', step s i = some (o, s') ∧ Inv s' (past ++ [(i, o)]))
    {past : List (ι × ω)} (hs : Inv s past) :
    ∃ os s', answersM step s is = some (os, s') ∧ Inv s' (past ++ is.zip os) := by
  induction is generalizing s past with
  | nil => exact ⟨[], s, rfl, by simpa using hs⟩
  | cons i is ih =>
    obtain ⟨o, s', hone, hs'⟩ := hstep s past i mem_cons_self hs
    obtain ⟨os, t, hrun, ht⟩ := ih
      (fun s past j hj => hstep s past j (mem_cons_of_mem i hj)) hs'
    refine ⟨o :: os, t, ?_, by simpa using ht⟩
    simp [answersM, hone, hrun]

theorem answersM_append (step : σ → ι → Option (ω × σ)) (s : σ) (is js : List ι) :
    answersM step s (is ++ js) = (answersM step s is).bind fun r =>
      (answersM step r.2 js).map fun t => (r.1 ++ t.1, t.2) := by
  induction is generalizing s with
  | nil => simp [answersM]
  | cons i is ih =>
    cases hi : step s i with
    | none => simp [answersM, hi]
    | some r =>
      cases his : answersM step r.2 is with
      | none => simp [answersM, hi, ih, his]
      | some t => simp [answersM, hi, ih, his, Function.comp_def]

theorem length_answersM {step : σ → ι → Option (ω × σ)} {t : σ} {os : List ω}
    (h : answersM step s is = some (os, t)) : os.length = is.length := by
  induction is generalizing s os with
  | nil =>
    cases h
    rfl
  | cons i is ih =>
    obtain ⟨⟨o, s'⟩, -, hrest⟩ := Option.bind_eq_some_iff.mp h
    obtain ⟨⟨os', t'⟩, hrun, hout⟩ := Option.map_eq_some_iff.mp hrest
    cases hout
    simp [ih hrun]

variable (step)

/-- What every step answers under an invariant, every answer of a run is. -/
theorem answers_forall (P : σ → Prop) (Q : ω → Prop)
    (hstep : ∀ s i, P s → Q (step s i).1 ∧ P (step s i).2) (s : σ) (hs : P s) (is : List ι) :
    ∀ o ∈ answers step s is, Q o := by
  induction is generalizing s with
  | nil => simp [answers]
  | cons i is ih =>
    exact forall_mem_cons.mpr ⟨(hstep s i hs).1, ih _ (hstep s i hs).2⟩

theorem map_answers {ω' : Type*} (f : ω → ω') (step : σ → ι → ω × σ) (s : σ) (is : List ι) :
    (answers step s is).map f = answers (fun s i => (f (step s i).1, (step s i).2)) s is := by
  induction is generalizing s with
  | nil => rfl
  | cons i is ih => simp [answers, ih]

theorem exec_simulation (step' : τ → ι → ω × τ) (R : σ → τ → Prop)
    (hstep : ∀ s t i, R s t → (step s i).1 = (step' t i).1 ∧ R (step s i).2 (step' t i).2)
    (s : σ) (t : τ) (h : R s t) (is : List ι) : R (exec step s is) (exec step' t is) := by
  induction is generalizing s t with
  | nil => exact h
  | cons i is ih => exact ih _ _ (hstep s t i h).2

theorem answers_simulation (step' : τ → ι → ω × τ) (R : σ → τ → Prop)
    (hstep : ∀ s t i, R s t → (step s i).1 = (step' t i).1 ∧ R (step s i).2 (step' t i).2)
    (s : σ) (t : τ) (h : R s t) (is : List ι) : answers step s is = answers step' t is := by
  induction is generalizing s t with
  | nil => rfl
  | cons i is ih =>
    obtain ⟨ha, hr⟩ := hstep s t i h
    simp only [answers, ha, ih _ _ hr]

end Outbound.Run
