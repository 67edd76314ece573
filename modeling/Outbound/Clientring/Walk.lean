import Outbound.Clientring.Ring

/-! The walk of one call, read off the clients in the order the cursor meets them. -/
namespace Outbound.Clientring

open Errors Lib List Option Elements

variable {T : Type*} {newClient : ℕ → T} {r : Ring T} {call : Call T}

/-- What holds of the ring whenever the permit is free. -/
structure Ring.Sound (newClient : ℕ → T) (r : Ring T) : Prop where
  parts : (r.ring ++ (r.removed ++ (r.closing ++ r.handed).map Prod.fst)).Perm (range r.made)
  live : ∀ elem, (r.value elem).isSome ↔ elem ∈ r.ring
  cursor : ∀ elem, r.current = some elem → elem ∈ r.ring
  clients : ∀ elem node, r.value elem = some node → node.client = newClient elem
  own : ∀ cli ∈ r.closing ++ r.handed, cli.2 = newClient cli.1
  ended : r.closed = true → r.ring = []

namespace Ring.Sound

variable (h : r.Sound newClient)

include h

theorem nodup : r.ring.Nodup := by
  have hall := h.parts.nodup_iff.mpr nodup_range
  exact (nodup_append'.mp hall).1

theorem lt_made {elem : ℕ} (hmem : elem ∈ r.ring) : elem < r.made :=
  mem_range.mp (h.parts.subset (mem_append_left _ hmem))

theorem made_notMem : r.made ∉ r.ring :=
  fun hmem => Nat.lt_irrefl _ (h.lt_made hmem)

end Ring.Sound

/-- The attempts of a walk, what the call returns, where it leaves the cursor, and whether it
constructed a client. -/
structure Trace where
  attempts : List (ℕ × Option Error)
  err : Option Error
  current : Option ℕ
  fresh : Bool

def outcome (r : Ring T) (call : Call T) (k elem : ℕ) : Option Error :=
  (r.value elem).bind (call.f k)

variable (newClient)

def freshTrace (r : Ring T) (call : Call T) (look k : ℕ) (current : Option ℕ) : Trace :=
  match call.ctx.err look with
  | some err => ⟨[], some err, current, false⟩
  | none =>
    let err := call.f k ⟨newClient r.made, -1⟩
    ⟨[(r.made, err)], err, some r.made, true⟩

def visit (newClient : ℕ → T) (r : Ring T) (call : Call T) (start : ℕ) : ℕ → List ℕ → Trace
  | k, [] => freshTrace newClient r call (2 * k) k (some start)
  | k, elem :: rest =>
    match call.ctx.err (2 * k) with
    | some err => ⟨[], some err, some elem, false⟩
    | none =>
      match outcome r call k elem with
      | none => ⟨[(elem, none)], none, some elem, false⟩
      | some err =>
        if (call.ctx.err (2 * k + 1)).isSome then ⟨[(elem, some err)], some err, some elem, false⟩
        else if rest = [] ∧ isFailoverError err = false then
          ⟨[(elem, some err)], some err, some start, false⟩
        else
          let t := visit newClient r call start (k + 1) rest
          { t with attempts := (elem, some err) :: t.attempts }

def Ring.order (r : Ring T) : List ℕ :=
  match r.current with
  | none => []
  | some start => cycleFrom r.ring start

theorem Ring.order_of_current {start : ℕ} (h : r.current = some start) :
    r.order = cycleFrom r.ring start := by
  unfold Ring.order
  rw [h]

def trace (r : Ring T) (call : Call T) : Trace :=
  match r.current with
  | none =>
    match call.ctx.err 0 with
    | some err => ⟨[], some err, none, false⟩
    | none => freshTrace newClient r call 1 0 none
  | some start => visit newClient r call start 0 r.order

def Trace.leave (t : Trace) (newClient : ℕ → T) (r : Ring T) : Ring T :=
  if t.fresh then
    { (r.insertAfterCurrent ⟨newClient r.made, -1⟩).2 with current := t.current }
  else { r with current := t.current }

/-- A walk over the pointers ends as the walk over the clients does. -/
structure Matches (r : Ring T) (tried : List (ℕ × Option Error)) (t : Trace)
    (out : Option Error × Walk T) : Prop where
  err : out.1 = t.err
  attempts : out.2.attempts = tried ++ t.attempts
  current : out.2.current = t.current
  leave : { out.2.ring with current := out.2.current } = t.leave newClient r

variable {newClient}

theorem Matches.cons {tried : List (ℕ × Option Error)} {a : ℕ × Option Error} {t : Trace}
    {out : Option Error × Walk T} (h : Matches newClient r (tried ++ [a]) t out) :
    Matches newClient r tried { t with attempts := a :: t.attempts } out where
  __ := h
  attempts := by simp [h.attempts]

theorem getNew_matches (w : Walk T) (hring : w.ring = r) (hopen : r.closed = false) :
    Matches newClient r w.attempts
      (freshTrace newClient r call w.looks w.attempts.length w.current)
      (w.getNew newClient call) := by
  subst hring
  have helem : (w.ring.insertAfterCurrent ⟨newClient w.ring.made, -1⟩).1 = w.ring.made := by
    unfold Ring.insertAfterCurrent
    cases w.ring.current <;> rfl
  unfold freshTrace Walk.getNew
  cases call.ctx.err w.looks with
  | some err => exact ⟨rfl, (append_nil _).symm, rfl, rfl⟩
  | none =>
    dsimp only
    rw [if_neg (by simp [hopen]), helem]
    exact ⟨rfl, rfl, rfl, rfl⟩

theorem tryNext_matches (h : r.Sound newClient) (hopen : r.closed = false) {start : ℕ}
    (hstart : r.current = some start) (rest : List ℕ) :
    ∀ (fuel : ℕ) (w : Walk T) (tried : List ℕ), w.ring = r → rest ≠ [] → rest.length ≤ fuel →
      r.order = tried ++ rest → w.current = rest.head? → w.looks = 2 * w.attempts.length →
      ∃ out, Walk.tryNext newClient call fuel w = some out ∧
        Matches newClient r w.attempts
          (visit newClient r call start w.attempts.length rest) out := by
  have horder := Ring.order_of_current hstart
  obtain ⟨tail, hhead⟩ := cycleFrom_eq_cons (h.cursor start hstart)
  induction rest with
  | nil => exact fun _ _ _ _ hne => absurd rfl hne
  | cons elem rest ih =>
    rintro (_ | fuel) w tried rfl - hfuel hsplit hcurrent hlooks
    · exact absurd hfuel (Nat.not_succ_le_zero _)
    have helem : elem ∈ w.ring.ring :=
      mem_cycleFrom.mp (horder ▸ hsplit ▸ mem_append_right tried mem_cons_self)
    obtain ⟨node, hnode⟩ := isSome_iff_exists.mp ((h.live elem).mpr helem)
    have hcurrent' : w.current = some elem := hcurrent
    have hnext : nextOrFront w.ring.ring elem = rest.head?.or (some start) := by
      rw [nextOrFront_of_order h.nodup (horder ▸ hsplit), hhead]
      rfl
    unfold Walk.tryNext visit
    rw [hlooks, hcurrent']
    cases hbefore : call.ctx.err (2 * w.attempts.length) with
    | some err => exact ⟨_, rfl, rfl, (append_nil _).symm, hcurrent', by rw [← hcurrent']; rfl⟩
    | none =>
      dsimp only
      rw [outcome, hnode, bind_some]
      dsimp only
      cases hout : call.f w.attempts.length node with
      | none => exact ⟨_, rfl, rfl, rfl, hcurrent', by rw [← hcurrent']; rfl⟩
      | some err =>
        dsimp only
        by_cases hafter : (call.ctx.err (2 * w.attempts.length + 1)).isSome
        · rw [if_pos hafter, if_pos hafter]
          exact ⟨_, rfl, rfl, rfl, hcurrent', by rw [← hcurrent']; rfl⟩
        · rw [if_neg hafter, if_neg hafter]
          have hmoved : (w.moveOn elem err).current = rest.head?.or (some start) := hnext
          have hlen : (w.moveOn elem err).attempts.length = w.attempts.length + 1 := length_append
          have hlooks' : (w.moveOn elem err).looks = 2 * (w.moveOn elem err).attempts.length := by
            rw [hlen, Nat.mul_add, ← hlooks]
            rfl
          cases rest with
          | nil =>
            -- back at the client the call began with
            rw [if_pos (hmoved.trans hstart.symm)]
            by_cases hover : isFailoverError err
            · rw [if_pos hover, if_neg (by simp [hover])]
              have hnew : Matches newClient w.ring (w.moveOn elem err).attempts
                  (freshTrace newClient w.ring call (w.moveOn elem err).looks
                    (w.moveOn elem err).attempts.length (w.moveOn elem err).current)
                  ((w.moveOn elem err).getNew newClient call) :=
                getNew_matches (w.moveOn elem err) rfl hopen
              rw [hlooks', hlen, hmoved] at hnew
              exact ⟨_, rfl, hnew.cons⟩
            · rw [if_neg hover, if_pos (by simp [hover])]
              exact ⟨_, rfl, rfl, rfl, hmoved, by rw [hmoved]; rfl⟩
          | cons elem' rest =>
            have hother : (w.moveOn elem err).current ≠ w.ring.current := by
              have hstarted : start ∈ tried ++ [elem] := by
                have hfirst := congrArg head? (horder.symm.trans hsplit)
                rw [hhead] at hfirst
                cases tried with
                | nil => exact some.inj hfirst ▸ mem_cons_self
                | cons x tried => exact some.inj hfirst ▸ mem_cons_self
              have hnodup : (tried ++ [elem] ++ elem' :: rest).Nodup := by
                simpa [← hsplit, horder] using nodup_cycleFrom h.nodup
              rw [hmoved, hstart]
              intro heq
              have hsame : elem' = start := some.inj heq
              exact (nodup_append'.mp hnodup).2.2 hstarted (hsame ▸ mem_cons_self)
            rw [if_neg hother, if_neg (by simp)]
            obtain ⟨out, hrun, hmatches⟩ := ih fuel (w.moveOn elem err) (tried ++ [elem]) rfl
              (cons_ne_nil elem' rest) (Nat.le_of_succ_le_succ hfuel)
              (by simp [hsplit]) hmoved hlooks'
            rw [hlen] at hmatches
            exact ⟨out, hrun, hmatches.cons⟩

/-- A call that got the permit of an open ring comes to its end, as the walk over the clients
does. -/
theorem tryNextContext_eq (h : r.Sound newClient) (hacquire : call.acquire = none)
    (hopen : r.closed = false) :
    tryNextContext newClient r call = some
      (⟨(trace newClient r call).err, (trace newClient r call).attempts⟩,
        (trace newClient r call).leave newClient r) := by
  obtain ⟨out, hrun, hmatches⟩ : ∃ out,
      Walk.tryNext newClient call (r.ring.length + 1) ⟨r, r.current, [], 0⟩ = some out ∧
        Matches newClient r [] (trace newClient r call) out := by
    unfold trace
    cases hcurrent : r.current with
    | none =>
      unfold Walk.tryNext
      cases call.ctx.err 0 with
      | some err => exact ⟨_, rfl, rfl, rfl, rfl, rfl⟩
      | none => exact ⟨_, rfl, getNew_matches ⟨r, none, [], 1⟩ rfl hopen⟩
    | some start =>
      obtain ⟨tail, hhead⟩ := cycleFrom_eq_cons (h.cursor start hcurrent)
      have horder : r.order = start :: tail := (Ring.order_of_current hcurrent).trans hhead
      have hlen : r.order.length = r.ring.length := by
        rw [Ring.order_of_current hcurrent]
        exact length_cycleFrom r.ring start
      apply tryNext_matches h hopen hcurrent r.order (r.ring.length + 1) ⟨r, some start, [], 0⟩ [] rfl
      · rw [horder]
        exact cons_ne_nil start tail
      · rw [hlen]
        exact Nat.le_succ _
      · rfl
      · rw [horder]
        rfl
      · rfl
  have hopen' : ¬ r.closed = true := by rw [hopen]; exact Bool.false_ne_true
  rw [tryNextContext, hacquire]
  simp [if_neg hopen', hrun, hmatches.err, hmatches.attempts, hmatches.leave]

/-! What a walk attempts and where it leaves the cursor. -/

theorem freshTrace_attempts (look k : ℕ) (current : Option ℕ) :
    (freshTrace newClient r call look k current).attempts.map Prod.fst =
      if (freshTrace newClient r call look k current).fresh then [r.made] else [] := by
  unfold freshTrace
  cases call.ctx.err look with
  | some err => rfl
  | none => rfl

theorem freshTrace_current (look k : ℕ) (current : Option ℕ) :
    (freshTrace newClient r call look k current).current =
      if (freshTrace newClient r call look k current).fresh then some r.made else current := by
  unfold freshTrace
  cases call.ctx.err look with
  | some err => rfl
  | none => rfl

/-- A walk stops before the next client, at it, or goes on behind it. -/
inductive Visits (newClient : ℕ → T) (r : Ring T) (call : Call T) (start k elem : ℕ)
    (rest : List ℕ) : Trace → Prop where
  | canceled (err : Error) (hbefore : call.ctx.err (2 * k) = some err) :
      Visits newClient r call start k elem rest ⟨[], some err, some elem, false⟩
  | stopped (out : Option Error) (current : ℕ) (hcurrent : current = elem ∨ current = start) :
      Visits newClient r call start k elem rest ⟨[(elem, out)], out, some current, false⟩
  | movedOn (err : Error) : Visits newClient r call start k elem rest
      { visit newClient r call start (k + 1) rest with
        attempts := (elem, some err) :: (visit newClient r call start (k + 1) rest).attempts }

theorem visit_cons (newClient : ℕ → T) (r : Ring T) (call : Call T) (start k elem : ℕ)
    (rest : List ℕ) :
    Visits newClient r call start k elem rest (visit newClient r call start k (elem :: rest)) := by
  rw [visit]
  cases hbefore : call.ctx.err (2 * k) with
  | some err => exact .canceled err hbefore
  | none =>
    cases outcome r call k elem with
    | none => exact .stopped none elem (.inl rfl)
    | some err =>
      dsimp only
      split_ifs
      · exact .stopped (some err) elem (.inl rfl)
      · exact .stopped (some err) start (.inr rfl)
      · exact .movedOn err

theorem visit_attempts (start k : ℕ) (rest : List ℕ) :
    ∃ tried, tried <+: rest ∧
      (visit newClient r call start k rest).attempts.map Prod.fst =
        (if (visit newClient r call start k rest).fresh then rest ++ [r.made] else tried) := by
  induction rest generalizing k with
  | nil => exact ⟨[], prefix_rfl, freshTrace_attempts (2 * k) k (some start)⟩
  | cons elem rest ih =>
    have hvisit := visit_cons newClient r call start k elem rest
    generalize visit newClient r call start k (elem :: rest) = t at hvisit
    cases hvisit with
    | canceled err hbefore => exact ⟨[], List.nil_prefix, rfl⟩
    | stopped out current hcurrent => exact ⟨[elem], ⟨rest, rfl⟩, rfl⟩
    | movedOn err =>
      obtain ⟨tried, htried, hattempts⟩ := ih (k + 1)
      refine ⟨elem :: tried, cons_prefix_cons.mpr ⟨rfl, htried⟩, ?_⟩
      rw [map_cons, hattempts]
      split_ifs <;> rfl

variable (newClient r call)

theorem visit_current (start k : ℕ) (rest : List ℕ) :
    ∃ elem, elem ∈ start :: rest ∧ (visit newClient r call start k rest).current =
      some (if (visit newClient r call start k rest).fresh then r.made else elem) := by
  induction rest generalizing k with
  | nil =>
    refine ⟨start, mem_cons_self, ?_⟩
    rw [visit, freshTrace_current]
    split_ifs <;> rfl
  | cons elem rest ih =>
    have hvisit := visit_cons newClient r call start k elem rest
    generalize visit newClient r call start k (elem :: rest) = t at hvisit
    cases hvisit with
    | canceled err hbefore => exact ⟨elem, mem_cons_of_mem start mem_cons_self, rfl⟩
    | stopped out current hcurrent =>
      refine ⟨current, ?_, rfl⟩
      rcases hcurrent with rfl | rfl
      · exact mem_cons_of_mem start mem_cons_self
      · exact mem_cons_self
    | movedOn err =>
      obtain ⟨elem', hmem, hcurrent⟩ := ih (k + 1)
      refine ⟨elem', ?_, hcurrent⟩
      exact cons_subset_cons start (subset_cons_self elem _) hmem

theorem trace_attempts :
    ∃ tried, tried <+: r.order ∧ (trace newClient r call).attempts.map Prod.fst =
      (if (trace newClient r call).fresh then r.order ++ [r.made] else tried) := by
  unfold trace
  cases hcurrent : r.current with
  | none =>
    have horder : r.order = [] := by rw [Ring.order, hcurrent]
    rw [horder]
    cases call.ctx.err 0 with
    | some err => exact ⟨[], List.nil_prefix, rfl⟩
    | none => exact ⟨[], List.nil_prefix, freshTrace_attempts 1 0 none⟩
  | some start => exact visit_attempts start 0 r.order

end Outbound.Clientring
