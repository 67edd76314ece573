import Outbound.Clientring.Walk

/-! The ring stays sound under every operation that takes the permit. -/
namespace Outbound.Clientring

open Errors Lib List Function Clientring.Ring Elements

variable {T : Type*} {newClient : ℕ → T} {r : Ring T} {call : Call T}

namespace Ring.Sound

theorem new : (Clientring.new : Ring T).Sound newClient where
  parts := List.Perm.refl _
  live elem := by simp [Clientring.new]
  cursor elem h := nomatch h
  clients elem node h := nomatch h
  own cli h := absurd h not_mem_nil
  ended h := nomatch h

section

variable (h : r.Sound newClient)

include h

theorem setCurrent (current : Option ℕ) (hcurrent : ∀ elem, current = some elem → elem ∈ r.ring) :
    Ring.Sound newClient { r with current } where
  __ := h
  cursor := hcurrent

theorem insert (hopen : r.closed = false) (n : ℤ) :
    Ring.Sound newClient
      { (r.insertAfterCurrent ⟨newClient r.made, n⟩).2 with current := some r.made } := by
  obtain ⟨ring', hperm, heq⟩ : ∃ ring', ring'.Perm (r.made :: r.ring) ∧
      { (r.insertAfterCurrent ⟨newClient r.made, n⟩).2 with current := some r.made } =
        { r with
          ring := ring'
          value := update r.value r.made (some ⟨newClient r.made, n⟩)
          current := some r.made
          made := r.made + 1 } := by
    unfold insertAfterCurrent
    cases hcurrent : r.current with
    | none => exact ⟨r.ring ++ [r.made], perm_append_singleton r.made r.ring, rfl⟩
    | some c => exact ⟨_, insertAfter_perm (h.cursor c hcurrent), rfl⟩
  rw [heq]
  have hmem : ∀ elem, elem ∈ ring' ↔ elem = r.made ∨ elem ∈ r.ring := fun elem =>
    hperm.mem_iff.trans mem_cons
  refine ⟨?_, fun elem => ?_, fun elem hcurrent => ?_, fun elem node hnode => ?_, h.own,
    fun hclosed => ?_⟩
  · have hrange : (range (r.made + 1)).Perm (r.made :: range r.made) := by
      rw [range_succ]
      exact perm_append_singleton r.made (range r.made)
    exact ((hperm.append_right _).trans (h.parts.cons r.made)).trans hrange.symm
  · rw [hmem]
    by_cases helem : elem = r.made
    · simp [helem]
    · simp only [update_of_ne helem, helem, false_or]
      exact h.live elem
  · exact (hmem elem).mpr (.inl (Option.some.inj hcurrent).symm)
  · by_cases helem : elem = r.made
    · subst helem
      simp only [update_self] at hnode
      exact Option.some.inj hnode ▸ rfl
    · simp only [update_of_ne helem] at hnode
      exact h.clients elem node hnode
  · cases hopen.symm.trans hclosed

theorem passiveRemove (elem : ℕ) : (r.passiveRemove elem).Sound newClient := by
  unfold Ring.passiveRemove
  by_cases hvalue : (r.value elem).isNone
  · rwa [if_pos hvalue]
  rw [if_neg hvalue]
  have hin : elem ∈ r.ring := (h.live elem).mp (by simpa [Option.isSome_iff_ne_none] using hvalue)
  have hmem : ∀ e, e ∈ r.ring.erase elem ↔ e ≠ elem ∧ e ∈ r.ring := fun e =>
    h.nodup.mem_erase_iff
  refine ⟨?_, fun e => ?_, fun e hcurrent => ?_, fun e node hnode => ?_, h.own, fun hclosed => ?_⟩
  · -- the element moves from the list to the removed ones
    have hmove : (r.ring.erase elem ++ (r.removed ++ [elem] ++
        (r.closing ++ r.handed).map Prod.fst)).Perm
        (elem :: (r.ring.erase elem ++ (r.removed ++ (r.closing ++ r.handed).map Prod.fst))) := by
      simp only [append_assoc, singleton_append]
      rw [← append_assoc, ← append_assoc]
      exact perm_middle
    exact (hmove.trans ((perm_cons_erase hin).symm.append_right _)).trans h.parts
  · rw [hmem]
    by_cases he : e = elem
    · simp [he, setValue]
    · simp only [setValue, update_of_ne he, ne_eq, he, not_false_eq_true, true_and]
      exact h.live e
  · rw [hmem]
    split_ifs at hcurrent with heq
    · exact ⟨next_ne h.nodup hcurrent, next_mem hcurrent⟩
    · refine ⟨?_, h.cursor e hcurrent⟩
      rintro rfl
      exact heq hcurrent
  · by_cases he : e = elem
    · subst he
      simp [setValue] at hnode
    · simp only [setValue, update_of_ne he] at hnode
      exact h.clients e node hnode
  · simp [h.ended hclosed]

theorem taken_eq :
    (r.ring.filterMap fun elem => (r.value elem).map fun n => (elem, n.client)) =
      r.ring.map fun elem => (elem, newClient elem) := by
  rw [← filterMap_eq_map]
  apply filterMap_congr
  intro elem helem
  obtain ⟨node, hnode⟩ := Option.isSome_iff_exists.mp ((h.live elem).mpr helem)
  simp [hnode, h.clients elem node hnode]

theorem close : r.close.Sound newClient := by
  unfold Ring.close
  rw [h.taken_eq]
  refine ⟨?_, fun elem => ?_, fun elem hnot => (nomatch hnot), fun elem node hnode => ?_,
    fun cli hcli => ?_, fun _ => rfl⟩
  · refine List.Perm.trans ?_ h.parts
    rw [perm_iff_count]
    simp only [nil_append, map_append, map_map, count_append]
    rw [show (Prod.fst ∘ fun elem => (elem, newClient elem)) = id from rfl, map_id]
    omega
  · simp only [not_mem_nil, iff_false]
    split_ifs with helem
    · exact Bool.false_ne_true
    · exact fun hsome => helem ((h.live elem).mp hsome)
  · dsimp only at hnode
    split_ifs at hnode with helem
    exact h.clients elem node hnode
  · simp only [append_assoc, mem_append, mem_map] at hcli
    rcases hcli with hcli | ⟨elem, helem, rfl⟩ | hcli
    · exact h.own cli (mem_append_left _ hcli)
    · rfl
    · exact h.own cli (mem_append_right _ hcli)

theorem handOff : r.handOff.Sound newClient := by
  unfold Ring.handOff
  cases hclosing : r.closing with
  | nil => exact h
  | cons cli closing =>
    have hmove : (closing ++ (r.handed ++ [cli])).Perm (r.closing ++ r.handed) := by
      simpa [hclosing] using perm_append_singleton cli (closing ++ r.handed)
    refine ⟨?_, h.live, h.cursor, h.clients, fun c hc => h.own c (hmove.subset hc), h.ended⟩
    exact (((hmove.map Prod.fst).append_left r.removed).append_left r.ring).trans h.parts

theorem report (elem : ℕ) (n : ℤ) : (r.report elem n).Sound newClient := by
  unfold Ring.report Ring.setValue
  refine ⟨h.parts, fun e => ?_, h.cursor, fun e node hnode => ?_, h.own, h.ended⟩
  · by_cases he : e = elem
    · subst he
      simp only [update_self, Option.isSome_map]
      exact h.live e
    · simp only [update_of_ne he]
      exact h.live e
  · by_cases he : e = elem
    · subst he
      simp only [update_self] at hnode
      obtain ⟨old, hold, rfl⟩ := Option.map_eq_some_iff.mp hnode
      exact h.clients e old hold
    · simp only [update_of_ne he] at hnode
      exact h.clients e node hnode

theorem trace_current (call : Call T) :
    ((trace newClient r call).fresh = true → (trace newClient r call).current = some r.made) ∧
      ((trace newClient r call).fresh = false →
        ∀ elem, (trace newClient r call).current = some elem → elem ∈ r.ring) := by
  unfold trace
  cases hcurrent : r.current with
  | none =>
    cases call.ctx.err 0 with
    | some err => exact ⟨fun hnot => (nomatch hnot), fun _ elem hnot => (nomatch hnot)⟩
    | none =>
      rw [freshTrace_current]
      constructor
      · intro hfresh
        rw [if_pos hfresh]
      · intro hfresh elem helem
        rw [if_neg (by rw [hfresh]; exact Bool.false_ne_true)] at helem
        exact nomatch helem
  | some start =>
    obtain ⟨elem, hmem, hcursor⟩ := visit_current newClient r call start 0 r.order
    have hring : ∀ e ∈ start :: r.order, e ∈ r.ring := by
      intro e he
      rw [order_of_current hcurrent] at he
      rcases mem_cons.mp he with rfl | he
      · exact h.cursor e hcurrent
      · exact mem_cycleFrom.mp he
    rw [hcursor]
    constructor
    · intro hfresh
      rw [if_pos hfresh]
    · intro hfresh e he
      rw [if_neg (by rw [hfresh]; exact Bool.false_ne_true)] at he
      exact Option.some.inj he ▸ hring elem hmem

theorem leave (hopen : r.closed = false) (call : Call T) :
    ((trace newClient r call).leave newClient r).Sound newClient := by
  obtain ⟨hnew, hold⟩ := h.trace_current call
  unfold Trace.leave
  cases hfresh : (trace newClient r call).fresh with
  | true =>
    rw [if_pos rfl, hnew hfresh]
    exact h.insert hopen (-1)
  | false =>
    simpa using h.setCurrent _ (hold hfresh)

end

end Ring.Sound

/-- The clients a call attempted: each once, all of the ring but for one it constructed. -/
structure AttemptsOnce (r r' : Ring T) (out : Outcome) : Prop where
  once : (out.attempts.map Prod.fst).Nodup
  known : ∀ elem ∈ out.attempts.map Prod.fst,
    elem ∈ r.ring ∨ elem = r.made ∧ r'.made = r.made + 1
  atMostOne : r'.made ≤ r.made + 1

theorem attemptsOnce_nil (r : Ring T) (err : Option Error) : AttemptsOnce r r ⟨err, []⟩ :=
  ⟨nodup_nil, fun _ h => absurd h not_mem_nil, Nat.le_succ _⟩

theorem Ring.mem_order {elem : ℕ} (helem : elem ∈ r.order) : elem ∈ r.ring := by
  cases hcurrent : r.current with
  | none =>
    rw [order, hcurrent] at helem
    exact absurd helem not_mem_nil
  | some start =>
    rw [order_of_current hcurrent] at helem
    exact mem_cycleFrom.mp helem

theorem Ring.Sound.nodup_order (h : r.Sound newClient) : r.order.Nodup := by
  cases hcurrent : r.current with
  | none =>
    rw [order, hcurrent]
    exact nodup_nil
  | some start =>
    rw [order_of_current hcurrent]
    exact nodup_cycleFrom h.nodup

theorem Trace.leave_made (t : Trace) (newClient : ℕ → T) (r : Ring T) :
    (t.leave newClient r).made = if t.fresh then r.made + 1 else r.made := by
  unfold Trace.leave insertAfterCurrent
  cases t.fresh with
  | true => cases r.current <;> rfl
  | false => rfl

theorem Ring.Sound.attemptsOnce (h : r.Sound newClient) (call : Call T) :
    AttemptsOnce r ((trace newClient r call).leave newClient r)
      ⟨(trace newClient r call).err, (trace newClient r call).attempts⟩ := by
  obtain ⟨tried, htried, hattempts⟩ := trace_attempts newClient r call
  have hmade := (trace newClient r call).leave_made newClient r
  cases hfresh : (trace newClient r call).fresh with
  | true =>
    rw [hfresh, if_pos rfl] at hattempts hmade
    refine ⟨?_, ?_, Nat.le_of_eq hmade⟩
    · rw [hattempts]
      apply h.nodup_order.append (nodup_singleton r.made)
      intro elem helem hnew
      exact h.made_notMem (mem_singleton.mp hnew ▸ Ring.mem_order helem)
    · rw [hattempts]
      intro elem helem
      rcases mem_append.mp helem with helem | helem
      · exact .inl (Ring.mem_order helem)
      · exact .inr ⟨mem_singleton.mp helem, hmade⟩
  | false =>
    rw [hfresh, if_neg Bool.false_ne_true] at hattempts hmade
    refine ⟨?_, ?_, Nat.le_succ_of_le (Nat.le_of_eq hmade)⟩
    · rw [hattempts]
      exact h.nodup_order.sublist htried.sublist
    · rw [hattempts]
      exact fun elem helem => .inl (Ring.mem_order (htried.subset helem))

theorem Ring.Sound.tryNextContext (h : r.Sound newClient) (call : Call T) :
    ∃ out r', tryNextContext newClient r call = some (out, r') ∧ r'.Sound newClient ∧
      AttemptsOnce r r' out := by
  cases hacquire : call.acquire with
  | some err =>
    refine ⟨⟨some err, []⟩, r, ?_, h, attemptsOnce_nil r (some err)⟩
    rw [Clientring.tryNextContext, hacquire]
  | none =>
    cases hclosed : r.closed with
    | true =>
      refine ⟨_, r, ?_, h, attemptsOnce_nil r (some (.sentinel .errClientClosed))⟩
      rw [Clientring.tryNextContext, hacquire]
      exact if_pos hclosed
    | false =>
      refine ⟨_, _, tryNextContext_eq h hacquire hclosed, h.leave hclosed call, h.attemptsOnce call⟩

theorem Ring.Sound.step (h : r.Sound newClient) (e : Event T) :
    ∃ r', step newClient r e = some r' ∧ r'.Sound newClient := by
  cases e with
  | tryNext call =>
    obtain ⟨out, r', hcall, hsound, -⟩ := h.tryNextContext call
    refine ⟨r', ?_, hsound⟩
    rw [Clientring.step, hcall]
    rfl
  | passiveRemove elem => exact ⟨_, rfl, h.passiveRemove elem⟩
  | close => exact ⟨_, rfl, h.close⟩
  | handOff => exact ⟨_, rfl, h.handOff⟩
  | report elem n => exact ⟨_, rfl, h.report elem n⟩

theorem run_sound (newClient : ℕ → T) (events : List (Event T)) :
    ∃ r, run newClient events = some r ∧ r.Sound newClient :=
  Run.foldlM_total (step newClient) (Ring.Sound newClient) (fun _ e h => h.step e) events .new

theorem run_append (newClient : ℕ → T) (events later : List (Event T))
    (hrun : run newClient events = some r) :
    run newClient (events ++ later) = later.foldlM (step newClient) r := by
  rw [run, foldlM_append, ← run, hrun]
  rfl

theorem step_of_closed (newClient : ℕ → T) (hclosed : r.closed = true) (e : Event T) :
    ∃ r', step newClient r e = some r' ∧ r'.closed = true ∧ r'.made = r.made := by
  cases e with
  | tryNext call =>
    refine ⟨r, ?_, hclosed, rfl⟩
    rw [step, tryNextContext]
    cases call.acquire with
    | some err => rfl
    | none =>
      simp [hclosed]
  | passiveRemove elem =>
    refine ⟨_, rfl, ?_⟩
    unfold passiveRemove
    by_cases hvalue : (r.value elem).isNone
    · rw [if_pos hvalue]
      exact ⟨hclosed, rfl⟩
    · rw [if_neg hvalue]
      exact ⟨hclosed, rfl⟩
  | close => exact ⟨_, rfl, rfl, rfl⟩
  | handOff =>
    refine ⟨_, rfl, ?_⟩
    unfold handOff
    cases r.closing with
    | nil => exact ⟨hclosed, rfl⟩
    | cons cli closing => exact ⟨hclosed, rfl⟩
  | report elem n => exact ⟨_, rfl, hclosed, rfl⟩

theorem handOff_all (closing : List (ℕ × T)) (hclosing : r.closing = closing) :
    ∃ r', (replicate closing.length .handOff).foldlM (step newClient) r = some r' ∧
      r'.closing = [] ∧ r'.handed = r.handed ++ closing := by
  induction closing generalizing r with
  | nil => exact ⟨r, rfl, hclosing, (append_nil _).symm⟩
  | cons cli closing ih =>
    have hone : r.handOff = { r with closing, handed := r.handed ++ [cli] } := by
      unfold handOff
      rw [hclosing]
    obtain ⟨r', hrun, hempty, hhanded⟩ := ih (r := r.handOff) (by rw [hone])
    refine ⟨r', hrun, hempty, ?_⟩
    simp [hhanded, hone]

/-- Whatever calls, removals and closes take the permit: the cursor is nowhere or on an element of
the list; a call attempts every client at most once and at most one new one; every client
constructed is in the list, removed by its own hook, or held once by a `Close` that hands it over;
and after a `Close` the list stays empty and no client is constructed. -/
theorem ring_safety (newClient : ℕ → T) (events : List (Event T)) :
    ∃ r, run newClient events = some r ∧
      (∀ elem, r.current = some elem →
        elem ∈ r.ring ∧ ∃ node, r.value elem = some node ∧ node.client = newClient elem) ∧
      (∀ call, ∃ out r', tryNextContext newClient r call = some (out, r') ∧
        AttemptsOnce r r' out) ∧
      (r.ring ++ (r.removed ++ (r.closing ++ r.handed).map Prod.fst)).Perm (range r.made) ∧
      (∀ cli ∈ r.closing ++ r.handed, cli.2 = newClient cli.1) ∧
      (∃ r', run newClient (events ++ replicate r.closing.length .handOff) = some r' ∧
        r'.closing = [] ∧ r'.handed = r.handed ++ r.closing) ∧
      (∀ later, ∃ r', run newClient (events ++ .close :: later) = some r' ∧
        r'.ring = [] ∧ r'.made = r.made) := by
  obtain ⟨r, hrun, h⟩ := run_sound newClient events
  refine ⟨r, hrun, ?_, ?_, h.parts, h.own, ?_, ?_⟩
  · intro elem hcurrent
    have hmem := h.cursor elem hcurrent
    obtain ⟨node, hnode⟩ := Option.isSome_iff_exists.mp ((h.live elem).mpr hmem)
    exact ⟨hmem, node, hnode, h.clients elem node hnode⟩
  · intro call
    obtain ⟨out, r', hcall, -, honce⟩ := h.tryNextContext call
    exact ⟨out, r', hcall, honce⟩
  · rw [run_append newClient events _ hrun]
    exact handOff_all r.closing rfl
  · intro later
    have hstep : ∀ (s : Ring T) (e : Event T),
        s.Sound newClient ∧ s.closed = true ∧ s.made = r.made → ∃ t,
          step newClient s e = some t ∧
            (t.Sound newClient ∧ t.closed = true ∧ t.made = r.made) := by
      rintro s e ⟨hs, hclosed, hmade⟩
      obtain ⟨t, hone, ht⟩ := hs.step e
      obtain ⟨u, hone', hclosed', hmade'⟩ := step_of_closed newClient hclosed e
      obtain rfl : t = u := Option.some.inj (hone.symm.trans hone')
      exact ⟨t, hone, ht, hclosed', hmade'.trans hmade⟩
    obtain ⟨r', hlater, hsound, hclosed, hmade⟩ :=
      Run.foldlM_total (step newClient) _ hstep later ⟨h.close, rfl, rfl⟩
    refine ⟨r', ?_, hsound.ended hclosed, hmade⟩
    rwa [run_append newClient events _ hrun]

end Outbound.Clientring
