import Outbound.Transport.Grpc.Conn

/-! Whose result a write reports. -/
namespace Outbound.Transport.Grpc

open Lib List Function Option List.Subset Sender Requests WriteSide
open WritePhase (noConfusion)

def WritePhase.entry : WritePhase → Option Bytes
  | .locked _ data => some data
  | .ready _ _ data => some data
  | .waiting _ _ data => some data
  | _ => none

namespace WriteSide

variable {c i q : ℕ} {d : Deadline} {closed : Bool} {w w' : WriteSide} {reqs reqs' : Requests}

/-- The request `q` is on the way of the write `i`, or holds its result. -/
inductive Awaits (c i : ℕ) (reqs : Requests) (w : WriteSide) (q : ℕ) : Prop where
  | queued (hch : w.sendCh = some q) (hhunk : (reqs q).hunk.1 = (c, i)) (hdone : (reqs q).done = none)
  | sending (hsender : w.sender = .sending q) (hhunk : (reqs q).hunk.1 = (c, i))
      (hdone : (reqs q).done = none)
  | putting (hsender : w.sender = .putting q) (e : Option Err)
      (hdone : (reqs q).done = some ((c, i), e)) (hresult : ((c, i), e) ∈ w.results)
  | pooled (hplace : (reqs q).place = .pooled) (e : Option Err)
      (hdone : (reqs q).done = some ((c, i), e)) (hresult : ((c, i), e) ∈ w.results)

/-- What the write `i` may report: the result of the `Send` of its own data. -/
def Reports (w : WriteSide) (c i : ℕ) (res : WriteResult) : Prop :=
  ∃ data e, (i, data) ∈ w.entered ∧ ((c, i), e) ∈ w.results ∧ res = report data (c, i) e

structure Own (c : ℕ) (reqs : Requests) (w : WriteSide) : Prop where
  entered : ∀ i data, (w.writes i).entry = some data → (i, data) ∈ w.entered
  ready : ∀ i ctx q data, w.writes i = .ready ctx q data → (reqs q).done = none
  waiting : ∀ i ctx q data, w.writes i = .waiting ctx q data → w.Awaits c i reqs q
  log : ∀ i n err of, (i, .outcome n err of) ∈ w.log → Reports w c i (.outcome n err of)

theorem own_new : new.Own c Requests.new where
  entered _ _ h := nomatch h
  ready _ _ _ _ h := nomatch h
  waiting _ _ _ _ h := nomatch h
  log _ _ _ _ h := absurd h not_mem_nil

section

variable (h : w.Awaits c i reqs q)

include h

theorem Awaits.place (hsound : w.Sound c reqs) :
    (reqs q).place = .queue c ∨ (reqs q).place = .sender c ∨ (reqs q).place = .pooled := by
  cases h with
  | queued hch hhunk hdone => exact .inl (hsound.queue q hch)
  | sending hsender hhunk hdone => exact .inr (.inl (hsound.sender q (.inl hsender)))
  | putting hsender e hdone hresult => exact .inr (.inl (hsound.sender q (.inr hsender)))
  | pooled hplace e hdone hresult => exact .inr (.inr hplace)

theorem Awaits.atSender (hsound : w.Sound c reqs) (hplace : (reqs q).place = .sender c) :
    w.sender = .sending q ∧ (reqs q).hunk.1 = (c, i) ∨
      w.sender = .putting q ∧ ∃ e, (reqs q).done = some ((c, i), e) ∧ ((c, i), e) ∈ w.results := by
  cases h with
  | queued hch hhunk hdone => exact nomatch hplace.symm.trans (hsound.queue q hch)
  | sending hsender hhunk hdone => exact .inl ⟨hsender, hhunk⟩
  | putting hsender e hdone hresult => exact .inr ⟨hsender, e, hdone, hresult⟩
  | pooled hpooled e hdone hresult => exact nomatch hplace.symm.trans hpooled

theorem Awaits.done {of : Tag} {e : Option Err}
    (hdone : (reqs q).done = some (of, e)) : of = (c, i) ∧ ((c, i), e) ∈ w.results := by
  cases h with
  | queued hch hhunk hnone => exact nomatch hnone.symm.trans hdone
  | sending hsender hhunk hnone => exact nomatch hnone.symm.trans hdone
  | putting hsender e' hsome hresult =>
    obtain ⟨rfl, rfl⟩ := Prod.mk.inj (some.inj (hsome.symm.trans hdone))
    exact ⟨rfl, hresult⟩
  | pooled hplace e' hsome hresult =>
    obtain ⟨rfl, rfl⟩ := Prod.mk.inj (some.inj (hsome.symm.trans hdone))
    exact ⟨rfl, hresult⟩

theorem Awaits.keep (hreq : reqs' q = reqs q) (hch : w.sendCh = some q → w'.sendCh = some q)
    (hsender : w.sender = .sending q ∨ w.sender = .putting q → w'.sender = w.sender)
    (hresults : w.results ⊆ w'.results) : w'.Awaits c i reqs' q := by
  cases h with
  | queued hq hhunk hdone => exact .queued (hch hq) (hreq ▸ hhunk) (hreq ▸ hdone)
  | sending hq hhunk hdone =>
    exact .sending ((hsender (.inl hq)).trans hq) (hreq ▸ hhunk) (hreq ▸ hdone)
  | putting hq e hdone hresult =>
    exact .putting ((hsender (.inr hq)).trans hq) e (hreq ▸ hdone) (hresults hresult)
  | pooled hplace e hdone hresult => exact .pooled (hreq ▸ hplace) e (hreq ▸ hdone) (hresults hresult)

end

variable {res : WriteResult}

theorem Reports.mono (h : Reports w c i res) (hentered : w.entered ⊆ w'.entered)
    (hresults : w.results ⊆ w'.results) : Reports w' c i res := by
  obtain ⟨data, e, hdata, hresult, hres⟩ := h
  exact ⟨data, e, hentered hdata, hresults hresult, hres⟩

theorem Own.keep (h : w.Own c reqs)
    (hwrites : ∀ j, w'.writes j = w.writes j ∨ (∀ ctx q data, w'.writes j ≠ .ready ctx q data) ∧
      (∀ ctx q data, w'.writes j ≠ .waiting ctx q data) ∧
      ∀ data, (w'.writes j).entry = some data → (j, data) ∈ w'.entered)
    (hreqs : ∀ q j ctx data, w'.writes j = w.writes j →
      w.writes j = .ready ctx q data ∨ w.writes j = .waiting ctx q data → reqs' q = reqs q)
    (hch : ∀ q, w.sendCh = some q → w'.sendCh = some q)
    (hsender : ∀ q, w.sender = .sending q ∨ w.sender = .putting q → w'.sender = w.sender)
    (hentered : w.entered ⊆ w'.entered) (hresults : w.results ⊆ w'.results)
    (hlog : ∀ j n err of, (j, .outcome n err of) ∈ w'.log →
      (j, .outcome n err of) ∈ w.log ∨ Reports w' c j (.outcome n err of)) : w'.Own c reqs' where
  entered j data hj := by
    rcases hwrites j with heq | ⟨-, -, hentry⟩
    · exact hentered (h.entered j data (heq ▸ hj))
    · exact hentry data hj
  ready j ctx q data hj := by
    rcases hwrites j with heq | ⟨hready, -, -⟩
    · have hold : w.writes j = .ready ctx q data := heq ▸ hj
      rw [hreqs q j ctx data heq (.inl hold)]
      exact h.ready j ctx q data hold
    · exact absurd hj (hready ctx q data)
  waiting j ctx q data hj := by
    rcases hwrites j with heq | ⟨-, hwaiting, -⟩
    · have hold : w.writes j = .waiting ctx q data := heq ▸ hj
      exact (h.waiting j ctx q data hold).keep (hreqs q j ctx data heq (.inr hold)) (hch q)
        (hsender q) hresults
    · exact absurd hj (hwaiting ctx q data)
  log j n err of hj := by
    rcases hlog j n err of hj with hold | hnew
    · exact (h.log j n err of hold).mono hentered hresults
    · exact hnew

variable {phase : WritePhase}

theorem writes_setPhase (hready : ∀ ctx q data, phase ≠ .ready ctx q data)
    (hwaiting : ∀ ctx q data, phase ≠ .waiting ctx q data) {entered : List (ℕ × Bytes)}
    (hentry : ∀ data, phase.entry = some data → (i, data) ∈ entered) (j : ℕ) :
    update w.writes i phase j = w.writes j ∨
      (∀ ctx q data, update w.writes i phase j ≠ .ready ctx q data) ∧
      (∀ ctx q data, update w.writes i phase j ≠ .waiting ctx q data) ∧
      ∀ data, (update w.writes i phase j).entry = some data → (j, data) ∈ entered := by
  by_cases heq : j = i
  · subst heq
    simpa using .inr ⟨hready, hwaiting, hentry⟩
  · rw [update_of_ne heq]
    exact .inl rfl

theorem Own.finish (h : w.Own c reqs) (hsender : w'.sender = w.sender)
    (hch : w'.sendCh = w.sendCh) (hwrites : w'.writes = w.writes) (hentered : w'.entered = w.entered)
    (hresults : w'.results = w.results) (hlog : w'.log = w.log)
    (hres : ∀ n err of, res = .outcome n err of → Reports w c i res)
    (hreqs : ∀ q j ctx data, j ≠ i →
      w.writes j = .ready ctx q data ∨ w.writes j = .waiting ctx q data → reqs' q = reqs q) :
    (w'.finish i res).Own c reqs' := by
  apply h.keep
  · rw [WriteSide.finish, WriteSide.setPhase, hwrites]
    apply writes_setPhase
    · exact fun _ _ _ => noConfusion
    · exact fun _ _ _ => noConfusion
    · exact fun data hnot => absurd hnot.symm (some_ne_none data)
  · intro q j ctx data hsame hold
    by_cases heq : j = i
    · subst heq
      have hreturned : (w'.finish j res).writes j = .returned := update_self ..
      rw [hreturned] at hsame
      rw [← hsame] at hold
      rcases hold with hold | hold <;> exact noConfusion hold
    · exact hreqs q j ctx data heq hold
  · exact fun q hq => hch.trans hq
  · exact fun q _ => hsender
  · exact hentered ▸ refl _
  · exact hresults ▸ refl _
  · intro j n err of hj
    have hmem : (j, .outcome n err of) ∈ w.log ++ [(i, res)] := hlog ▸ hj
    rcases mem_append.mp hmem with hmem | hmem
    · exact .inl hmem
    · obtain ⟨rfl, heq⟩ := Prod.mk.inj (mem_singleton.mp hmem)
      obtain ⟨data, e, hdata, hresult, hreport⟩ := hres n err of heq.symm
      exact .inr ⟨data, e, hentered ▸ hdata, hresults ▸ hresult, heq ▸ hreport⟩

theorem Sound.only (h : w.Sound c reqs) (hi : (w.writes i).inside = true) {j ctx q : ℕ} {data : Bytes}
    (hne : j ≠ i) : ¬ (w.writes j = .ready ctx q data ∨ w.writes j = .waiting ctx q data) := by
  have hout := h.alone hi hne
  rintro (hj | hj) <;> rw [hj] at hout <;> exact nomatch hout

theorem Own.moveInside (h : w.Own c reqs) (hsound : w.Sound c reqs)
    (hinside : (w.writes i).inside = true) (hwrites : w'.writes = update w.writes i phase)
    (hentered : w'.entered = w.entered) (hresults : w'.results = w.results) (hlog : w'.log = w.log)
    (hentry : phase.entry = (w.writes i).entry)
    (hready : ∀ ctx q data, phase = .ready ctx q data → (reqs' q).done = none)
    (hwaiting : ∀ ctx q data, phase = .waiting ctx q data → w'.Awaits c i reqs' q) :
    w'.Own c reqs' := by
  have hcases : ∀ j, j = i ∧ w'.writes j = phase ∨ j ≠ i ∧ w'.writes j = w.writes j := by
    intro j
    rw [hwrites]
    by_cases heq : j = i
    · exact .inl ⟨heq, by simp [heq]⟩
    · exact .inr ⟨heq, update_of_ne heq _ _⟩
  refine ⟨fun j data hj => ?_, fun j ctx q data hj => ?_, fun j ctx q data hj => ?_,
    fun j n err of hj => ?_⟩
  · rw [hentered]
    rcases hcases j with ⟨rfl, heq⟩ | ⟨-, heq⟩ <;> rw [heq] at hj
    · exact h.entered j data (hentry.symm.trans hj)
    · exact h.entered j data hj
  · rcases hcases j with ⟨rfl, heq⟩ | ⟨hne, heq⟩ <;> rw [heq] at hj
    · exact hready ctx q data hj
    · exact absurd (.inl hj) (hsound.only hinside hne)
  · rcases hcases j with ⟨rfl, heq⟩ | ⟨hne, heq⟩ <;> rw [heq] at hj
    · exact hwaiting ctx q data hj
    · exact absurd (.inr hj) (hsound.only hinside hne)
  · rw [hlog] at hj
    exact (h.log j n err of hj).mono (hentered ▸ refl _) (hresults ▸ refl _)

theorem Own.moveSender (h : w.Own c reqs) (hwrites : w'.writes = w.writes)
    (hentered : w'.entered = w.entered) (hresults : w.results ⊆ w'.results) (hlog : w'.log = w.log)
    (hdone : ∀ i ctx q data, w.writes i = .ready ctx q data → (reqs' q).done = (reqs q).done)
    (hawaits : ∀ i q, w.Awaits c i reqs q → w'.Awaits c i reqs' q) : w'.Own c reqs' where
  entered i data hi := by
    rw [hentered]
    exact h.entered i data (hwrites ▸ hi)
  ready i ctx q data hi := by
    rw [hwrites] at hi
    rw [hdone i ctx q data hi]
    exact h.ready i ctx q data hi
  waiting i ctx q data hi := hawaits i q (h.waiting i ctx q data (hwrites ▸ hi))
  log i n err of hi := (h.log i n err of (hlog ▸ hi)).mono (hentered ▸ refl _) hresults

section

variable (h : w.Own c reqs)

include h

theorem Own.begin (hnew : phase.inside = false) : (w.setPhase i phase).Own c reqs := by
  apply h.keep
  · apply writes_setPhase
    · exact fun _ _ _ heq => absurd hnew (by rw [heq]; exact Bool.noConfusion)
    · exact fun _ _ _ heq => absurd hnew (by rw [heq]; exact Bool.noConfusion)
    · cases phase <;> simp_all [WritePhase.entry, WritePhase.inside]
  · exact fun _ _ _ _ _ _ => rfl
  · exact fun _ hq => hq
  · exact fun _ _ => rfl
  · exact refl _
  · exact refl _
  · exact fun _ _ _ _ hj => .inl hj

theorem Own.lock {ctx : ℕ} {data : Bytes} : Own c reqs { w.setPhase i (.locked ctx data) with
    sender := if w.sender = .off then .idle else w.sender
    muWriting := some i
    entered := w.entered ++ [(i, data)] } := by
  apply h.keep
  · apply writes_setPhase
    · exact fun _ _ _ => noConfusion
    · exact fun _ _ _ => noConfusion
    · intro data' hdata
      obtain rfl : data = data' := some.inj hdata
      exact mem_append_right _ mem_cons_self
  · exact fun _ _ _ _ _ _ => rfl
  · exact fun _ hq => hq
  · intro q hq
    have hon : w.sender ≠ .off := by
      rcases hq with hq | hq <;> rw [hq] <;> exact Sender.noConfusion
    exact if_neg hon
  · exact subset_append_left _ _
  · exact refl _
  · exact fun _ _ _ _ hj => .inl hj

variable (hsound : w.Sound c reqs)

include hsound

theorem Own.take (hsender : w.sender = .idle) (hch : w.sendCh = some q) (handed : List (ℕ × Bytes)) :
    Own c (reqs.setPlace q (.sender c)) { w with sender := .sending q, sendCh := none, handed } := by
  refine h.moveSender rfl rfl (refl _) rfl (fun _ _ q' _ _ => reqs.setPlace_done q q' _)
    fun i q' hawaits => ?_
  cases hawaits with
  | queued hch' hhunk hdone =>
    obtain rfl : q = q' := some.inj (hch.symm.trans hch')
    apply Awaits.sending rfl
    · rw [setPlace_hunk, hhunk]
    · rw [setPlace_done, hdone]
  | sending hsender' hhunk hdone => exact Sender.noConfusion (hsender.symm.trans hsender')
  | putting hsender' e hdone hresult => exact Sender.noConfusion (hsender.symm.trans hsender')
  | pooled hplace e hdone hresult =>
    have hne : q' ≠ q := fun heq => by
      rw [heq, hsound.queue q hch] at hplace
      exact Place.noConfusion hplace
    refine Awaits.pooled ?_ e ?_ hresult
    · rw [setPlace_of_ne _ hne, hplace]
    · rw [setPlace_done, hdone]

theorem Own.sent (hsender : w.sender = .sending q) (err : Option Err) :
    Own c (reqs.setDone q (some ((reqs q).hunk.1, err)))
      { w with sender := .putting q, results := w.results ++ [((reqs q).hunk.1, err)] } := by
  have hplace := hsound.sender q (.inl hsender)
  refine h.moveSender rfl rfl (subset_append_left _ _) rfl ?_ ?_
  · intro i ctx q' data hi
    have hwriter := (hsound.ready i ctx q' data hi).1
    have hne : q' ≠ q := by
      rintro rfl
      exact Place.noConfusion (hwriter.symm.trans hplace)
    exact congrArg Request.done (reqs.setDone_of_ne hne _)
  · intro i q' hawaits
    by_cases heq : q' = q
    · subst heq
      rcases hawaits.atSender hsound hplace with ⟨-, hhunk⟩ | ⟨hputting, -⟩
      · apply Awaits.putting rfl err
        · rw [setDone_self, hhunk]
        · exact hhunk ▸ mem_append_right _ mem_cons_self
      · exact Sender.noConfusion (hsender.symm.trans hputting)
    · refine hawaits.keep (reqs.setDone_of_ne heq _) (fun hq' => hq') ?_ (subset_append_left _ _)
      rintro (hq' | hq')
      · exact absurd (sending.inj (hsender.symm.trans hq')).symm heq
      · exact Sender.noConfusion (hsender.symm.trans hq')

theorem Own.put (hsender : w.sender = .putting q) :
    Own c (reqs.setPlace q .pooled) { w with sender := .idle } := by
  have hplace := hsound.sender q (.inr hsender)
  refine h.moveSender rfl rfl (refl _) rfl (fun _ _ q' _ _ => reqs.setPlace_done q q' _)
    fun i q' hawaits => ?_
  by_cases heq : q' = q
  · subst heq
    rcases hawaits.atSender hsound hplace with ⟨hsending, -⟩ | ⟨-, e, hsome, hresult⟩
    · exact Sender.noConfusion (hsender.symm.trans hsending)
    · refine Awaits.pooled ?_ e ?_ hresult
      · simp
      · rw [setPlace_done, hsome]
  · refine hawaits.keep (reqs.setPlace_of_ne heq _) (fun hq' => hq') ?_ (refl _)
    rintro (hq' | hq')
    · exact Sender.noConfusion (hsender.symm.trans hq')
    · exact absurd (putting.inj (hsender.symm.trans hq')).symm heq

end

theorem Moves.own {e : WriteEvent} {r : WriteSide × Requests} (hmove : Moves c e w reqs r)
    (h : w.Own c reqs) (hsound : w.Sound c reqs) : r.1.Own c r.2 := by
  cases hmove with
  | stay => exact h
  | begin i phase hold hnew => exact h.begin hnew
  | lock i ctx data hmu => exact h.lock
  | turnAway i res hold hres =>
    exact h.finish rfl rfl rfl rfl rfl rfl (fun n err of heq => absurd heq (hres n err of))
      fun _ _ _ _ _ _ => rfl
  | get i q ctx data he hphase hplace =>
    refine h.moveInside hsound (by rw [hphase]; rfl) rfl rfl rfl rfl (by rw [hphase]; rfl) ?_ ?_
    · intro ctx' q' data' heq
      cases heq
      simp
    · exact fun _ _ _ => noConfusion
  | offer i ctx q data hphase hch =>
    refine h.moveInside hsound (by rw [hphase]; rfl) rfl rfl rfl rfl (by rw [hphase]; rfl) ?_ ?_
    · exact fun _ _ _ => noConfusion
    · intro ctx' q' data' heq
      cases heq
      apply Awaits.queued rfl
      · rw [setPlace_hunk, (hsound.ready i ctx q data hphase).2]
      · simpa using h.ready i ctx q data hphase
  | giveBack i ctx q data res w' hw' hphase hres =>
    rcases hw' with rfl | rfl <;>
    exact h.finish rfl rfl rfl rfl rfl rfl (fun n err of heq => absurd heq (hres n err of))
      fun _ j _ _ hne hold => absurd hold (hsound.only (by rw [hphase]; rfl) hne)
  | abandon i ctx q data res w' hw' hphase hres =>
    rcases hw' with rfl | rfl <;>
    exact h.finish rfl rfl rfl rfl rfl rfl (fun n err of heq => absurd heq (hres n err of))
      fun _ _ _ _ _ _ => rfl
  | receive i ctx q data of err hphase hdone =>
    obtain ⟨rfl, hresult⟩ := (h.waiting i ctx q data hphase).done hdone
    have hentered := h.entered i data (by rw [hphase]; rfl)
    exact h.finish rfl rfl rfl rfl rfl rfl (fun _ _ _ _ => ⟨data, err, hentered, hresult, rfl⟩)
      fun _ j _ _ hne hold => absurd hold (hsound.only (by rw [hphase]; rfl) hne)
  | take q hsender hch => exact h.take hsound hsender hch _
  | sent q err hsender hdone => exact h.sent hsound hsender err
  | put q hsender => exact h.put hsound hsender
  | exit hsender =>
    refine h.moveSender rfl rfl (refl _) rfl (fun _ _ _ _ _ => rfl) fun i q hawaits => ?_
    refine hawaits.keep rfl (fun hq => hq) ?_ (refl _)
    rintro (hq | hq) <;> exact Sender.noConfusion (hsender.symm.trans hq)

theorem Own.frame {c' : ℕ} {w₁ : WriteSide} {e : WriteEvent} (h : w.Own c reqs)
    (hsound : w.Sound c reqs) (hne : c ≠ c') (h' : w₁.Own c' reqs) (hsound' : w₁.Sound c' reqs)
    (htouches : Touches c' w₁ reqs e reqs')
    (hfree : ∀ i q, e = .get i q → ∀ j ctx data, w.writes j ≠ .waiting ctx q data) :
    w.Own c reqs' := by
  apply h.keep
  · exact fun _ => .inl rfl
  · intro q j ctx data _ hold
    have hplace : (reqs q).place = .writer c ∧ (reqs q).done = none ∨ w.Awaits c j reqs q := by
      rcases hold with hready | hwaiting
      · exact .inl ⟨(hsound.ready j ctx q data hready).1, h.ready j ctx q data hready⟩
      · exact .inr (h.waiting j ctx q data hwaiting)
    have hother : ¬ (reqs q).place.of c' := by
      rcases hplace with ⟨hwriter, -⟩ | hawaits
      · rwa [hwriter]
      · rcases hawaits.place hsound with hq | hq | hq <;> rw [hq]
        · exact hne
        · exact hne
        · exact id
    cases htouches with
    | nothing => rfl
    | got i q' r he hgot =>
      apply update_of_ne
      rintro rfl
      rcases hold with hready | hwaiting
      · have hwriter := (hsound.ready j ctx q data hready).1
        rcases hgot with hgot | hgot <;> exact nomatch hwriter.symm.trans hgot
      · exact hfree i q he j ctx data hwaiting
    | moved q' place hown =>
      apply reqs.setPlace_of_ne
      rintro rfl
      exact hother hown
    | received i ctx' q' data' hphase hdone =>
      apply reqs.setDone_of_ne
      rintro rfl
      obtain ⟨⟨of, e⟩, hsome⟩ := ne_none_iff_exists'.mp hdone
      have hof := ((h'.waiting i ctx' q data' hphase).done hsome).1
      rcases hplace with ⟨-, hnone⟩ | hawaits
      · exact hdone hnone
      · exact hne (Prod.mk.inj ((hawaits.done hsome).1.symm.trans hof)).1
    | result q' done hsender =>
      apply reqs.setDone_of_ne
      rintro rfl
      apply hother
      rw [hsound'.sender q (.inl hsender)]
      rfl
  · exact fun _ hq => hq
  · exact fun _ _ => rfl
  · exact refl _
  · exact refl _
  · exact fun _ _ _ _ hj => .inl hj

end WriteSide

namespace System

variable {s : System}

/-- A step that does not take a request from the pool while a write still waits for the result in
it. -/
def LeavesAwaited (s : System) (e : Event) : Prop :=
  ∀ c i q, e = .write c (.get i q) →
    ∀ c' j ctx data, (s.conns c').write.writes j ≠ .waiting ctx q data

def Own (s : System) : Prop := ∀ c, (s.conns c).write.Own c s.reqs

theorem Own.setConn (h : s.Own) {c : ℕ} {conn : Conn} (hconn : conn.write.Own c s.reqs) :
    (s.setConn c conn).Own := by
  intro c'
  by_cases heq : c' = c
  · subst heq
    rwa [setConn_self]
  · rw [setConn_of_ne s heq]
    exact h c'

theorem Own.step (h : s.Own) (hsound : s.Sound) {e : Event} (hleaves : s.LeavesAwaited e) :
    (s.step e).Own := by
  cases e with
  | read c e => exact h.setConn (h c)
  | write c e =>
    intro c'
    by_cases heq : c' = c
    · subst heq
      simp only [System.step, System.setConn, update_self]
      exact (step_moves e).own (h c') (hsound c').write
    · simp only [System.step, System.setConn, update_of_ne heq]
      apply (h c').frame (hsound c').write heq (h c) (hsound c).write
        ((step_moves e).touches (hsound c).write)
      intro i q he j ctx data
      exact hleaves c i q (congrArg (Event.write c) he) c' j ctx data
  | set c dir w =>
    apply h.setConn
    cases dir <;> exact h c
  | fire c dir timer =>
    apply h.setConn
    cases dir <;> exact h c
  | stopTimers c => exact h.setConn (h c)
  | cancel c =>
    apply h.setConn
    exact ⟨(h c).entered, (h c).ready, fun i ctx q data hi =>
      ((h c).waiting i ctx q data hi).keep rfl id (fun _ => rfl) (refl _), (h c).log⟩

theorem own_run (events : List Event)
    (hleaves : Run.Along (fun (s : System) (e : Event) => ((), s.step e)) LeavesAwaited new events) :
    (run events).Own := by
  have hstep : ∀ (s : System) (e : Event), s.Sound ∧ s.Own → s.LeavesAwaited e →
      (s.step e).Sound ∧ (s.step e).Own := fun s e h hq => ⟨h.1.step e, h.2.step h.1 hq⟩
  have hnew : new.Sound ∧ new.Own := ⟨sound_new, fun c => own_new⟩
  exact (Run.exec_invariant_along (fun s : System => s.Sound ∧ s.Own) hstep hnew hleaves).2

/-- Any number of tunnels, at every step of every run: reads return the first bytes received, and
after an error of the stream that error, unless their deadline or the connection is over; hunks are
sent in the order their writes got the lock; a write reports the outcome of its own data, as long as
no request is taken while a write waits for the result in it; and a timer whose deadline was
replaced changes nothing. -/
theorem tunnel_semantics (events : List Event) (c : ℕ) :
    ((run events).conns c).read.delivered <+: ((run events).conns c).read.received ∧
      ((run events).conns c).read.log.Pairwise ReadResult.Follows ∧
      (∀ ctx, .deadline ctx ∈ ((run events).conns c).read.log →
        ctx ∈ ((run events).conns c).readDeadline.cancelled) ∧
      (.closed ∈ ((run events).conns c).read.log → ((run events).conns c).closed = true) ∧
      ((run events).conns c).write.handed.Sublist ((run events).conns c).write.entered ∧
      (Run.Along (fun (s : System) (e : Event) => ((), s.step e)) LeavesAwaited new events →
        ∀ i n err of, (i, .outcome n err of) ∈ ((run events).conns c).write.log →
          ((run events).conns c).write.Reports c i (.outcome n err of)) ∧
      (∀ dir timer e later, timer < (((run events).conns c).deadline dir).timers.length →
        Replaces c dir e →
        (run (events ++ e :: later)).step (.fire c dir timer) = run (events ++ e :: later)) := by
  obtain ⟨hread, hwrite⟩ := sound_run events c
  refine ⟨hread.delivered_prefix, hread.log.sticky, hread.log.deadline, hread.log.closed, ?_, ?_, ?_⟩
  · exact (sublist_append_left _ _).trans hwrite.order
  · exact fun hleaves => (own_run events hleaves c).log
  · intro dir timer e later htimer hreplaces
    have hdead : (run (events ++ e :: later)).Superseded c dir
        (((run events).conns c).deadline dir).timers.length := by
      rw [run_append, Run.exec_cons]
      exact (superseded_of_replaces hreplaces).exec later
    exact hdead.fire_eq htimer

/-- A read returns the error of the stream, the deadline is set to a time that has passed, and the
next read returns another error. -/
def readAfterError : List Event :=
  [.read 0 (.snapshot 0 4), .read 0 (.check 0 .go), .read 0 (.recv (.err (.status 13))),
    .read 0 .offer, .read 0 (.lock 0), .read 0 (.select 0 .go), .set 0 .read .past,
    .read 0 (.snapshot 1 4), .read 0 (.check 1 .deadline)]

/-- The request of a write comes back to the pool before the write has looked at its result; a
write of another tunnel takes the request, drops the result and has its own data sent with it. -/
def requestRecycled : List Event :=
  [.write 0 (.snapshot 0 [1]), .write 0 (.check 0 .go), .write 0 (.lock 0), .write 0 (.get 0 0),
    .write 0 (.offer 0 .go), .write 0 .take, .write 0 (.sent (some (.status 13))), .write 0 .put,
    .write 1 (.snapshot 0 [2]), .write 1 (.check 0 .go), .write 1 (.lock 0), .write 1 (.get 0 0),
    .write 1 (.offer 0 .go), .write 1 .take, .write 1 (.sent none), .write 0 (.await 0 .go)]

/-- After an error of the stream a read can return another one; and a write whose `Send` failed can
report the success of a write of another tunnel. -/
theorem tunnel_semantics_fails :
    ¬ ((run readAfterError).conns 0).read.log.Pairwise
        (fun a b => ∀ e, a = .stream e → b = .stream e) ∧
      ∃ i n err of, (i, .outcome n err of) ∈ ((run requestRecycled).conns 0).write.log ∧
        ¬ ((run requestRecycled).conns 0).write.Reports 0 i (.outcome n err of) := by
  constructor
  · intro hsticky
    exact nomatch pairwise_pair.mp hsticky _ rfl
  · refine ⟨0, 1, none, (1, 0), mem_singleton_self _, ?_⟩
    rintro ⟨data, e, -, -, hreport⟩
    cases e <;> simp [report] at hreport

end System

end Outbound.Transport.Grpc
