import Mathlib.Order.Nat
import Outbound.Lib.Bitmap
import Outbound.Lib.Run

/-! The packet-ID replay filter of the AEAD-2022 ciphers, and its refinement to the set of
accepted identifiers. Bit `d` of the bitmap stands for the identifier `d` below the latest one. -/
namespace Outbound.Ciphers

open List Bitmap
open Outbound.Loop Outbound.Run

structure SlidingWindowFilter where
  window : List (BitVec 64)
  windowSize : ℕ
  latest : BitVec 64
  initialized : Bool
deriving DecidableEq, Repr

/-- A non-positive size selects the default of 1024 identifiers. -/
def newSlidingWindowFilter (windowSize : ℤ) : SlidingWindowFilter :=
  let windowSize := if windowSize ≤ 0 then 1024 else windowSize
  let wordCount := (windowSize + 63) / 64
  { window := replicate wordCount.toNat 0#64
    windowSize := windowSize.toNat
    latest := 0#64
    initialized := false }

namespace SlidingWindowFilter

variable (f : SlidingWindowFilter)

def getBit (index : ℕ) : Bool :=
  let wordIndex := index / 64
  let bitIndex := index % 64
  (f.window.getD wordIndex 0#64 &&& (1#64 <<< bitIndex)) != 0#64

def setBit (index : ℕ) : SlidingWindowFilter :=
  { f with window := Bitmap.setBit f.window index }

def shiftWindow (shift : ℕ) : SlidingWindowFilter :=
  if f.windowSize ≤ shift then
    { f with window := forUp (fun i t => t.set i 0#64) f.window.length f.window }
  else
    let wordShift := shift / 64
    let bitShift := shift % 64
    let moved := if 0 < wordShift then shiftWords wordShift f.window else f.window
    { f with window := if 0 < bitShift then shiftBits bitShift moved else moved }

def checkAndUpdate (packetID : BitVec 64) : Bool × SlidingWindowFilter :=
  if f.initialized = false then
    (true, ({ f with initialized := true, latest := packetID }).setBit 0)
  else if packetID > f.latest then
    let shift := packetID - f.latest
    (true, ({ f.shiftWindow shift.toNat with latest := packetID }).setBit 0)
  else
    let distance := (f.latest - packetID).toNat
    if f.windowSize ≤ distance then (false, f)
    else if f.getBit distance then (false, f)
    else (true, f.setBit distance)

end SlidingWindowFilter

/-- The set-based filter: every identifier fed so far, and those among them that passed. -/
structure ReplayHistory where
  seen : List ℕ
  accepted : List ℕ

namespace ReplayHistory

def empty : ReplayHistory := ⟨[], []⟩

def latest (h : ReplayHistory) : ℕ := h.seen.foldr max 0

/-- An identifier passes when it is the first, when it is above everything seen, or when it lies
less than `w` below the latest one and has not passed before. -/
def Admits (w : ℕ) (h : ReplayHistory) (id : ℕ) : Prop :=
  h.seen = [] ∨ (∀ x ∈ h.seen, x < id) ∨ (h.latest - id < w ∧ id ∉ h.accepted)

instance (w : ℕ) (h : ReplayHistory) (id : ℕ) : Decidable (h.Admits w id) :=
  inferInstanceAs (Decidable (_ ∨ _))

def step (w : ℕ) (h : ReplayHistory) (id : ℕ) : Bool × ReplayHistory :=
  let ok := decide (h.Admits w id)
  (ok, ⟨id :: h.seen, if ok then id :: h.accepted else h.accepted⟩)

end ReplayHistory

variable (h : ReplayHistory)

theorem ReplayHistory.le_latest {x : ℕ} (hx : x ∈ h.seen) : x ≤ h.latest := by
  have key : ∀ l : List ℕ, x ∈ l → x ≤ l.foldr max 0 := by
    intro l hl
    induction l with
    | nil => simp at hl
    | cons y l ih =>
      rcases mem_cons.mp hl with rfl | hl
      · exact Nat.le_max_left _ _
      · exact Nat.le_trans (ih hl) (Nat.le_max_right _ _)
  exact key h.seen hx

theorem ReplayHistory.latest_mem (hne : h.seen ≠ []) : h.latest ∈ h.seen := by
  have key : ∀ l : List ℕ, l ≠ [] → l.foldr max 0 ∈ l := by
    intro l hl
    induction l with
    | nil => exact absurd rfl hl
    | cons y l ih =>
      by_cases hn : l = []
      · simp [hn]
      · have hmem := ih hn
        simp only [foldr_cons]
        rcases Nat.le_total y (l.foldr max 0) with hle | hle
        · rw [Nat.max_eq_right hle]; exact mem_cons_of_mem y hmem
        · rw [Nat.max_eq_left hle]; exact mem_cons_self
  exact key h.seen hne

theorem ReplayHistory.forall_lt_iff (hne : h.seen ≠ []) (id : ℕ) :
    (∀ x ∈ h.seen, x < id) ↔ h.latest < id :=
  ⟨fun hx => hx _ (h.latest_mem hne), fun hl _ hx => Nat.lt_of_le_of_lt (h.le_latest hx) hl⟩

namespace SlidingWindowFilter

section

variable (f : SlidingWindowFilter)

include f

theorem getBit_eq_bit (index : ℕ) : f.getBit index = bit f.window index :=
  and_mask_ne_zero _ _ (Nat.mod_lt _ (by decide))

variable (shift : ℕ)

@[simp] theorem windowSize_shiftWindow : (f.shiftWindow shift).windowSize = f.windowSize := by
  unfold shiftWindow
  split_ifs <;> rfl

@[simp] theorem initialized_shiftWindow : (f.shiftWindow shift).initialized = f.initialized := by
  unfold shiftWindow
  split_ifs <;> rfl

@[simp] theorem length_window_shiftWindow :
    (f.shiftWindow shift).window.length = f.window.length := by
  unfold shiftWindow
  dsimp only
  split_ifs <;> simp [length_forUp_set]

/-- Advancing the latest identifier by `shift` moves distance `d` to distance `d + shift`. -/
theorem bit_shiftWindow (d : ℕ) (hw : f.windowSize ≤ 64 * f.window.length) (hd : d < f.windowSize) :
    bit (f.shiftWindow shift).window d =
      (decide (shift ≤ d) && bit f.window (d - shift)) := by
  have hdl : d < 64 * f.window.length := by omega
  unfold shiftWindow
  split_ifs with hs
  · have hget : ∀ j, j < f.window.length →
        (forUp (fun i t => t.set i 0#64) f.window.length f.window).getD j 0#64 = 0#64 := by
      intro j hj
      rw [getD_forUp_set 0#64 0#64 _ _ (Nat.le_refl _), if_pos hj]
    have hlt : d / 64 < f.window.length := Nat.div_lt_of_lt_mul hdl
    have hle : ¬ shift ≤ d := by omega
    simp only [bit, hget _ hlt, BitVec.getLsbD_zero, hle, decide_false, Bool.false_and]
  · have hmod : shift % 64 < 64 := Nat.mod_lt _ (by decide)
    have hwords : shift / 64 ≤ f.window.length := by omega
    let moved := if 0 < shift / 64 then shiftWords (shift / 64) f.window else f.window
    have hlen : moved.length = f.window.length := by
      dsimp only [moved]
      split_ifs <;> simp
    have hmoved : ∀ e, e < 64 * f.window.length → bit moved e =
        (decide (64 * (shift / 64) ≤ e) && bit f.window (e - 64 * (shift / 64))) := by
      intro e he
      dsimp only [moved]
      split_ifs with h0
      · exact bit_shiftWords _ _ (by decide) hwords e he
      · have hz : shift / 64 = 0 := by omega
        simp [hz]
    change bit (if 0 < shift % 64 then shiftBits (shift % 64) moved else moved) d = _
    split_ifs with h0
    · rw [bit_shiftBits _ _ hmod d (by omega), hmoved (d - shift % 64) (by omega)]
      by_cases hsd : shift ≤ d
      · have h1 : shift % 64 ≤ d := by omega
        have h2 : 64 * (shift / 64) ≤ d - shift % 64 := by omega
        have h3 : d - shift % 64 - 64 * (shift / 64) = d - shift := by omega
        simp [hsd, h1, h2, h3]
      · have h12 : ¬ (shift % 64 ≤ d ∧ 64 * (shift / 64) ≤ d - shift % 64) := by omega
        rw [← Bool.and_assoc, ← Bool.decide_and]
        simp [hsd, h12]
    · have hz : shift = 64 * (shift / 64) := by omega
      rw [hmoved d hdl, ← hz]

end

/-- The bitmap records exactly the accepted identifiers still inside the window. -/
structure Represents (f : SlidingWindowFilter) (h : ReplayHistory) : Prop where
  windowSize_pos : 0 < f.windowSize
  windowSize_le : f.windowSize ≤ 64 * f.window.length
  initialized_iff : f.initialized = true ↔ h.seen ≠ []
  latest_eq : h.seen ≠ [] → f.latest.toNat = h.latest
  bit_eq : ∀ d < f.windowSize,
    bit f.window d = decide (d ≤ h.latest ∧ h.latest - d ∈ h.accepted)
  accepted_seen : ∀ x ∈ h.accepted, x ∈ h.seen

theorem represents_new (w : ℤ) (hw : 0 < w) :
    Represents (newSlidingWindowFilter w) ReplayHistory.empty := by
  have hw' : ¬ w ≤ 0 := by omega
  have hlen : w.toNat ≤ 64 * ((w + 63) / 64).toNat := by omega
  constructor
  · simp only [newSlidingWindowFilter, hw', if_false]; omega
  · simpa only [newSlidingWindowFilter, hw', if_false, length_replicate] using hlen
  · simp [newSlidingWindowFilter, ReplayHistory.empty]
  · simp [ReplayHistory.empty]
  · intro d _
    rw [newSlidingWindowFilter, bit_replicate_zero]
    simp [ReplayHistory.empty]
  · simp [ReplayHistory.empty]

variable (w : ℕ) (ids : List (BitVec 64)) {f : SlidingWindowFilter} {h : ReplayHistory}

private theorem latest_cons (h : ReplayHistory) (id : ℕ) (acc : List ℕ) :
    (ReplayHistory.mk (id :: h.seen) acc).latest = max id h.latest := rfl

section

variable (hr : Represents f h)

include hr

private theorem mem_cons_seen (id : ℕ) : ∀ x ∈ id :: h.accepted, x ∈ id :: h.seen :=
  fun _ hx => cons_subset_cons id (fun x => hr.accepted_seen x) hx

private theorem represents_first (hi : f.initialized = false) (id : BitVec 64) :
    Represents (({ f with initialized := true, latest := id } : SlidingWindowFilter).setBit 0)
      ⟨id.toNat :: h.seen, id.toNat :: h.accepted⟩ := by
  have hseen : h.seen = [] := by
    by_contra hne
    have := hr.initialized_iff.mpr hne
    simp [hi] at this
  have hlatest : h.latest = 0 := by simp [ReplayHistory.latest, hseen]
  have hacc : h.accepted = [] := by
    apply eq_nil_iff_forall_not_mem.mpr
    intro x hx
    simpa [hseen] using hr.accepted_seen x hx
  have hpos := hr.windowSize_pos
  have hle := hr.windowSize_le
  constructor
  · exact hpos
  · simpa [setBit] using hle
  · simp [setBit]
  · simp [setBit, latest_cons, hlatest]
  · intro d hd
    rw [setBit, Bitmap.bit_setBit _ _ _ (by decide) (by dsimp only; omega), hr.bit_eq d hd,
      latest_cons, hlatest, hacc, Nat.max_zero]
    rw [Bool.eq_iff_iff]
    simp only [not_mem_nil, and_false, decide_false, Bool.or_false, decide_eq_true_eq,
      mem_singleton]
    omega
  · exact mem_cons_seen hr _

private theorem represents_advance
    (hne : h.seen ≠ []) (id : BitVec 64) (hgt : h.latest < id.toNat) :
    Represents (({ f.shiftWindow (id - f.latest).toNat with latest := id } :
        SlidingWindowFilter).setBit 0)
      ⟨id.toNat :: h.seen, id.toNat :: h.accepted⟩ := by
  have hl := hr.latest_eq hne
  have hshift : (id - f.latest).toNat = id.toNat - h.latest := by
    rw [BitVec.toNat_sub_of_le (by rw [BitVec.le_def]; omega), hl]
  have hpos := hr.windowSize_pos
  have hle := hr.windowSize_le
  have hmax : max id.toNat h.latest = id.toNat := Nat.max_eq_left (by omega)
  constructor
  · simpa [setBit] using hpos
  · simpa [setBit] using hle
  · simpa [setBit] using hr.initialized_iff.mpr hne
  · intro _
    rw [latest_cons, hmax]
    rfl
  · intro d hd
    have hd' : d < f.windowSize := by simpa [setBit] using hd
    have hin : 0 / 64 < (f.shiftWindow (id - f.latest).toNat).window.length := by
      rw [length_window_shiftWindow]; omega
    rw [setBit, bit_setBit _ _ _ (by decide) hin, bit_shiftWindow f _ d hle hd',
      hr.bit_eq _ (by omega), hshift, latest_cons, hmax, ← Bool.decide_and, ← Bool.decide_or]
    apply decide_eq_decide.mpr
    constructor
    · rintro (rfl | ⟨hs, hdl, hmem⟩)
      · exact ⟨Nat.zero_le _, by simp⟩
      · refine ⟨by omega, mem_cons_of_mem _ ?_⟩
        rwa [show id.toNat - d = h.latest - (d - (id.toNat - h.latest)) by omega]
    · rintro ⟨hdi, hmem⟩
      rcases mem_cons.mp hmem with heq | hmem
      · left; omega
      · have hb := h.le_latest (hr.accepted_seen _ hmem)
        refine .inr ⟨by omega, by omega, ?_⟩
        rwa [show h.latest - (d - (id.toNat - h.latest)) = id.toNat - d by omega]
  · exact mem_cons_seen hr _

private theorem represents_keep (hne : h.seen ≠ []) (id : ℕ) (hle : id ≤ h.latest) :
    Represents f ⟨id :: h.seen, h.accepted⟩ := by
  have hmax : max id h.latest = h.latest := Nat.max_eq_right hle
  constructor
  · exact hr.windowSize_pos
  · exact hr.windowSize_le
  · simpa using hr.initialized_iff.mpr hne
  · intro _
    rw [latest_cons, hmax]
    exact hr.latest_eq hne
  · intro d hd
    rw [latest_cons, hmax]
    exact hr.bit_eq d hd
  · intro x hx
    exact mem_cons_of_mem _ (hr.accepted_seen x hx)

private theorem represents_record (hne : h.seen ≠ []) (id : ℕ) (hle : id ≤ h.latest)
    (hin : h.latest - id < f.windowSize) :
    Represents (f.setBit (h.latest - id)) ⟨id :: h.seen, id :: h.accepted⟩ := by
  have hmax : max id h.latest = h.latest := Nat.max_eq_right hle
  have hwl := hr.windowSize_le
  constructor
  · exact hr.windowSize_pos
  · simpa [setBit] using hwl
  · simpa [setBit] using hr.initialized_iff.mpr hne
  · intro _
    rw [latest_cons, hmax]
    exact hr.latest_eq hne
  · intro d hd
    have hidx : (h.latest - id) / 64 < f.window.length := by
      apply Nat.div_lt_of_lt_mul
      omega
    rw [setBit, bit_setBit _ _ _ (by decide) hidx, hr.bit_eq d hd, latest_cons, hmax,
      ← Bool.decide_or]
    apply decide_eq_decide.mpr
    constructor
    · rintro (rfl | ⟨hdl, hmem⟩)
      · exact ⟨Nat.sub_le _ _, by rw [Nat.sub_sub_self hle]; exact mem_cons_self⟩
      · exact ⟨hdl, mem_cons_of_mem _ hmem⟩
    · rintro ⟨hdl, hmem⟩
      rcases mem_cons.mp hmem with heq | hmem
      · left; omega
      · exact .inr ⟨hdl, hmem⟩
  · exact mem_cons_seen hr _

theorem checkAndUpdate_simulates {w : ℕ} (hw : f.windowSize = w) (id : BitVec 64) :
    (f.checkAndUpdate id).1 = (h.step w id.toNat).1 ∧
      Represents (f.checkAndUpdate id).2 (h.step w id.toNat).2 := by
  subst hw
  unfold checkAndUpdate
  by_cases hi : f.initialized = false
  · have hseen : h.seen = [] := by
      by_contra hne
      have := hr.initialized_iff.mpr hne
      simp [hi] at this
    have hadm : h.Admits f.windowSize id.toNat := .inl hseen
    rw [if_pos hi]
    simp only [ReplayHistory.step, hadm, decide_true, if_true, true_and]
    exact represents_first hr hi id
  have hne : h.seen ≠ [] := hr.initialized_iff.mp (by simpa using hi)
  have hl := hr.latest_eq hne
  rw [if_neg hi]
  by_cases hgt : id > f.latest
  · have hgt' : h.latest < id.toNat := by
      have := BitVec.lt_def.mp hgt
      omega
    have hadm : h.Admits f.windowSize id.toNat := .inr (.inl ((h.forall_lt_iff hne _).mpr hgt'))
    rw [if_pos hgt]
    simp only [ReplayHistory.step, hadm, decide_true, if_true, true_and]
    exact represents_advance hr hne id hgt'
  have hle : id.toNat ≤ h.latest := by
    have := BitVec.lt_def.not.mp hgt
    omega
  have hdist : (f.latest - id).toNat = h.latest - id.toNat := by
    rw [BitVec.toNat_sub_of_le (by rw [BitVec.le_def]; omega), hl]
  have hadm : h.Admits f.windowSize id.toNat ↔
      h.latest - id.toNat < f.windowSize ∧ id.toNat ∉ h.accepted := by
    unfold ReplayHistory.Admits
    rw [h.forall_lt_iff hne]
    simp [hne, Nat.not_lt.mpr hle]
  rw [if_neg hgt]
  dsimp only
  rw [hdist, getBit_eq_bit]
  by_cases hout : f.windowSize ≤ h.latest - id.toNat
  · have hno : ¬ h.Admits f.windowSize id.toNat := by rw [hadm]; omega
    rw [if_pos hout]
    simp only [ReplayHistory.step, hno, decide_false, Bool.false_eq_true, if_false, true_and]
    exact represents_keep hr hne _ hle
  have hin : h.latest - id.toNat < f.windowSize := by omega
  have hbit : bit f.window (h.latest - id.toNat) = decide (id.toNat ∈ h.accepted) := by
    rw [hr.bit_eq _ hin, Nat.sub_sub_self hle]
    simp
  rw [if_neg hout, hbit]
  by_cases hmem : id.toNat ∈ h.accepted
  · have hno : ¬ h.Admits f.windowSize id.toNat := by rw [hadm]; exact fun hh => hh.2 hmem
    simp only [ReplayHistory.step, hno, hmem, decide_true, decide_false, if_true,
      Bool.false_eq_true, if_false, true_and]
    exact represents_keep hr hne _ hle
  · have hyes : h.Admits f.windowSize id.toNat := hadm.mpr ⟨hin, hmem⟩
    simp only [ReplayHistory.step, hyes, hmem, decide_true, decide_false, if_true,
      Bool.false_eq_true, if_false, true_and]
    exact represents_record hr hne _ hle hin

end

def specStep (h : ReplayHistory) (id : BitVec 64) : Bool × ReplayHistory :=
  h.step w id.toNat

variable (f)

def Simulates (h : ReplayHistory) : Prop :=
  Represents f h ∧ f.windowSize = w

theorem simulates_step (h : ReplayHistory) (id : BitVec 64) (hs : Simulates w f h) :
    (f.checkAndUpdate id).1 = (specStep w h id).1 ∧
      Simulates w (f.checkAndUpdate id).2 (specStep w h id).2 := by
  obtain ⟨ha, hr⟩ := checkAndUpdate_simulates hs.1 hs.2 id
  refine ⟨ha, hr, Eq.trans ?_ hs.2⟩
  unfold checkAndUpdate
  dsimp only
  split_ifs <;> simp [setBit]

variable {f}

theorem simulates_new (w : ℤ) (hw : 0 < w) :
    Simulates w.toNat (newSlidingWindowFilter w) ReplayHistory.empty := by
  refine ⟨represents_new w hw, ?_⟩
  simp [newSlidingWindowFilter, show ¬ w ≤ 0 by omega]

theorem simulates_exec (w : ℤ) (hw : 0 < w) (ids : List (BitVec 64)) :
    Simulates w.toNat (exec checkAndUpdate (newSlidingWindowFilter w) ids)
      (exec (specStep w.toNat) ReplayHistory.empty ids) :=
  exec_simulation _ _ (Simulates w.toNat) (simulates_step w.toNat) _ _ (simulates_new w hw) ids

theorem seen_exec_spec (h : ReplayHistory) (x : ℕ) :
    x ∈ (exec (specStep w) h ids).seen ↔ x ∈ h.seen ∨ x ∈ ids.map BitVec.toNat := by
  induction ids generalizing h with
  | nil => simp
  | cons id ids ih =>
    rw [exec_cons, ih]
    simp only [specStep, ReplayHistory.step, mem_cons, map_cons]
    rw [or_comm (a := x = id.toNat), or_assoc]

theorem accepted_exec_spec_mono (h : ReplayHistory) (x : ℕ)
    (hx : x ∈ h.accepted) : x ∈ (exec (specStep w) h ids).accepted := by
  refine exec_invariant (specStep w) (fun h => x ∈ h.accepted) ?_ h hx ids
  intro h id hx
  simp only [specStep, ReplayHistory.step]
  split_ifs
  · exact mem_cons_of_mem _ hx
  · exact hx

/-- An identifier that the set-based filter let through stays refused for the rest of the run. -/
theorem not_admits_of_accepted {w : ℕ}
    (hs : Simulates w f h) (id : ℕ) (hid : id ∈ h.accepted) : ¬ h.Admits w id := by
  have hseen := hs.1.accepted_seen id hid
  rintro (hnil | hlt | ⟨-, hnot⟩)
  · simp [hnil] at hseen
  · exact absurd (hlt id hseen) (Nat.lt_irrefl id)
  · exact hnot hid

variable (f)

def Sound : Prop := ∃ h, Represents f h

/-- The filter stands for a history in which the identifier has passed. -/
def Spent (id : BitVec 64) : Prop :=
  ∃ h, Represents f h ∧ id.toNat ∈ h.accepted

variable {f}

theorem sound_new (w : ℤ) (hw : 0 < w) : Sound (newSlidingWindowFilter w) :=
  ⟨_, represents_new w hw⟩

theorem Sound.checkAndUpdate (h : Sound f) (id : BitVec 64) : Sound (f.checkAndUpdate id).2 := by
  obtain ⟨h, hr⟩ := h
  exact ⟨_, (checkAndUpdate_simulates hr rfl id).2⟩

theorem Sound.spent_of_accepted (h : Sound f) (id : BitVec 64)
    (hok : (f.checkAndUpdate id).1 = true) : Spent (f.checkAndUpdate id).2 id := by
  obtain ⟨h, hr⟩ := h
  obtain ⟨hans, hrep⟩ := checkAndUpdate_simulates hr rfl id
  refine ⟨_, hrep, ?_⟩
  rw [hans] at hok
  simp only [ReplayHistory.step] at hok ⊢
  rw [if_pos hok]
  exact mem_cons_self

theorem Spent.checkAndUpdate {id : BitVec 64} (h : Spent f id)
    (id' : BitVec 64) : Spent (f.checkAndUpdate id').2 id := by
  obtain ⟨h, hr, hmem⟩ := h
  refine ⟨_, (checkAndUpdate_simulates hr rfl id').2, ?_⟩
  simp only [ReplayHistory.step]
  split_ifs
  · exact mem_cons_of_mem _ hmem
  · exact hmem

theorem Spent.refused {id : BitVec 64} (h : Spent f id) : (f.checkAndUpdate id).1 = false := by
  obtain ⟨h, hr, hmem⟩ := h
  rw [(checkAndUpdate_simulates hr rfl id).1]
  simpa only [ReplayHistory.step, decide_eq_false_iff_not] using
    not_admits_of_accepted ⟨hr, rfl⟩ _ hmem

/-- For every window size and every run, each call answers as the set of accepted identifiers
dictates: none passes twice, and none that is new and inside the window is refused. -/
theorem checkAndUpdate_run (w : ℤ) (hw : 0 < w) :
    (∀ ids, answers checkAndUpdate (newSlidingWindowFilter w) ids =
        answers (specStep w.toNat) ReplayHistory.empty ids) ∧
    (∀ before id between,
        (checkAndUpdate (exec checkAndUpdate (newSlidingWindowFilter w) before) id).1 = true →
        (checkAndUpdate (exec checkAndUpdate (newSlidingWindowFilter w)
          (before ++ id :: between)) id).1 = false) ∧
    (∀ before id, id ∉ before → (∀ x ∈ before, x.toNat - id.toNat < w.toNat) →
        (checkAndUpdate (exec checkAndUpdate (newSlidingWindowFilter w) before) id).1 = true) := by
  refine ⟨fun ids => ?_, fun before id between hacc => ?_, fun before id hnew hin => ?_⟩
  · exact answers_simulation _ _ (Simulates w.toNat) (simulates_step w.toNat) _ _
      (simulates_new w hw) ids
  · have hb := simulates_exec w hw before
    have hend := simulates_exec w hw (before ++ id :: between)
    have hadm : (specStep w.toNat (exec (specStep w.toNat) .empty before) id).1 = true := by
      rwa [← (simulates_step _ _ _ id hb).1]
    have hmem : id.toNat ∈ (specStep w.toNat (exec (specStep w.toNat) .empty before) id).2.accepted := by
      simp only [specStep, ReplayHistory.step] at hadm ⊢
      rw [hadm]
      exact mem_cons_self
    have hkept := accepted_exec_spec_mono w.toNat between _ _ hmem
    rw [← exec_cons, ← exec_append] at hkept
    rw [(simulates_step _ _ _ id hend).1]
    simpa only [specStep, ReplayHistory.step, decide_eq_false_iff_not] using
      not_admits_of_accepted hend _ hkept
  · have hb := simulates_exec w hw before
    rw [(simulates_step _ _ _ id hb).1]
    simp only [specStep, ReplayHistory.step, decide_eq_true_eq]
    by_cases hnil : (exec (specStep w.toNat) .empty before).seen = []
    · exact .inl hnil
    · have hlast := (seen_exec_spec w.toNat before .empty _).mp (ReplayHistory.latest_mem _ hnil)
      obtain ⟨y, hy, hyl⟩ : ∃ y ∈ before, y.toNat =
          (exec (specStep w.toNat) .empty before).latest := by
        simpa [ReplayHistory.empty] using hlast
      refine .inr (.inr ⟨?_, fun hmem => hnew ?_⟩)
      · rw [← hyl]
        exact hin y hy
      · have hseen := (seen_exec_spec w.toNat before .empty _).mp (hb.1.accepted_seen _ hmem)
        obtain ⟨z, hz, hzi⟩ : ∃ z ∈ before, z.toNat = id.toNat := by
          simpa [ReplayHistory.empty] using hseen
        rwa [← BitVec.eq_of_toNat_eq hzi]

theorem checkAndUpdate_run_seventy :
    (0 : ℤ) < 70 ∧
      answers checkAndUpdate (newSlidingWindowFilter 70) [100#64, 164#64, 100#64, 101#64, 95#64] =
        answers (specStep 70) ReplayHistory.empty [100#64, 164#64, 100#64, 101#64, 95#64] ∧
      answers checkAndUpdate (newSlidingWindowFilter 70) [100#64, 164#64, 100#64, 101#64, 95#64] =
        [true, true, false, true, true] :=
  ⟨by decide, (checkAndUpdate_run 70 (by decide)).1 _, by decide⟩

end SlidingWindowFilter

end Outbound.Ciphers
