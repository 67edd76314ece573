import Mathlib.Order.Lattice.Nat

/-! The windowed filter that keeps the best, second best and third best estimate of a stream of
samples over a fixed time interval. -/
namespace Outbound.Bbr

structure Estimate (V T : Type*) where
  sample : V
  time : T
deriving DecidableEq, Inhabited

/-- The comparator is positive when its first argument is the better one. -/
structure WindowedFilter (V T : Type*) where
  windowLength : T
  best : Estimate V T
  secondBest : Estimate V T
  thirdBest : Estimate V T
  comparator : V → V → ℤ

def maxFilter {V : Type*} [LT V] [DecidableLT V] (a b : V) : ℤ :=
  if b < a then 1 else if a < b then -1 else 0

namespace WindowedFilter

variable {V T : Type*}

section new

variable [Inhabited V] [Inhabited T]

def new (windowLength : T) (comparator : V → V → ℤ) : WindowedFilter V T :=
  ⟨windowLength, default, default, default, comparator⟩

def clear (f : WindowedFilter V T) : WindowedFilter V T := new f.windowLength f.comparator

end new

variable (f : WindowedFilter V T) (newSample : V) (newTime : T)

def getBest : V := f.best.sample

def getSecondBest : V := f.secondBest.sample

def getThirdBest : V := f.thirdBest.sample

def setWindowLength (windowLength : T) : WindowedFilter V T :=
  { f with windowLength := windowLength }

def reset : WindowedFilter V T :=
  { f with best := ⟨newSample, newTime⟩, secondBest := ⟨newSample, newTime⟩,
           thirdBest := ⟨newSample, newTime⟩ }

/-- A sample that is better than the second or third best replaces them. -/
def insert : WindowedFilter V T :=
  if 0 ≤ f.comparator newSample f.secondBest.sample then
    { f with secondBest := ⟨newSample, newTime⟩, thirdBest := ⟨newSample, newTime⟩ }
  else if 0 ≤ f.comparator newSample f.thirdBest.sample then
    { f with thirdBest := ⟨newSample, newTime⟩ }
  else f

section update

variable [LT T] [DecidableLT T] [Sub T] [Div T] [OfNat T 2] [OfNat T 4]

/-- The best estimate is older than the window: the others move up, once or twice. -/
def promote (newSample : V) (newTime : T) : WindowedFilter V T :=
  let f := { f with best := f.secondBest, secondBest := f.thirdBest,
                    thirdBest := ⟨newSample, newTime⟩ }
  if f.windowLength < newTime - f.best.time then
    { f with best := f.secondBest, secondBest := f.thirdBest }
  else f

def expire (newSample : V) (newTime : T) : WindowedFilter V T :=
  if f.windowLength < newTime - f.best.time then f.promote newSample newTime
  else if f.comparator f.secondBest.sample f.best.sample = 0 ∧
      f.windowLength / 4 < newTime - f.secondBest.time then
    { f with secondBest := ⟨newSample, newTime⟩, thirdBest := ⟨newSample, newTime⟩ }
  else if f.comparator f.thirdBest.sample f.secondBest.sample = 0 ∧
      f.windowLength / 2 < newTime - f.thirdBest.time then
    { f with thirdBest := ⟨newSample, newTime⟩ }
  else f

def update [Inhabited V] (newSample : V) (newTime : T) : WindowedFilter V T :=
  if f.comparator f.best.sample default = 0 ∨ 0 ≤ f.comparator newSample f.best.sample ∨
      f.windowLength < newTime - f.thirdBest.time then
    f.reset newSample newTime
  else (f.insert newSample newTime).expire newSample newTime

end update

section History

variable [LinearOrder V] {w : UInt64} {f : WindowedFilter V UInt64}
  {obs : List (Estimate V UInt64)} {e x y : Estimate V UInt64}

theorem maxFilter_nonneg_iff {a b : V} : 0 ≤ maxFilter a b ↔ b ≤ a := by
  unfold maxFilter
  split_ifs with hlt hgt
  · exact iff_of_true (by decide) (le_of_lt hlt)
  · exact iff_of_false (by decide) (not_le.mpr hgt)
  · exact iff_of_true (by decide) (not_lt.mp hgt)

/-- The estimate was observed, and no sample observed by a later update is larger. -/
def Tops (obs : List (Estimate V UInt64)) (x : Estimate V UInt64) : Prop :=
  ∃ before after, obs = before ++ x :: after ∧ ∀ y ∈ after, y.sample ≤ x.sample

theorem Tops.snoc (h : Tops obs x) (hle : e.sample ≤ x.sample) : Tops (obs ++ [e]) x := by
  obtain ⟨before, after, rfl, hall⟩ := h
  refine ⟨before, after ++ [e], by simp, ?_⟩
  exact List.forall_mem_append.mpr ⟨hall, List.forall_mem_singleton.mpr hle⟩

theorem tops_last : Tops (obs ++ [e]) e := ⟨obs, [], rfl, by simp⟩

/-- The second estimate is not older than the first, and not larger. -/
def Follows (x y : Estimate V UInt64) : Prop := x.time ≤ y.time ∧ y.sample ≤ x.sample

theorem Follows.refl (x : Estimate V UInt64) : Follows x x := ⟨UInt64.le_refl _, le_refl _⟩

theorem Follows.trans {z : Estimate V UInt64} (h : Follows x y) (h' : Follows y z) : Follows x z :=
  ⟨UInt64.le_trans h.1 h'.1, le_trans h'.2 h.2⟩

variable (w f obs)

/-- A filter of the given window keeps three observed samples in order. -/
structure Ranks : Prop where
  settings : f.windowLength = w ∧ f.comparator = maxFilter
  tops : Tops obs f.best ∧ Tops obs f.secondBest ∧ Tops obs f.thirdBest
  order : Follows f.best f.secondBest ∧ Follows f.secondBest f.thirdBest

/-- After an update at the time `now`, the best estimate is at most one window old. -/
structure Tracks (now : UInt64) : Prop extends Ranks w f obs where
  time_le : f.thirdBest.time ≤ now
  window : now - f.best.time ≤ w

variable {w f obs}

theorem tracks_reset (hf : f.windowLength = w ∧ f.comparator = maxFilter) :
    Tracks w (f.reset e.sample e.time) (obs ++ [e]) e.time where
  settings := hf
  tops := ⟨tops_last, tops_last, tops_last⟩
  order := ⟨.refl e, .refl e⟩
  time_le := UInt64.le_refl _
  window := by simp [reset]

theorem Ranks.insert (h : Ranks w f obs) (htime : f.thirdBest.time ≤ e.time)
    (hbest : e.sample ≤ f.best.sample) :
    Ranks w (f.insert e.sample e.time) (obs ++ [e]) ∧
      Follows (f.insert e.sample e.time).thirdBest e ∧
      ((f.insert e.sample e.time).thirdBest = f.thirdBest ∨
        (f.insert e.sample e.time).thirdBest = e) := by
  obtain ⟨hset, ⟨ht₁, ht₂, ht₃⟩, h₁₂, h₂₃⟩ := h
  have hnew {y : V} (hy : ¬ 0 ≤ f.comparator e.sample y) : e.sample ≤ y := by
    rw [hset.2, maxFilter_nonneg_iff, not_le] at hy
    exact le_of_lt hy
  unfold WindowedFilter.insert
  split_ifs with hsnd hthd
  · exact ⟨⟨hset, ⟨ht₁.snoc hbest, tops_last, tops_last⟩,
      ⟨UInt64.le_trans (h₁₂.trans h₂₃).1 htime, hbest⟩, .refl e⟩, .refl e, .inr rfl⟩
  · exact ⟨⟨hset, ⟨ht₁.snoc hbest, ht₂.snoc (hnew hsnd), tops_last⟩, h₁₂,
      UInt64.le_trans h₂₃.1 htime, hnew hsnd⟩, .refl e, .inr rfl⟩
  · exact ⟨⟨hset, ⟨ht₁.snoc hbest, ht₂.snoc (hnew hsnd), ht₃.snoc (hnew hthd)⟩, h₁₂, h₂₃⟩,
      ⟨htime, hnew hthd⟩, .inl rfl⟩

/-- Every branch keeps three of the old estimates and the new sample, in their order. -/
theorem Ranks.expire (h : Ranks w f (obs ++ [e])) (hlast : Follows f.thirdBest e)
    (hthird : e.time - f.thirdBest.time ≤ w) :
    Tracks w (f.expire e.sample e.time) (obs ++ [e]) e.time := by
  obtain ⟨hset, ⟨ht₁, ht₂, ht₃⟩, h₁₂, h₂₃⟩ := h
  have hnow := UInt64.le_refl e.time
  unfold WindowedFilter.expire promote
  obtain ⟨rfl, -⟩ := id hset
  dsimp only
  split_ifs with hold hnext
  · exact ⟨⟨hset, ⟨ht₃, tops_last, tops_last⟩, hlast, .refl e⟩, hnow, hthird⟩
  · exact ⟨⟨hset, ⟨ht₂, ht₃, tops_last⟩, h₂₃, hlast⟩, hnow, UInt64.not_lt.mp hnext⟩
  all_goals have hbest := UInt64.not_lt.mp hold
  · exact ⟨⟨hset, ⟨ht₁, tops_last, tops_last⟩, (h₁₂.trans h₂₃).trans hlast, .refl e⟩, hnow, hbest⟩
  · exact ⟨⟨hset, ⟨ht₁, ht₂, tops_last⟩, h₁₂, h₂₃.trans hlast⟩, hnow, hbest⟩
  · exact ⟨⟨hset, ⟨ht₁, ht₂, ht₃⟩, h₁₂, h₂₃⟩, hlast.1, hbest⟩

theorem Tracks.update [Inhabited V] {now : UInt64} (h : Tracks w f obs now) (hle : now ≤ e.time) :
    Tracks w (f.update e.sample e.time) (obs ++ [e]) e.time := by
  have htime := UInt64.le_trans h.time_le hle
  unfold WindowedFilter.update
  split_ifs with hreset
  · exact tracks_reset h.settings
  · simp only [not_or, h.settings.1, h.settings.2, maxFilter_nonneg_iff, not_le,
      UInt64.not_lt] at hreset
    obtain ⟨hranks, hlast, hthird⟩ := h.toRanks.insert htime (le_of_lt hreset.2.1)
    apply hranks.expire hlast
    rcases hthird with heq | heq <;> rw [heq]
    · exact hreset.2.2
    · simp

variable [Inhabited V]

def run (w : UInt64) (obs : List (Estimate V UInt64)) : WindowedFilter V UInt64 :=
  obs.foldl (fun f e => f.update e.sample e.time) (new w maxFilter)

/-- After every update of a run with non-decreasing times, the estimates are in order, and the best
one is an observed sample, at most one window old and not smaller than those observed since. -/
theorem run_tracks (w : UInt64) (obs : List (Estimate V UInt64)) (last : Estimate V UInt64)
    (htimes : (obs ++ [last]).Pairwise fun x y => x.time ≤ y.time) :
    Tracks w (run w (obs ++ [last])) (obs ++ [last]) last.time := by
  induction obs using List.reverseRecOn generalizing last with
  | nil =>
    have hzero : maxFilter (default : V) default = 0 := by simp [maxFilter]
    change Tracks w (WindowedFilter.update _ _ _) ([] ++ [last]) _
    rw [update, if_pos (.inl hzero)]
    exact tracks_reset ⟨rfl, rfl⟩
  | append_singleton obs e ih =>
    obtain ⟨hobs, -, hle⟩ := List.pairwise_append.mp htimes
    have hstep := (ih e hobs).update (hle e (by simp) last (by simp))
    rwa [run, List.foldl_append]

end History

/-- The second sample of the time 9 takes the place of the first one, and becomes the best estimate
when the older one expires. -/
theorem run_forgets_same_time :
    let obs : List (Estimate ℕ UInt64) := [⟨10, 0⟩, ⟨6, 3⟩, ⟨5, 9⟩, ⟨4, 9⟩, ⟨3, 12⟩]
    (obs.Pairwise fun x y => x.time ≤ y.time) ∧ (run 8 obs).best = ⟨4, 9⟩ ∧ ⟨5, 9⟩ ∈ obs := by
  decide

theorem run_tracks_expiry :
    Tracks 8 (run 8 [⟨10, 0⟩, ⟨6, 3⟩, ⟨5, 9⟩, ⟨4, 9⟩, (⟨3, 12⟩ : Estimate ℕ UInt64)])
      [⟨10, 0⟩, ⟨6, 3⟩, ⟨5, 9⟩, ⟨4, 9⟩, ⟨3, 12⟩] 12 :=
  run_tracks 8 [⟨10, 0⟩, ⟨6, 3⟩, ⟨5, 9⟩, ⟨4, 9⟩] ⟨3, 12⟩ (by decide)

end WindowedFilter

end Outbound.Bbr
