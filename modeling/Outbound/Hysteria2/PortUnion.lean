import Mathlib.Data.List.Sort
import Outbound.Anytls.Padding

/-! Specifications of ports: single ports and ranges with commas between them, which the dialer that
hops reads into a union of ranges. -/
namespace Outbound.Hysteria2.Udphop

open Lib Anytls List

structure PortRange where
  start : ℕ
  stop : ℕ
deriving DecidableEq

def PortRange.Has (r : PortRange) (p : ℕ) : Prop := r.start ≤ p ∧ p ≤ r.stop

/-- One round of the loop of `ParsePortUnion`; a range may be written in either order. -/
def parsePort (portStr : Bytes) : Option PortRange :=
  if 45 ∈ portStr then
    match portStr.splitOn 45 with
    | [a, b] =>
      (parseUint a 16).bind fun start => (parseUint b 16).map fun stop =>
        if start > stop then ⟨stop, start⟩ else ⟨start, stop⟩
    | _ => none
  else (parseUint portStr 16).map fun port => ⟨port, port⟩

def mergeFrom (last : PortRange) : List PortRange → List PortRange
  | [] => [last]
  | current :: rest =>
    if current.start ≤ last.stop + 1 then
      mergeFrom (if current.stop > last.stop then { last with stop := current.stop } else last) rest
    else last :: mergeFrom current rest

def PortRange.before (a b : PortRange) : Bool :=
  a.start < b.start ∨ a.start = b.start ∧ a.stop ≤ b.stop

variable (u : List PortRange)

def normalize : List PortRange :=
  match u.mergeSort PortRange.before with
  | [] => []
  | first :: rest => mergeFrom first rest

/-- `all` and `*` mean every port. -/
def parsePortUnion (s : Bytes) : Option (List PortRange) :=
  if s = [97, 108, 108] ∨ s = [42] then some [⟨0, 65535⟩]
  else ((s.splitOn 44).mapM parsePort).map normalize

theorem has_mergeFrom {last : PortRange} {rest : List PortRange}
    (h : (last :: rest).Pairwise fun a b => a.start ≤ b.start) (p : ℕ) :
    (∃ r ∈ mergeFrom last rest, r.Has p) ↔ ∃ r ∈ last :: rest, r.Has p := by
  induction rest generalizing last with
  | nil => rfl
  | cons current rest ih =>
    obtain ⟨hlast, htail⟩ := pairwise_cons.mp h
    have hstart := hlast current mem_cons_self
    have hlonger (stop : ℕ)
        (hhas : (PortRange.mk last.start stop).Has p ↔ last.Has p ∨ current.Has p) :
        (∃ r ∈ mergeFrom ⟨last.start, stop⟩ rest, r.Has p) ↔
          ∃ r ∈ last :: current :: rest, r.Has p := by
      rw [ih, exists_mem_cons_iff, exists_mem_cons_iff, exists_mem_cons_iff, hhas, or_assoc]
      exact pairwise_cons.mpr ⟨fun r hr => hlast r (mem_cons_of_mem _ hr), htail.tail⟩
    unfold mergeFrom
    split_ifs
    · exact hlonger _ (by simp only [PortRange.Has]; omega)
    · exact hlonger _ (by simp only [PortRange.Has]; omega)
    · simp only [exists_mem_cons_iff, ih htail]

theorem sorted_mergeSort :
    (u.mergeSort PortRange.before).Pairwise fun a b => a.start ≤ b.start := by
  apply (pairwise_mergeSort _ _ u).imp
  all_goals simp only [PortRange.before, Bool.or_eq_true, decide_eq_true_eq]; omega

/-- Sorting and merging keep the ports. -/
theorem has_normalize (p : ℕ) : (∃ r ∈ normalize u, r.Has p) ↔ ∃ r ∈ u, r.Has p := by
  have hsorted := sorted_mergeSort u
  unfold normalize
  simp only [← (mergeSort_perm u PortRange.before).mem_iff]
  cases hsort : u.mergeSort PortRange.before with
  | nil => rfl
  | cons first rest => exact has_mergeFrom (hsort ▸ hsorted) p

/-- The inner loop of `Ports`, whose counter has 32 bits. -/
def portsFrom (stop : ℕ) : ℕ → ℕ → Option (List ℕ)
  | 0, _ => none
  | fuel + 1, i =>
    if i ≤ stop then (portsFrom stop fuel ((i + 1) % 4294967296)).map (i % 65536 :: ·) else some []

def ports (fuel : ℕ) (u : List PortRange) : Option (List ℕ) :=
  (u.mapM fun r => portsFrom r.stop fuel r.start).map flatten

def PortRange.Valid (r : PortRange) : Prop := r.start ≤ r.stop ∧ r.stop < 65536

theorem portsFrom_eq {stop fuel i : ℕ} (hstop : stop < 65536) (hfuel : stop + 1 - i < fuel) :
    portsFrom stop fuel i = some (range' i (stop + 1 - i)) := by
  induction fuel generalizing i with
  | zero => exact absurd hfuel (Nat.not_lt_zero _)
  | succ fuel ih =>
    unfold portsFrom
    split_ifs with hi
    · have hnext : (i + 1) % 4294967296 = i + 1 := Nat.mod_eq_of_lt (by omega)
      have hport : i % 65536 = i := Nat.mod_eq_of_lt (by omega)
      have hlen : stop + 1 - i = stop + 1 - (i + 1) + 1 := by omega
      rw [hnext, hport, ih (by omega), hlen, range'_succ]
      rfl
    · rw [Nat.sub_eq_zero_of_le (by omega)]
      rfl

theorem mergeFrom_separated {last : PortRange} {rest : List PortRange}
    (hvalid : ∀ r ∈ last :: rest, r.Valid)
    (h : (last :: rest).Pairwise fun a b => a.start ≤ b.start) :
    (∀ r ∈ mergeFrom last rest, last.start ≤ r.start ∧ r.Valid) ∧
      (mergeFrom last rest).Pairwise fun a b => a.start < b.start ∧ a.stop + 1 < b.start := by
  induction rest generalizing last with
  | nil => simpa [mergeFrom] using hvalid
  | cons current rest ih =>
    obtain ⟨hlast, htail⟩ := pairwise_cons.mp h
    obtain ⟨hv, hvtail⟩ := forall_mem_cons.mp hvalid
    have hstart := hlast current mem_cons_self
    have hc := hvtail current mem_cons_self
    have hlonger (stop : ℕ) (hstop : (PortRange.mk last.start stop).Valid) :=
      @ih ⟨last.start, stop⟩
        (forall_mem_cons.mpr ⟨hstop, fun r hr => hvtail r (mem_cons_of_mem _ hr)⟩)
        (pairwise_cons.mpr ⟨fun r hr => hlast r (mem_cons_of_mem _ hr), htail.tail⟩)
    unfold PortRange.Valid at hv hc
    unfold mergeFrom
    split_ifs
    · exact hlonger _ ⟨hstart.trans hc.1, hc.2⟩
    · exact hlonger _ hv
    · obtain ⟨hall, hpairs⟩ := ih hvtail htail
      refine ⟨forall_mem_cons.mpr ⟨⟨le_rfl, hv⟩, fun r hr => ?_⟩,
        pairwise_cons.mpr ⟨fun r hr => ?_, hpairs⟩⟩
      · exact ⟨hstart.trans (hall r hr).1, (hall r hr).2⟩
      · have hlow := (hall r hr).1
        omega

theorem ports_eq {v : List PortRange} (h : ∀ r ∈ v, r.Valid) :
    ports (65536 + 1) v = some (v.flatMap fun r => range' r.start (r.stop + 1 - r.start)) := by
  have hmap : v.mapM (fun r => portsFrom r.stop (65536 + 1) r.start) =
      some (v.map fun r => range' r.start (r.stop + 1 - r.start)) := by
    induction v with
    | nil => rfl
    | cons r v ih =>
      obtain ⟨hr, hv⟩ := forall_mem_cons.mp h
      have hstop := hr.2
      rw [mapM_cons, portsFrom_eq hstop (by omega), ih hv]
      rfl
  rw [ports, hmap]
  rfl

/-- A union is normalized into ranges in order, neither overlapping nor adjacent, with the same ports,
and its ports are then listed once each in order. -/
theorem normalize_canonical (u : List { r : PortRange // r.Valid }) :
    let v := normalize (u.map Subtype.val)
    (∀ r ∈ v, r.start ≤ r.stop) ∧
      v.Pairwise (fun a b => a.start < b.start ∧ a.stop + 1 < b.start) ∧
      (∀ p, (∃ r ∈ v, r.Has p) ↔ ∃ r ∈ u, r.1.Has p) ∧
      ∃ fuel ps, ports fuel v = some ps ∧ ps.Pairwise (· < ·) ∧
        ∀ p, p ∈ ps ↔ ∃ r ∈ u, r.1.Has p := by
  intro v
  have hhas (p : ℕ) : (∃ r ∈ v, r.Has p) ↔ ∃ r ∈ u, r.1.Has p := by
    rw [has_normalize]
    simp
  have hcanon : (∀ r ∈ v, r.Valid) ∧
      v.Pairwise fun a b => a.start < b.start ∧ a.stop + 1 < b.start := by
    have hsorted := sorted_mergeSort (u.map Subtype.val)
    have hvalid : ∀ r ∈ (u.map Subtype.val).mergeSort PortRange.before, r.Valid := by
      intro r hr
      obtain ⟨x, -, rfl⟩ := mem_map.mp ((mergeSort_perm _ _).mem_iff.mp hr)
      exact x.2
    unfold v normalize
    cases hsort : (u.map Subtype.val).mergeSort PortRange.before with
    | nil => simp
    | cons first rest =>
      rw [hsort] at hsorted hvalid
      obtain ⟨hall, hpairs⟩ := mergeFrom_separated hvalid hsorted
      exact ⟨fun r hr => (hall r hr).2, hpairs⟩
  refine ⟨fun r hr => (hcanon.1 r hr).1, hcanon.2, hhas, _, _, ports_eq hcanon.1, ?_, fun p => ?_⟩
  · refine pairwise_flatMap.mpr ⟨fun r _ => pairwise_lt_range', hcanon.2.imp ?_⟩
    intro a b hab x hx y hy
    rw [mem_range'_1] at hx hy
    omega
  · rw [← hhas, mem_flatMap]
    apply exists_congr
    intro r
    apply and_congr_right
    rw [mem_range'_1, PortRange.Has]
    omega

end Outbound.Hysteria2.Udphop
