import Outbound.Lib.Bytes

/-! Padding schemes: the text a server sends, its compilation into rules, and the record sizes a
rule gives for one packet. -/
namespace Outbound.Anytls

open Lib

variable (s : Bytes)

def decimal : Option ℕ :=
  if s = [] ∨ s.any (fun c => c < 48 || c > 57) then none
  else some (s.foldl (fun n c => n * 10 + (c.toNat - 48)) 0)

def parseUint (bitSize : ℕ) : Option ℕ :=
  (decimal s).bind fun n => if n < 2 ^ bitSize then some n else none

/-- `strconv.ParseInt(s, 10, 64)`, and so `strconv.Atoi`. -/
def parseInt : Option ℤ :=
  match s with
  | 45 :: digits =>
    (parseUint digits 64).bind fun n => if n ≤ 2 ^ 63 then some (-(n : ℤ)) else none
  | 43 :: digits => (parseUint digits 64).bind fun n => if n < 2 ^ 63 then some (n : ℤ) else none
  | digits => (parseUint digits 64).bind fun n => if n < 2 ^ 63 then some (n : ℤ) else none

abbrev TextMap := List (Bytes × Bytes)

def TextMap.set (m : TextMap) (k v : Bytes) : TextMap := (k, v) :: m.filter (fun e => e.1 ≠ k)

/-- `strings.SplitN(line, "=", 2)`, where it has two parts. -/
def splitAssign (line : Bytes) : Option (Bytes × Bytes) :=
  if 61 ∈ line then some (line.takeWhile (· ≠ 61), (line.dropWhile (· ≠ 61)).drop 1) else none

def stringMapFromBytes (b : Bytes) : TextMap :=
  (b.splitOn 10).foldl
    (fun m line =>
      match splitAssign line with
      | some (k, v) => m.set k v
      | none => m)
    []

inductive PaddingRange where
  | fixed (min : ℤ)
  | range (min max : ℤ)
  | checkMark
deriving DecidableEq

def PaddingRange.Valid : PaddingRange → Prop
  | .fixed min => 0 < min
  | .range min max => 0 < min ∧ min < max
  | .checkMark => True

/-- One element of the comma-separated list; `none` where the source drops it. -/
def compileRange (sRange : Bytes) : Option PaddingRange :=
  match sRange.splitOn 45 with
  | [first, second] =>
    match parseInt first, parseInt second with
    | some a, some b =>
      let lo := min a b
      let hi := max a b
      if lo ≤ 0 ∨ hi ≤ 0 then none
      else if lo = hi then some (.fixed lo)
      else some (.range lo hi)
    | _, _ => none
  | _ => if sRange = [99] then some .checkMark else none

def compileRanges (spec : Bytes) : List PaddingRange := (spec.splitOn 44).filterMap compileRange

variable (p : PaddingFactory) (pkt : UInt32) (rnd : ℕ → ℕ) {r : PaddingRange}

theorem valid_of_compileRange {sRange : Bytes} (h : compileRange sRange = some r) : r.Valid := by
  unfold compileRange at h
  split at h
  · split at h
    · rename_i a b _ _
      dsimp only at h
      split_ifs at h with hpos heq
      · cases h
        show 0 < min a b
        omega
      · cases h
        show 0 < min a b ∧ min a b < max a b
        omega
    · cases h
  · split_ifs at h
    cases h
    trivial

theorem valid_of_mem_compileRanges {spec : Bytes} (h : r ∈ compileRanges spec) : r.Valid := by
  obtain ⟨sRange, _, hr⟩ := List.mem_filterMap.mp h
  exact valid_of_compileRange hr

/-- The rules of a scheme, by packet number; every element of every rule is valid. -/
structure PaddingFactory where
  stop : UInt32
  rules : UInt32 → Option (List PaddingRange)
  valid : ∀ pkt ranges, rules pkt = some ranges → ∀ r ∈ ranges, r.Valid

/-- The order in which a loop over a map meets its entries, which the language leaves open. -/
structure MapOrder where
  iterate : TextMap → TextMap
  perm : ∀ m, (iterate m).Perm m

def stopKey : Bytes := [115, 116, 111, 112]

def addRule (rules : UInt32 → Option (List PaddingRange)) (e : Bytes × Bytes) :
    UInt32 → Option (List PaddingRange) :=
  if e.1 = stopKey then rules
  else
    match parseUint e.1 32 with
    | none => rules
    | some pktNum =>
      let compiled := compileRanges e.2
      if compiled = [] then rules
      else Function.update rules (.ofNat pktNum) (some compiled)

variable {rules : UInt32 → Option (List PaddingRange)}

theorem addRule_valid
    (h : ∀ pkt ranges, rules pkt = some ranges → ∀ r ∈ ranges, r.Valid) (e : Bytes × Bytes)
    (pkt : UInt32) (ranges : List PaddingRange) (hr : addRule rules e pkt = some ranges) :
    ∀ r ∈ ranges, r.Valid := by
  unfold addRule at hr
  split_ifs at hr with hstop
  · exact h pkt ranges hr
  · cases hnum : parseUint e.1 32 with
    | none =>
      rw [hnum] at hr
      exact h pkt ranges hr
    | some pktNum =>
      simp only [hnum] at hr
      split_ifs at hr
      · exact h pkt ranges hr
      · rw [Function.update_apply] at hr
        split_ifs at hr
        · cases hr
          exact fun r hmem => valid_of_mem_compileRanges hmem
        · exact h pkt ranges hr

theorem addRules_valid (es : TextMap)
    (h : ∀ pkt ranges, rules pkt = some ranges → ∀ r ∈ ranges, r.Valid) :
    ∀ pkt ranges, es.foldl addRule rules pkt = some ranges → ∀ r ∈ ranges, r.Valid := by
  induction es generalizing rules with
  | nil => exact h
  | cons e es ih => exact ih (addRule_valid h e)

/-- `NewPaddingFactory`; `none` is its `nil`. -/
def newPaddingFactory (order : MapOrder) (rawScheme : Bytes) : Option PaddingFactory :=
  let scheme := stringMapFromBytes rawScheme
  if scheme.length = 0 then none
  else
    match parseInt ((scheme.lookup stopKey).getD []) with
    | none => none
    | some stop =>
      some {
        stop := .ofNat (stop % 2 ^ 32).toNat
        rules := (order.iterate scheme).foldl addRule fun _ => none
        valid := addRules_valid _ fun _ _ h => nomatch h }

def checkMark : ℤ := -1

/-- `rand.IntN(n)`, which panics unless `n` is positive, for the number `v` the generator has. -/
def intN (n : ℤ) (v : ℕ) : Option ℤ := if 0 < n then some (v % n) else none

def PaddingRange.size (r : PaddingRange) (v : ℕ) : Option ℤ :=
  match r with
  | .fixed min => some min
  | .range min max => (intN (max - min) v).map (min + ·)
  | .checkMark => some Anytls.checkMark

def payloadSizes : List PaddingRange → (ℕ → ℕ) → Option (List ℤ)
  | [], _ => some []
  | r :: ranges, rnd =>
    match r.size (rnd 0), payloadSizes ranges fun i => rnd (i + 1) with
    | some l, some sizes => some (l :: sizes)
    | _, _ => none

def PaddingFactory.generateRecordPayloadSizes : Option (List ℤ) :=
  match p.rules pkt with
  | none => some []
  | some ranges => payloadSizes ranges rnd

def GoodSize (l : ℤ) : Prop := l = checkMark ∨ 0 < l

theorem PaddingRange.Valid.exists_size (h : r.Valid) (v : ℕ) :
    ∃ l, r.size v = some l ∧ GoodSize l := by
  cases r with
  | fixed min => exact ⟨min, rfl, .inr h⟩
  | range min max =>
    obtain ⟨hmin, hlt⟩ := h
    have hdraw : 0 ≤ (v : ℤ) % (max - min) := Int.emod_nonneg _ (by omega)
    refine ⟨min + v % (max - min), ?_, .inr ?_⟩
    · simp [PaddingRange.size, intN, hlt]
    · omega
  | checkMark => exact ⟨Anytls.checkMark, rfl, .inl rfl⟩

theorem exists_payloadSizes (ranges : List PaddingRange) (h : ∀ r ∈ ranges, r.Valid)
    (rnd : ℕ → ℕ) : ∃ sizes, payloadSizes ranges rnd = some sizes ∧ ∀ l ∈ sizes, GoodSize l := by
  induction ranges generalizing rnd with
  | nil => exact ⟨[], rfl, by simp⟩
  | cons r ranges ih =>
    obtain ⟨l, hl, hgood⟩ := (h r (by simp)).exists_size (rnd 0)
    obtain ⟨sizes, hsizes, hall⟩ := ih (fun r' hr' => h r' (by simp [hr'])) fun i => rnd (i + 1)
    refine ⟨l :: sizes, ?_, List.forall_mem_cons.mpr ⟨hgood, hall⟩⟩
    simp only [payloadSizes, hl, hsizes]

/-- No packet number and no draw makes a factory panic, and every size it gives is a check mark or
positive. -/
theorem PaddingFactory.exists_generateRecordPayloadSizes :
    ∃ sizes, p.generateRecordPayloadSizes pkt rnd = some sizes ∧ ∀ l ∈ sizes, GoodSize l := by
  unfold generateRecordPayloadSizes
  cases hr : p.rules pkt with
  | none => exact ⟨[], rfl, by simp⟩
  | some ranges => exact exists_payloadSizes ranges (p.valid pkt ranges hr) rnd

end Outbound.Anytls
