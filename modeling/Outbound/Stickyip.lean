import Mathlib.Algebra.Order.BigOperators.Group.List
import Mathlib.Tactic.Linarith
import Outbound.Hysteria2.PortUnion
import Outbound.Lib.Run

/-! The sticky addresses of a proxy: the cache of the addresses that worked, how the time that is left
is split between the attempts to dial, and whether a specification of ports means the port of a
server. Times are in nanoseconds. -/
namespace Outbound.Stickyip

open List Function

def cacheTTL : ℕ := 5 * 60 * 1000000000

def cacheCleanupInterval : ℕ := 60 * 1000000000

inductive Network where
  | tcp
  | udp
deriving DecidableEq

inductive IpVersion where
  | v4
  | v6
deriving DecidableEq

abbrev Key := Network × IpVersion

/-- `addr` are the four addresses `tcp4Addr` to `udp6Addr`. -/
structure ProxyIpEntry where
  addr : Key → String
  expiresAt : ℕ
  checkCycle : ℕ

/-- No time of the next cleanup is the zero time. -/
structure ProxyIpCache where
  cache : String → Option ProxyIpEntry
  nextCleanupAt : Option ℕ

namespace ProxyIpCache

def new : ProxyIpCache := ⟨fun _ => none, none⟩

variable (c : ProxyIpCache)

def delete (addr : String) : ProxyIpCache :=
  { c with cache := update c.cache addr none }

variable (now : ℕ)

def cleanupExpired : ProxyIpCache :=
  { c with cache := fun addr => (c.cache addr).filter fun entry => now ≤ entry.expiresAt }

def maybeCleanupExpired : ProxyIpCache :=
  if c.nextCleanupAt.any (now < ·) then c
  else { c.cleanupExpired now with nextCleanupAt := some (now + cacheCleanupInterval) }

def set (originalAddr actualAddr : String) (key : Key) (cycle : ℕ) : ProxyIpCache :=
  let c := c.maybeCleanupExpired now
  let entry := (c.cache originalAddr).getD ⟨fun _ => "", 0, 0⟩
  { c with
    cache := update c.cache originalAddr
      (some ⟨update entry.addr key actualAddr, now + cacheTTL, cycle⟩) }

variable (proxyAddr : String)

def getWithCycleAndIpVersion (key : Key) (currentCycle : ℕ) : String × ProxyIpCache :=
  match c.cache proxyAddr with
  | none => (proxyAddr, c)
  | some entry =>
    if entry.expiresAt < now then (proxyAddr, c.delete proxyAddr)
    else if entry.checkCycle ≠ currentCycle then (proxyAddr, c)
    else if entry.addr key = "" then (proxyAddr, c)
    else (entry.addr key, c)

def invalidateProtocolAndIpVersion (key : Key) : ProxyIpCache :=
  match c.cache proxyAddr with
  | none => c
  | some entry =>
    let entry := { entry with addr := update entry.addr key "" }
    if entry.addr (.tcp, .v4) = "" ∧ entry.addr (.tcp, .v6) = "" ∧ entry.addr (.udp, .v4) = "" ∧
        entry.addr (.udp, .v6) = "" then c.delete proxyAddr
    else { c with cache := update c.cache proxyAddr (some entry) }

def invalidateProxyCycle (cycle : ℕ) : ProxyIpCache :=
  if (c.cache proxyAddr).any (·.checkCycle = cycle) then c.delete proxyAddr else c

end ProxyIpCache

/-- The calls, with the reading of the clock where they take one. -/
inductive Event where
  | set (now : ℕ) (addr actual : String) (key : Key) (cycle : ℕ)
  | get (now : ℕ) (addr : String) (key : Key) (cycle : ℕ)
  | invalidate (addr : String)
  | invalidateProtocolAndIpVersion (addr : String) (key : Key)
  | invalidateProxyCycle (addr : String) (cycle : ℕ)

def ProxyIpCache.step (c : ProxyIpCache) : Event → ProxyIpCache
  | .set now addr actual key cycle => c.set now addr actual key cycle
  | .get now addr key cycle => (c.getWithCycleAndIpVersion now addr key cycle).2
  | .invalidate addr => c.delete addr
  | .invalidateProtocolAndIpVersion addr key => c.invalidateProtocolAndIpVersion addr key
  | .invalidateProxyCycle addr cycle => c.invalidateProxyCycle addr cycle

def ProxyIpCache.run (events : List Event) : ProxyIpCache := Run.exec (fun c e => ((), step c e)) new events

structure Confirmed where
  actual : String
  cycle : ℕ
  setAt : ℕ
deriving DecidableEq

/-- What was stored last for every address and key, unless it was invalidated since. -/
abbrev Record := String → Key → Option Confirmed

namespace Record

def new : Record := fun _ _ => none

def step (r : Record) : Event → Record
  | .set now addr actual key cycle =>
    update r addr (update (r addr) key (some ⟨actual, cycle, now⟩))
  | .get _ _ _ _ => r
  | .invalidate addr => update r addr fun _ => none
  | .invalidateProtocolAndIpVersion addr key =>
    update r addr (update (r addr) key none)
  | .invalidateProxyCycle addr cycle =>
    update r addr fun key => (r addr key).filter (·.cycle ≠ cycle)

def of (events : List Event) : Record := events.foldl step new

end Record

/-- Every address that is there was stored in the cycle of its entry, and does not outlive its time. -/
def ProxyIpEntry.Follows (entry : ProxyIpEntry) (row : Key → Option Confirmed) : Prop :=
  ∀ key, entry.addr key ≠ "" → ∃ setAt, row key = some ⟨entry.addr key, entry.checkCycle, setAt⟩ ∧
    entry.expiresAt ≤ setAt + cacheTTL

namespace ProxyIpCache

variable {c c' : ProxyIpCache} {r : Record}

def Follows (c : ProxyIpCache) (r : Record) : Prop :=
  ∀ addr entry, c.cache addr = some entry → entry.Follows (r addr)

/-- A `Set` gives no new cycle and no more time to an address under another key. -/
def Meets (c : ProxyIpCache) : Event → Prop
  | .set now addr _ key cycle => ∀ entry, (c.maybeCleanupExpired now).cache addr = some entry →
      (∀ other ≠ key, entry.addr other = "") ∨
        entry.checkCycle = cycle ∧ now + cacheTTL ≤ entry.expiresAt
  | _ => True

section

variable (h : c.Follows r)

include h

theorem Follows.mono
    (hsub : ∀ addr entry, c'.cache addr = some entry → c.cache addr = some entry) : c'.Follows r :=
  fun addr entry hentry => h addr entry (hsub addr entry hentry)

theorem Follows.maybeCleanupExpired (now : ℕ) : (c.maybeCleanupExpired now).Follows r := by
  unfold ProxyIpCache.maybeCleanupExpired
  split_ifs
  · exact h
  · exact h.mono fun addr entry hentry => (Option.filter_eq_some_iff.mp hentry).1

theorem Follows.update {addr : String} {x : Option ProxyIpEntry}
    {row : Key → Option Confirmed} (hc' : c'.cache = update c.cache addr x)
    (hrow : ∀ entry, x = some entry → entry.Follows row) : c'.Follows (update r addr row) := by
  intro addr' entry hentry
  rw [hc'] at hentry
  rcases eq_or_ne addr' addr with rfl | hne
  · rw [update_self] at hentry ⊢
    exact hrow entry hentry
  · rw [update_of_ne hne] at hentry ⊢
    exact h addr' entry hentry

theorem Follows.delete (addr : String) (row : Key → Option Confirmed) :
    (c.delete addr).Follows (Function.update r addr row) :=
  h.update rfl fun entry hnone => absurd hnone (Option.some_ne_none entry).symm

/-- The new address, and those under other keys that keep their cycle and their time. -/
theorem Follows.set {now : ℕ} {addr actual : String} {key : Key} {cycle : ℕ}
    (hmeets : c.Meets (.set now addr actual key cycle)) :
    (c.set now addr actual key cycle).Follows (r.step (.set now addr actual key cycle)) := by
  have hclean := h.maybeCleanupExpired now
  refine hclean.update rfl ?_
  rintro _ ⟨⟩ other hother
  dsimp only at hother ⊢
  rcases eq_or_ne other key with rfl | hne
  · exact ⟨now, by simp, Nat.le_refl _⟩
  · rw [update_of_ne hne] at hother ⊢
    cases hentry : (c.maybeCleanupExpired now).cache addr with
    | none =>
      rw [hentry] at hother
      exact absurd rfl hother
    | some entry =>
      rw [hentry] at hother
      obtain ⟨setAt, hrow, hexpires⟩ := hclean addr entry hentry other hother
      rcases hmeets entry hentry with hnone | ⟨hcycle, htime⟩
      · exact absurd (hnone other hne) hother
      · refine ⟨setAt, ?_, htime.trans hexpires⟩
        rw [update_of_ne hne, hrow, hcycle]
        rfl

theorem Follows.invalidateProtocolAndIpVersion (addr : String) (key : Key) :
    (c.invalidateProtocolAndIpVersion addr key).Follows
      (r.step (.invalidateProtocolAndIpVersion addr key)) := by
  unfold ProxyIpCache.invalidateProtocolAndIpVersion
  cases hentry : c.cache addr with
  | none =>
    have hsame : c.delete addr = c := by
      simp [ProxyIpCache.delete, ← hentry]
    have := h.delete addr (Function.update (r addr) key none)
    rwa [hsame] at this
  | some entry =>
    dsimp only
    split_ifs
    · exact h.delete addr _
    · refine h.update rfl ?_
      rintro _ ⟨⟩ other hother
      dsimp only at hother ⊢
      rcases eq_or_ne other key with rfl | hne
      · rw [update_self] at hother
        exact absurd rfl hother
      · rw [update_of_ne hne] at hother ⊢
        rw [update_of_ne hne]
        exact h addr entry hentry other hother

theorem Follows.invalidateProxyCycle (addr : String) (cycle : ℕ) :
    (c.invalidateProxyCycle addr cycle).Follows (r.step (.invalidateProxyCycle addr cycle)) := by
  unfold ProxyIpCache.invalidateProxyCycle
  split_ifs with hcycle
  · exact h.delete addr _
  · refine h.update (update_eq_self addr c.cache).symm fun entry hentry key hkey => ?_
    obtain ⟨setAt, hrow, hexpires⟩ := h addr entry hentry key hkey
    refine ⟨setAt, ?_, hexpires⟩
    rw [hentry] at hcycle
    simpa [hrow] using hcycle

theorem Follows.get (now : ℕ) (addr : String) (key : Key) (cycle : ℕ) :
    (c.getWithCycleAndIpVersion now addr key cycle).2.Follows r := by
  unfold getWithCycleAndIpVersion
  cases c.cache addr with
  | none => exact h
  | some entry =>
    dsimp only
    split_ifs
    · have := h.delete addr (r addr)
      rwa [Function.update_eq_self] at this
    all_goals exact h

theorem Follows.step {e : Event} (hmeets : c.Meets e) : (c.step e).Follows (r.step e) := by
  cases e with
  | set now addr actual key cycle => exact h.set hmeets
  | get now addr key cycle => exact h.get now addr key cycle
  | invalidate addr => exact h.delete addr _
  | invalidateProtocolAndIpVersion addr key => exact h.invalidateProtocolAndIpVersion addr key
  | invalidateProxyCycle addr cycle => exact h.invalidateProxyCycle addr cycle

end

theorem follows_run {events : List Event}
    (hmeets : Run.Along (fun c e => ((), step c e)) Meets new events) :
    (run events).Follows (.of events) := by
  have hrun : ∀ (events : List Event) (c : ProxyIpCache) (r : Record), c.Follows r →
      Run.Along (fun c e => ((), step c e)) Meets c events →
      (Run.exec (fun c e => ((), step c e)) c events).Follows (events.foldl Record.step r) := by
    intro events
    induction events with
    | nil => exact fun c r h _ => h
    | cons e events ih => exact fun c r h hmeets => ih _ _ (h.step hmeets.1) hmeets.2
  have hnew : new.Follows .new := fun _ entry hnone => absurd hnone (Option.some_ne_none entry).symm
  exact hrun events new .new hnew hmeets

/-- What a lookup finds was stored for the same address and key in the same cycle, at most the time of
the cache before, and not invalidated since, as long as every `Set` meets the condition. -/
theorem found_is_confirmed {events : List Event}
    (hmeets : Run.Along (fun c e => ((), step c e)) Meets new events) (now : ℕ) (addr : String)
    (key : Key) (cycle : ℕ) :
    ((run events).getWithCycleAndIpVersion now addr key cycle).1 = addr ∨
      ∃ setAt, Record.of events addr key =
          some ⟨((run events).getWithCycleAndIpVersion now addr key cycle).1, cycle, setAt⟩ ∧
        now ≤ setAt + cacheTTL := by
  have h := follows_run hmeets addr
  unfold getWithCycleAndIpVersion
  cases hentry : (run events).cache addr with
  | none => exact .inl rfl
  | some entry =>
    dsimp only
    split_ifs with hexpired hcycle hnone
    · exact .inl rfl
    · exact .inl rfl
    · exact .inl rfl
    · obtain ⟨setAt, hrow, hexpires⟩ := h entry hentry key hnone
      rw [not_not] at hcycle
      exact .inr ⟨setAt, hcycle ▸ hrow, (Nat.not_lt.mp hexpired).trans hexpires⟩

def firstCycle : List Event := [.set 0 "p:1" "10.0.0.1:1" (.tcp, .v4) 1]

/-- After that, an address for UDP in the second cycle. -/
def secondCycle : List Event := firstCycle ++ [.set 1 "p:1" "10.0.0.2:1" (.udp, .v4) 2]

/-- The address of the first cycle is invalidated and replaced in the second. -/
theorem found_is_confirmed_again :
    let events := firstCycle ++
      [.invalidateProtocolAndIpVersion "p:1" (.tcp, .v4), .set 1 "p:1" "10.0.0.2:1" (.tcp, .v4) 2]
    ((run events).getWithCycleAndIpVersion 5 "p:1" (.tcp, .v4) 2).1 = "10.0.0.2:1" ∧
      ∃ setAt, Record.of events "p:1" (.tcp, .v4) = some ⟨"10.0.0.2:1", 2, setAt⟩ ∧
        5 ≤ setAt + cacheTTL := by
  intro events
  have hfound : ((run events).getWithCycleAndIpVersion 5 "p:1" (.tcp, .v4) 2).1 = "10.0.0.2:1" := by
    decide
  have hgone : (((run (events.take 2)).maybeCleanupExpired 1).cache "p:1").isNone = true := by decide
  have hmeets : Run.Along (fun c e => ((), step c e)) Meets new events := by
    refine ⟨fun entry hnone => ?_, trivial, fun entry hsome => ?_, trivial⟩
    · exact absurd hnone (Option.some_ne_none entry).symm
    · exact absurd (hsome ▸ hgone : (some entry).isNone = true) Bool.false_ne_true
  have h := found_is_confirmed hmeets 5 "p:1" (.tcp, .v4) 2
  exact ⟨hfound, h.resolve_left (by decide)⟩

/-- The address that was confirmed for TCP in the first cycle only is returned in the second. -/
theorem older_cycle_returned :
    ((run secondCycle).getWithCycleAndIpVersion 2 "p:1" (.tcp, .v4) 2).1 = "10.0.0.1:1" ∧
      Record.of secondCycle "p:1" (.tcp, .v4) = some ⟨"10.0.0.1:1", 1, 0⟩ := by
  decide

end ProxyIpCache

def fallbackReserve : ℤ := 750 * 1000000

/-- The time that `dialAttemptContext` gives to an attempt, of what is left until the deadline. -/
def dialAttempt (remaining attemptsRemaining : ℤ) : ℤ :=
  let attemptsRemaining := max attemptsRemaining 1
  if remaining ≤ 0 ∨ attemptsRemaining = 1 then remaining
  else
    let reserve := min ((attemptsRemaining - 1) * fallbackReserve) (remaining.tdiv 2)
    let slice := remaining - reserve
    if 0 < slice then slice
    else if 0 < remaining.tdiv 2 then remaining.tdiv 2
    else remaining

/-- The slices of the attempts, when each of them uses up its own. -/
def slices : ℕ → ℤ → List ℤ
  | 0, _ => []
  | k + 1, remaining =>
    dialAttempt remaining (k + 1) :: slices k (remaining - dialAttempt remaining (k + 1))

variable (k : ℕ) (remaining : ℤ)

/-- Every attempt gets some time, none after the deadline, and a fallback gets its reserve. -/
def SplitsWell (total : ℤ) : Prop :=
  (∀ slice ∈ slices k total, 0 < slice) ∧ (slices k total).sum ≤ total ∧
    ∀ slice ∈ (slices k total).tail, fallbackReserve ≤ slice

theorem dialAttempt_one : dialAttempt remaining 1 = remaining := by
  simp [dialAttempt]

theorem dialAttempt_of_pos {remaining : ℤ} (k : ℕ) (hpos : 0 < remaining) :
    dialAttempt remaining (↑(k + 1) + 1) =
      remaining - min (↑(k + 1) * fallbackReserve) (remaining / 2) := by
  have hmax : max ((↑(k + 1) : ℤ) + 1) 1 = ↑(k + 1) + 1 := by omega
  have hdiv : remaining.tdiv 2 = remaining / 2 := Int.tdiv_eq_ediv_of_nonneg hpos.le
  unfold dialAttempt
  rw [hmax, hdiv]
  dsimp only
  rw [Int.add_sub_cancel, if_neg (by omega), if_pos (by omega)]

theorem sum_slices : (slices (k + 1) remaining).sum = remaining := by
  induction k generalizing remaining with
  | zero => simp [slices, dialAttempt_one]
  | succ k ih =>
    rw [slices, sum_cons, ih]
    omega

theorem length_slices : (slices k remaining).length = k := by
  induction k generalizing remaining with
  | zero => rfl
  | succ k ih => rw [slices, length_cons, ih]

/-- The cap on the reserve is taken again at every fallback, of what is left then: of more than two
fallbacks the first takes from the reserve of the others. -/
theorem fallbacks_reserved_iff (j : ℕ) :
    (∀ slice ∈ slices (j + 1) (↑(j + 1) * fallbackReserve), fallbackReserve ≤ slice) ↔ j ≤ 1 := by
  cases j with
  | zero => simp [slices, dialAttempt_one]
  | succ j =>
    have hpos : (0 : ℤ) < ↑(j + 1 + 1) * fallbackReserve := by
      unfold fallbackReserve
      omega
    have hfirst := dialAttempt_of_pos j hpos
    have hsum := sum_slices (j + 1) (↑(j + 1 + 1) * fallbackReserve)
    rw [slices, sum_cons] at hsum
    rw [slices, forall_mem_cons]
    generalize dialAttempt _ _ = slice at hfirst hsum ⊢
    unfold fallbackReserve at hfirst hsum ⊢
    constructor
    · rintro ⟨-, hrest⟩
      have hall := card_nsmul_le_sum _ _ hrest
      rw [length_slices, nsmul_eq_mul] at hall
      omega
    · intro hj
      obtain rfl : j = 0 := by omega
      obtain rfl : slice = 750 * 1000000 := by omega
      simp [slices, dialAttempt_one]

theorem splitsWell_iff {k : ℕ} {total : ℤ} (hk : 1 ≤ k)
    (htotal : (k - 1) * fallbackReserve ≤ total / 2) : SplitsWell k total ↔ 0 < total ∧ k ≤ 3 := by
  obtain ⟨k, rfl⟩ := Nat.exists_eq_add_of_le' hk
  have hsum : (slices (k + 1) total).sum ≤ total := (sum_slices k total).le
  unfold SplitsWell
  cases k with
  | zero => simp [slices, dialAttempt_one]
  | succ j =>
    have hpos : 0 < total := by
      unfold fallbackReserve at htotal
      omega
    have hfirst : dialAttempt total (↑(j + 1) + 1) = total - ↑(j + 1) * fallbackReserve := by
      rw [dialAttempt_of_pos j hpos, min_eq_left]
      simpa using htotal
    have hrest : slices (j + 1 + 1) total =
        (total - ↑(j + 1) * fallbackReserve) :: slices (j + 1) (↑(j + 1) * fallbackReserve) := by
      rw [slices, hfirst, Int.sub_sub_self]
    rw [hrest] at hsum ⊢
    rw [tail_cons, fallbacks_reserved_iff, forall_mem_cons]
    constructor
    · rintro ⟨-, -, hj⟩
      exact ⟨hpos, Nat.add_le_add_right hj 2⟩
    · rintro ⟨-, hk⟩
      have hj : j ≤ 1 := by omega
      refine ⟨⟨?_, fun slice hslice => ?_⟩, hsum, hj⟩
      · unfold fallbackReserve at htotal ⊢
        omega
      · exact lt_of_lt_of_le (by decide) ((fallbacks_reserved_iff j).mpr hj slice hslice)

theorem splitsWell_iff_two : SplitsWell 2 1500000000 ↔ 0 < (1500000000 : ℤ) ∧ 2 ≤ 3 :=
  splitsWell_iff (by decide) (by decide)

/-- With four addresses and four and a half seconds the last two attempts get less than their
reserve. -/
theorem reserve_not_kept :
    slices 4 4500000000 = [2250000000, 1125000000, 562500000, 562500000] ∧
      ¬ SplitsWell 4 4500000000 := by
  have hslices : slices 4 4500000000 = [2250000000, 1125000000, 562500000, 562500000] := by decide
  refine ⟨hslices, fun h => ?_⟩
  have hlast := h.2.2 562500000 (by rw [hslices]; decide)
  cases hlast

section PortSpec

open Lib Anytls Hysteria2.Udphop

/-- `strconv.Itoa`. -/
def itoa (n : ℕ) : Bytes :=
  if n < 10 then [.ofNat (48 + n)] else itoa (n / 10) ++ [.ofNat (48 + n % 10)]

def cut (sep : UInt8) (s : Bytes) : Option (Bytes × Bytes) :=
  if sep ∈ s then some (s.takeWhile (· ≠ sep), (s.dropWhile (· ≠ sep)).drop 1) else none

/-- The white space of Unicode in UTF-8. -/
def spaces : List Bytes :=
  [[9], [10], [11], [12], [13], [32], [194, 133], [194, 160], [225, 154, 128], [226, 128, 168],
    [226, 128, 169], [226, 128, 175], [226, 129, 159], [227, 128, 128]] ++
    (range 11).map fun i => [226, 128, 128 + .ofNat i]

def dropFront (ws : List Bytes) (s : Bytes) : Bytes :=
  match ws.find? fun w => s.take w.length = w with
  | some w => s.drop w.length
  | none => s

def trimSpace (s : Bytes) : Bytes :=
  let left := (dropFront spaces)^[s.length] s
  ((dropFront (spaces.map reverse))^[s.length] left.reverse).reverse

/-- One round of the loop of `matchPortSpec`. -/
def matchPart (port part : Bytes) : Bool :=
  let part := trimSpace part
  if part = [] then false
  else if part = port then true
  else
    match cut 45 part with
    | none => false
    | some (startStr, endStr) =>
      match parseInt (trimSpace startStr), parseInt (trimSpace endStr), parseInt port with
      | some start, some stop, some target => target ≥ start ∧ target ≤ stop
      | _, _, _ => false

def matchPortSpec (port spec : Bytes) : Bool :=
  if port = spec ∨ spec = [] then true else (spec.splitOn 44).any (matchPart port)

/-- The numbers of a part are `p`, or have it between them in either order. -/
def Encloses (part : Bytes) (p : ℕ) : Prop :=
  match part.splitOn 45 with
  | [a] => decimal a = some p
  | [a, b] => ∃ m ∈ decimal a, ∃ n ∈ decimal b, m ≤ p ∧ p ≤ n ∨ n ≤ p ∧ p ≤ m
  | _ => False

/-- The part is `p` without leading zeros, or a range with the smaller number first. -/
def Spells (part : Bytes) (p : ℕ) : Prop :=
  match part.splitOn 45 with
  | [a] => a = itoa p
  | [a, b] => ∃ m ∈ decimal a, ∃ n ∈ decimal b, m ≤ p ∧ p ≤ n
  | _ => False

section Digits

variable {s : Bytes} {n : ℕ}

theorem digits_of_decimal (h : decimal s = some n) : s ≠ [] ∧ ∀ c ∈ s, 48 ≤ c ∧ c ≤ 57 := by
  unfold decimal at h
  split_ifs at h with hbad
  simpa [not_or] using hbad

theorem decimal_concat {d : ℕ} (hs : ∀ c ∈ s, 48 ≤ c ∧ c ≤ 57) (hd : d < 10) :
    decimal (s ++ [.ofNat (48 + d)]) =
      some (s.foldl (fun n c => n * 10 + (c.toNat - 48)) 0 * 10 + d) := by
  have hbyte : (48 + d) % 256 = 48 + d := Nat.mod_eq_of_lt (by omega)
  unfold decimal
  rw [if_neg]
  · simp [hbyte]
  · have hlast : 48 + d ≤ 57 := by omega
    simpa [UInt8.lt_iff_toNat_lt, UInt8.le_iff_toNat_le, hbyte, hlast] using hs

theorem decimal_itoa (n : ℕ) : decimal (itoa n) = some n := by
  fun_induction itoa n with
  | case1 n h => simpa using decimal_concat (s := []) nofun h
  | case2 n h ih =>
    have hvalue := ih
    unfold decimal at hvalue
    split_ifs at hvalue
    rw [decimal_concat (digits_of_decimal ih).2 (Nat.mod_lt n (by decide)), Option.some_inj.mp hvalue]
    congr 1
    omega

theorem parseUint_eq_some (bits : ℕ) :
    parseUint s bits = some n ↔ decimal s = some n ∧ n < 2 ^ bits := by
  simp only [parseUint, Option.bind_eq_some_iff, Option.ite_none_right_eq_some, Option.some_inj]
  constructor
  · rintro ⟨m, hm, hlt, rfl⟩
    exact ⟨hm, hlt⟩
  · rintro ⟨hn, hlt⟩
    exact ⟨n, hn, hlt, rfl⟩

theorem parseInt_of_decimal (h : decimal s = some n) (hn : n < 2 ^ 63) : parseInt s = some (n : ℤ) := by
  have huint : parseUint s 64 = some n := (parseUint_eq_some 64).mpr ⟨h, by omega⟩
  obtain ⟨-, hdigits⟩ := digits_of_decimal h
  unfold parseInt
  split
  · exact absurd (hdigits 45 mem_cons_self) (by decide)
  · exact absurd (hdigits 43 mem_cons_self) (by decide)
  · rw [huint, Option.bind_some, if_pos hn]

theorem dropFront_eq {ws : List Bytes} (hs : ∀ c ∈ s, c = 45 ∨ 48 ≤ c ∧ c ≤ 57)
    (hws : ∀ w ∈ ws, ∃ c ∈ w, ¬ (c = 45 ∨ 48 ≤ c ∧ c ≤ 57)) : dropFront ws s = s := by
  have hnone : (ws.find? fun w => s.take w.length = w) = none := by
    rw [find?_eq_none]
    intro w hw htake
    obtain ⟨c, hc, hno⟩ := hws w hw
    rw [← of_decide_eq_true htake] at hc
    exact hno (hs c (mem_of_mem_take hc))
  rw [dropFront, hnone]

theorem trimSpace_eq (h : ∀ c ∈ s, c = 45 ∨ 48 ≤ c ∧ c ≤ 57) : trimSpace s = s := by
  have hright : ∀ c ∈ s.reverse, c = 45 ∨ 48 ≤ c ∧ c ≤ 57 := fun c hc => h c (mem_reverse.mp hc)
  unfold trimSpace
  dsimp only
  rw [Function.iterate_fixed (dropFront_eq h (by decide)),
    Function.iterate_fixed (dropFront_eq hright (by decide)), reverse_reverse]

end Digits

section Part

variable {part : Bytes} {r : PortRange} {p : ℕ}

section

variable (h : parsePort part = some r)

include h

theorem parsePort_cases :
    (part.splitOn 45 = [part] ∧ ∃ n, decimal part = some n ∧ r = ⟨n, n⟩) ∨
      ∃ a b m n, part = a ++ 45 :: b ∧ part.splitOn 45 = [a, b] ∧ decimal a = some m ∧ m < 2 ^ 16 ∧
        decimal b = some n ∧ n < 2 ^ 16 ∧ r = if m > n then ⟨n, m⟩ else ⟨m, n⟩ := by
  unfold parsePort at h
  split_ifs at h with hdash
  · right
    split at h
    · rename_i a b hsplit
      simp only [Option.bind_eq_some_iff, Option.map_eq_some_iff, parseUint_eq_some] at h
      obtain ⟨m, ⟨ha, hm⟩, n, ⟨hb, hn⟩, rfl⟩ := h
      have hpart : [45].intercalate (part.splitOn 45) = part := intercalate_splitOn 45
      rw [hsplit] at hpart
      exact ⟨a, b, m, n, by simpa using hpart.symm, hsplit, ha, hm, hb, hn, rfl⟩
    · cases h
  · left
    simp only [Option.map_eq_some_iff, parseUint_eq_some] at h
    obtain ⟨n, ⟨hn, -⟩, rfl⟩ := h
    exact ⟨splitOn_eq_singleton hdash, n, hn, rfl⟩

theorem has_iff_encloses : r.Has p ↔ Encloses part p := by
  unfold Encloses
  obtain ⟨hsplit, n, hn, rfl⟩ | ⟨a, b, m, n, -, hsplit, ha, -, hb, -, rfl⟩ := parsePort_cases h
  · rw [hsplit]
    simp only [hn, PortRange.Has, Option.some_inj]
    omega
  · rw [hsplit]
    simp only [ha, hb, Option.mem_some_iff, exists_eq_left', PortRange.Has]
    split_ifs <;> simp only <;> omega

theorem matchPart_iff_spells (hp : p ≤ 65535) : matchPart (itoa p) part = true ↔ Spells part p := by
  obtain ⟨hne, hport⟩ := digits_of_decimal (decimal_itoa p)
  unfold Spells matchPart
  obtain ⟨hsplit, n, hn, -⟩ | ⟨a, b, m, n, rfl, hsplit, ha, hm, hb, hn, -⟩ := parsePort_cases h
  · obtain ⟨hpart, hdigits⟩ := digits_of_decimal hn
    have hdash : 45 ∉ part := fun hmem => absurd (hdigits 45 hmem) (by decide)
    rw [hsplit, trimSpace_eq fun c hc => .inr (hdigits c hc)]
    simp [hpart, cut, hdash]
  · have hda := (digits_of_decimal ha).2
    have hdb := (digits_of_decimal hb).2
    have hdash : 45 ∉ a := fun hmem => absurd (hda 45 hmem) (by decide)
    have hcut : cut 45 (a ++ 45 :: b) = some (a, b) := by
      have hall : ∀ c ∈ a, decide (c ≠ 45) = true := by
        intro c hc
        exact decide_eq_true fun h => hdash (h ▸ hc)
      rw [cut, if_pos (mem_append_right a mem_cons_self), takeWhile_append_of_pos hall,
        dropWhile_append_of_pos hall]
      simp
    have hpart : ¬ a ++ 45 :: b = itoa p := by
      intro heq
      exact absurd (hport 45 (heq ▸ mem_append_right a mem_cons_self)) (by decide)
    have htrim : trimSpace (a ++ 45 :: b) = a ++ 45 :: b := by
      apply trimSpace_eq
      rw [forall_mem_append, forall_mem_cons]
      exact ⟨fun c hc => .inr (hda c hc), .inl rfl, fun c hc => .inr (hdb c hc)⟩
    rw [hsplit]
    rw [htrim, if_neg (by simp), if_neg hpart, hcut]
    dsimp only
    rw [trimSpace_eq fun c hc => .inr (hda c hc), trimSpace_eq fun c hc => .inr (hdb c hc),
      parseInt_of_decimal ha (by omega), parseInt_of_decimal hb (by omega),
      parseInt_of_decimal (decimal_itoa p) (by omega)]
    simp [ha, hb]

end

theorem Spells.encloses (h : Spells part p) : Encloses part p := by
  unfold Spells at h
  unfold Encloses
  split at h
  · rw [h]
    exact decimal_itoa p
  · obtain ⟨m, hm, n, hn, hle⟩ := h
    exact ⟨m, hm, n, hn, .inl hle⟩
  · exact h.elim

end Part

variable {p : ℕ}

theorem parsePorts_spec {parts : List Bytes} {rs : List PortRange}
    (h : parts.mapM parsePort = some rs) :
    (∀ p, (∃ r ∈ rs, r.Has p) ↔ ∃ part ∈ parts, Encloses part p) ∧
      ∀ part ∈ parts, ∃ r, parsePort part = some r := by
  induction parts generalizing rs with
  | nil =>
    cases h
    simp
  | cons part parts ih =>
    rw [mapM_cons] at h
    obtain ⟨r, hr, h⟩ := Option.bind_eq_some_iff.mp h
    obtain ⟨rs, hrs, h⟩ := Option.bind_eq_some_iff.mp h
    cases h
    obtain ⟨hhas, hall⟩ := ih hrs
    refine ⟨fun p => ?_, forall_mem_cons.mpr ⟨⟨r, hr⟩, hall⟩⟩
    rw [exists_mem_cons_iff, exists_mem_cons_iff, has_iff_encloses hr, hhas]

theorem matchPortSpec_wildcard {spec : Bytes} (h : spec = [97, 108, 108] ∨ spec = [42]) :
    matchPortSpec (itoa p) spec = false := by
  have hspec : spec.splitOn 44 = [spec] ∧ trimSpace spec = spec ∧ 45 ∉ spec ∧ spec ≠ [] ∧
      ¬ ∀ c ∈ spec, 48 ≤ c ∧ c ≤ 57 := by
    obtain rfl | rfl := h <;> decide
  obtain ⟨hsplit, htrim, hdash, hne, hdigits⟩ := hspec
  have hport : itoa p ≠ spec := fun h => hdigits (h ▸ (digits_of_decimal (decimal_itoa p)).2)
  simp [matchPortSpec, matchPart, hsplit, htrim, hne, hport, hport.symm, cut, hdash]

theorem matchPortSpec_iff_spells {spec : Bytes} {rs : List PortRange}
    (h : (spec.splitOn 44).mapM parsePort = some rs) (hp : p ≤ 65535) :
    matchPortSpec (itoa p) spec = true ↔ ∃ part ∈ spec.splitOn 44, Spells part p := by
  obtain ⟨hne, hport⟩ := digits_of_decimal (decimal_itoa p)
  have hany : (spec.splitOn 44).any (matchPart (itoa p)) = true ↔
      ∃ part ∈ spec.splitOn 44, Spells part p := by
    rw [any_eq_true]
    apply exists_congr
    intro part
    apply and_congr_right
    intro hmem
    obtain ⟨r, hr⟩ := (parsePorts_spec h).2 part hmem
    exact matchPart_iff_spells hr hp
  rw [← hany, matchPortSpec]
  split_ifs with hsame
  · refine iff_of_true rfl ?_
    obtain rfl | rfl := hsame
    · rw [splitOn_eq_singleton fun hmem => absurd (hport 44 hmem) (by decide)]
      simp [matchPart, trimSpace_eq fun c hc => .inr (hport c hc), hne]
    · cases h
  · rfl

/-- For a specification the hop dialer accepts, the sticky dialer means the same port exactly if the
specification is not a wildcard and spells the port wherever it encloses it. -/
theorem matchPortSpec_iff (spec : Bytes) (u : List PortRange) (hu : parsePortUnion spec = some u)
    (p : ℕ) (hp : p ≤ 65535) :
    (matchPortSpec (itoa p) spec = true ↔ ∃ r ∈ u, r.Has p) ↔
      ¬ (spec = [97, 108, 108] ∨ spec = [42]) ∧
        ((∃ part ∈ spec.splitOn 44, Encloses part p) → ∃ part ∈ spec.splitOn 44, Spells part p) := by
  unfold parsePortUnion at hu
  split_ifs at hu with hwild
  · cases hu
    refine iff_of_false ?_ fun h => h.1 hwild
    rw [matchPortSpec_wildcard hwild]
    exact fun h => Bool.false_ne_true (h.mpr ⟨_, mem_singleton_self _, Nat.zero_le p, hp⟩)
  · obtain ⟨rs, hrs, rfl⟩ := Option.map_eq_some_iff.mp hu
    have hencloses : (∃ part ∈ spec.splitOn 44, Spells part p) →
        ∃ part ∈ spec.splitOn 44, Encloses part p :=
      fun ⟨part, hmem, h⟩ => ⟨part, hmem, h.encloses⟩
    rw [has_normalize, (parsePorts_spec hrs).1 p, matchPortSpec_iff_spells hrs hp]
    exact ⟨fun h => ⟨hwild, h.mpr⟩, fun h => ⟨hencloses, h.2⟩⟩

theorem parsePortUnion_singleton {spec : Bytes} {r : PortRange}
    (hwild : ¬ (spec = [97, 108, 108] ∨ spec = [42]))
    (h : (spec.splitOn 44).mapM parsePort = some [r]) : parsePortUnion spec = some [r] := by
  rw [parsePortUnion, if_neg hwild, h]
  simp [Hysteria2.Udphop.normalize, mergeFrom]

/-- `7-9` means `8` to both. -/
theorem matchPortSpec_iff_ascending :
    parsePortUnion [55, 45, 57] = some [⟨7, 9⟩] ∧
      (matchPortSpec (itoa 8) [55, 45, 57] = true ↔ ∃ r ∈ [PortRange.mk 7 9], r.Has 8) := by
  have hu : parsePortUnion [55, 45, 57] = some [⟨7, 9⟩] :=
    parsePortUnion_singleton (by decide) (by decide)
  refine ⟨hu, (matchPortSpec_iff _ _ hu 8 (by decide)).mpr ⟨by decide, fun _ => ?_⟩⟩
  exact ⟨[55, 45, 57], by decide, 7, rfl, 9, rfl, by decide, by decide⟩

/-- The hop dialer hops to port `8` for `9-7`, and the sticky dialer takes it for another server's. -/
theorem descending_range_not_matched :
    parsePortUnion [57, 45, 55] = some [⟨7, 9⟩] ∧ matchPortSpec (itoa 8) [57, 45, 55] = false := by
  have hport : itoa 8 = [56] := by simp [itoa]
  rw [hport]
  exact ⟨parsePortUnion_singleton (by decide) (by decide), by decide⟩

end PortSpec

end Outbound.Stickyip
