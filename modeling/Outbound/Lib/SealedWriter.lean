import Outbound.Lib.Run
import Outbound.Lib.SealedChunks

/-! Writers that send sealed chunks in frames: each write seals its texts and sends one frame, and
the first that fails is the last that sends anything. -/
namespace Outbound.Lib

open List

variable {ε σ ι β : Type*}

/-- What a write returns, the frame it sealed, and the bytes of it that were sent. -/
structure Written (ε : Type*) where
  n : ℕ
  err : Option ε
  frame : Bytes
  sent : Bytes
deriving DecidableEq

/-- Every write up to the first that fails seals a frame of its size; those behind it return
`closed`. -/
inductive Latched (closed : Written ε) : List ℕ → List (Written ε) → Prop
  | nil : Latched closed [] []
  | ok {size : ℕ} {sizes : List ℕ} {out : Written ε} {outs : List (Written ε)}
    (hsize : out.frame.length = size) (herr : out.err = none) (h : Latched closed sizes outs) :
    Latched closed (size :: sizes) (out :: outs)
  | fail {size : ℕ} {sizes : List ℕ} {out : Written ε} {outs : List (Written ε)}
    (hsize : out.frame.length = size) (herr : out.err ≠ none) (hlen : outs.length = sizes.length)
    (h : ∀ out' ∈ outs, out' = closed) : Latched closed (size :: sizes) (out :: outs)

def sent (outs : List (Written ε)) : Bytes := outs.flatMap Written.sent

/-- Writes put `head` and the chunks of `ts` on the connection, up to a failure. -/
structure Sends (closed : Written ε) (cipher : Aead) (nonce head : Bytes) (ts : List Bytes)
    (sizes : List ℕ) (outs : List (Written ε)) : Prop where
  latched : Latched closed sizes outs
  front : sent outs <+: head ++ cipher.sealPairs nonce ts
  whole : (∀ out ∈ outs, out.err = none) → sent outs = head ++ cipher.sealPairs nonce ts

namespace Sends

variable {closed : Written ε} {cipher : Aead} {nonce head : Bytes} {ts us : List Bytes} {size : ℕ}
  {sizes : List ℕ} {out : Written ε} {outs : List (Written ε)}

theorem ok (hsize : out.frame.length = size) (herr : out.err = none)
    (hsent : out.sent = head ++ cipher.sealPairs nonce ts)
    (h : Sends closed cipher (incLE^[2 * ts.length] nonce) [] us sizes outs) :
    Sends closed cipher nonce head (ts ++ us) (size :: sizes) (out :: outs) where
  latched := .ok hsize herr h.latched
  front := by
    have hfront := h.front
    rw [sent, flatMap_cons, hsent, cipher.sealPairs_append, ← append_assoc]
    exact (prefix_append_right_inj _).mpr hfront
  whole := by
    intro hall
    have hwhole := h.whole fun o ho => hall o (by simp [ho])
    rw [sent, flatMap_cons, hsent, cipher.sealPairs_append, ← append_assoc]
    exact congrArg _ hwhole

theorem fail (hclosed : closed.sent = []) (hsize : out.frame.length = size) (herr : out.err ≠ none)
    (hsent : out.sent <+: head ++ cipher.sealPairs nonce ts) :
    Sends closed cipher nonce head (ts ++ us) (size :: sizes)
      (out :: replicate sizes.length closed) where
  latched := .fail hsize herr length_replicate fun _ hmem => eq_of_mem_replicate hmem
  front := by
    have hnothing : (replicate sizes.length closed).flatMap Written.sent = [] := by
      rw [flatMap_eq_nil_iff]
      intro o ho
      rw [eq_of_mem_replicate ho, hclosed]
    simpa [sent, hnothing, cipher.sealPairs_append] using hsent.trans (prefix_append _ _)
  whole := fun hall => absurd (hall out (by simp)) herr

end Sends

/-- A machine that writes: `ready s nonce` when it seals with `nonce` next, `broken s` when a write
has failed. `used` are the marks of the nonces it has sealed with, and `sound i` says that the
connection takes what the input `i` sends. -/
structure Latch (ε σ ι β : Type*) where
  write : σ → ι → Option (Written ε) × σ
  closed : Written ε
  cipher : Aead
  ready : σ → Bytes → Prop
  broken : σ → Prop
  used : σ → List β
  mark : Bytes → β
  texts : ι → List Bytes
  size : ι → ℕ
  sound : ι → Prop

namespace Latch

variable (m : Latch ε σ ι β)

/-- A write of the input `i` seals `ts` behind `head` in a frame of `size` bytes: the frame goes out
whole, or the machine is broken. -/
structure Seals (s : σ) (i : ι) (nonce head : Bytes) (ts : List Bytes) (size : ℕ)
    (marks : List β) : Prop where
  outcome : ∃ out s', m.write s i = (some out, s') ∧ out.frame.length = size ∧
    m.used s' = marks ++ (counterRun nonce (2 * ts.length)).map m.mark ∧
    (m.sound i → out.err = none) ∧
    ((out.err = none ∧ out.sent = head ++ m.cipher.sealPairs nonce ts ∧
        m.ready s' (incLE^[2 * ts.length] nonce)) ∨
      (out.err ≠ none ∧ out.sent <+: head ++ m.cipher.sealPairs nonce ts ∧ m.broken s'))

/-- The laws of such a machine. -/
structure Lawful : Prop where
  closed_sent : m.closed.sent = []
  broken_write : ∀ s i, m.broken s → m.write s i = (some m.closed, s)
  ready_write : ∀ s i nonce, m.ready s nonce →
    m.Seals s i nonce [] (m.texts i) (m.size i) (m.used s)

/-- What a run sends and which nonces it uses: those for all its texts, unless a write fails. -/
def Runs (s : σ) (is : List ι) (nonce head : Bytes) (ts : List Bytes) (sizes : List ℕ)
    (marks : List β) : Prop :=
  ∃ outs, Run.answers m.write s is = outs.map some ∧
    Sends m.closed m.cipher nonce head ts sizes outs ∧
    ((∀ i ∈ is, m.sound i) → ∀ out ∈ outs, out.err = none) ∧
    ∃ n ≤ 2 * ts.length, ((∀ out ∈ outs, out.err = none) → n = 2 * ts.length) ∧
      m.used (Run.exec m.write s is) = marks ++ (counterRun nonce n).map m.mark

variable {m} {s : σ} (h : m.Lawful)

include h

theorem Lawful.run_broken (hs : m.broken s) (is : List ι) :
    Run.answers m.write s is = (replicate is.length m.closed).map some ∧
      Run.exec m.write s is = s := by
  induction is with
  | nil => exact ⟨rfl, rfl⟩
  | cons i is ih =>
    rw [Run.answers, Run.exec_cons, h.broken_write s i hs, ih.1, ih.2]
    exact ⟨rfl, rfl⟩

theorem Lawful.runs_cons {i : ι} {nonce head : Bytes} {ts : List Bytes}
    {size : ℕ} {marks : List β} (hseals : m.Seals s i nonce head ts size marks) {is : List ι}
    (ih : ∀ s' nonce', m.ready s' nonce' →
      m.Runs s' is nonce' [] (is.flatMap m.texts) (is.map m.size) (m.used s')) :
    m.Runs s (i :: is) nonce head (ts ++ is.flatMap m.texts) (size :: is.map m.size) marks := by
  obtain ⟨out, s', hwrite, hsize, hused, hsound, hcases⟩ := hseals.outcome
  unfold Runs
  rw [Run.answers, Run.exec_cons, hwrite, length_append]
  rcases hcases with ⟨herr, hsent, hready⟩ | ⟨herr, hsent, hbroken⟩
  · obtain ⟨outs, hanswers, hsends, hsounds, n, hle, hall, hn⟩ := ih s' _ hready
    refine ⟨out :: outs, by rw [hanswers]; rfl, hsends.ok hsize herr hsent, ?_, 2 * ts.length + n,
      by omega, ?_, ?_⟩
    · exact fun hs => forall_mem_cons.mpr ⟨herr, hsounds fun j hj => hs j (by simp [hj])⟩
    · intro hok
      rw [hall fun o ho => hok o (by simp [ho]), Nat.mul_add]
    · simp [hn, hused, counterRun_add]
  · obtain ⟨hanswers, hstay⟩ := h.run_broken hbroken is
    refine ⟨out :: replicate (is.map m.size).length m.closed, ?_,
      .fail h.closed_sent hsize herr hsent, ?_, 2 * ts.length, by omega, ?_, ?_⟩
    · simp [hanswers]
    · exact fun hs => absurd (hsound (hs i (by simp))) herr
    · exact fun hok => absurd (hok out (by simp)) herr
    · rw [hstay, hused]

theorem Lawful.runs_ready (is : List ι) {nonce : Bytes} (hs : m.ready s nonce) :
    m.Runs s is nonce [] (is.flatMap m.texts) (is.map m.size) (m.used s) := by
  induction is generalizing s nonce with
  | nil =>
    refine ⟨[], rfl, ⟨.nil, prefix_rfl, fun _ => rfl⟩, by simp, 0, by simp, by simp, ?_⟩
    exact (append_nil _).symm
  | cons i is ih => exact h.runs_cons (h.ready_write s i nonce hs) fun s' nonce' hs' => ih hs'

theorem Lawful.runs_first {i : ι} {nonce head : Bytes} {ts : List Bytes}
    {size : ℕ} {marks : List β} (hseals : m.Seals s i nonce head ts size marks) (is : List ι) :
    m.Runs s (i :: is) nonce head (ts ++ is.flatMap m.texts) (size :: is.map m.size) marks :=
  h.runs_cons hseals fun _ _ hs' => h.runs_ready is hs'

end Latch

end Outbound.Lib
