import Mathlib.Data.List.Chain
import Mathlib.Data.Rat.Floor
import Outbound.Lib.Bytes
import Outbound.Lib.Run

/-! The session of the meek client: writes are collected for a time, sent in pieces by HTTP round trips
that are tried again when they fail, and the responses go to the reader through a channel. -/
namespace Outbound.Transport.Meek

open Lib List

structure Config where
  maxWriteSize : ℤ
  initialPollingIntervalMs : ℤ
  maxPollingIntervalMs : ℤ
  minPollingIntervalMs : ℤ
  backoffFactor : ℚ

def maxFailedPolls : ℕ := 8

/-- Where `keepRunning` is: in the loop that copies from the writers, before a round trip with `data`,
at the send of a response to the reader, or at its end. -/
inductive Phase where
  | collecting
  | tripping (data : Bytes) (failedPolls : ℕ)
  | pushing (resp : Bytes)
  | stopped
deriving DecidableEq

/-- A session. The last three fields are kept for the statements: the accepted writes, the round trips
with their response, which is missing where they failed, and the bytes that reads returned. -/
structure Session where
  phase : Phase
  currentWriteWait : ℤ
  sendBuffer : Bytes
  pollConnection : Bool
  readerChan : List Bytes
  readBuffer : Bytes
  done : Bool
  accepted : List Bytes
  trips : List (Bytes × Option Bytes)
  returned : Bytes

/-- What can happen. Timers fire whenever they like, a `select` with several ready cases takes any, and
`close` is also the session's deadline. -/
inductive Event where
  | write (p : Bytes)
  | timer
  | trip (resp : Option Bytes)
  | push
  | read (l : ℕ)
  | close
  | noticeDone
deriving DecidableEq

namespace Session

/-- The bytes of the next round. A negative limit counts as zero here, where `bytes.Buffer.Next`
panics. -/
def sendAmount (cfg : Config) (s : Session) : ℕ :=
  if cfg.maxWriteSize < s.sendBuffer.length then cfg.maxWriteSize.toNat else s.sendBuffer.length

def sendNext (cfg : Config) (s : Session) : Session :=
  { s with
    phase := .tripping (s.sendBuffer.take (s.sendAmount cfg)) 0
    sendBuffer := s.sendBuffer.drop (s.sendAmount cfg)
    pollConnection := s.pollConnection && (s.sendBuffer.take (s.sendAmount cfg)).isEmpty }

def beginRound (cfg : Config) (s : Session) : Session :=
  if s.done then { s with phase := .stopped }
  else if s.currentWriteWait ≠ 0 then
    { s with phase := .collecting, sendBuffer := [], pollConnection := true }
  else sendNext cfg { s with sendBuffer := [], pollConnection := true }

/-- The wait after a round without data: longer by a factor, within the limits. -/
def backoff (cfg : Config) (wait : ℤ) : ℤ :=
  let scaled := cfg.backoffFactor * wait
  let longer := if 0 ≤ scaled then ⌊scaled⌋ else ⌈scaled⌉
  max (min longer cfg.maxPollingIntervalMs) cfg.minPollingIntervalMs

/-- What follows a response: the next piece, or the end of the round. -/
def endTrip (cfg : Config) (s : Session) : Session :=
  if s.sendBuffer ≠ [] then sendNext cfg s
  else
    beginRound cfg { s with
      currentWriteWait := if s.pollConnection then backoff cfg s.currentWriteWait else 0 }

/-- A round trip ends: a failed one is tried again, up to the limit. -/
def endRoundTrip (cfg : Config) (s : Session) (data : Bytes) (failedPolls : ℕ)
    (resp : Option Bytes) : Session :=
  let s := { s with trips := s.trips ++ [(data, resp)] }
  match resp with
  | none =>
    if s.done then { s with phase := .stopped }
    else if maxFailedPolls ≤ failedPolls + 1 then { s with phase := .stopped, done := true }
    else { s with phase := .tripping data (failedPolls + 1) }
  | some [] => endTrip cfg s
  | some resp => { s with phase := .pushing resp, pollConnection := false }

def readerChanSize : ℕ := 16

def read (s : Session) (l : ℕ) : Session :=
  let buffered := if s.readBuffer = [] then s.readerChan.headD [] else s.readBuffer
  { s with
    readerChan := if s.readBuffer = [] then s.readerChan.tail else s.readerChan
    readBuffer := buffered.drop l
    returned := s.returned ++ buffered.take l }

def step (cfg : Config) (s : Session) : Event → Session
  | .write p =>
    if s.phase = .collecting then
      let s := { s with sendBuffer := s.sendBuffer ++ p, accepted := s.accepted ++ [p] }
      if cfg.maxWriteSize ≤ s.sendBuffer.length then sendNext cfg s else s
    else s
  | .timer => if s.phase = .collecting then sendNext cfg s else s
  | .trip resp =>
    match s.phase with
    | .tripping data failedPolls => endRoundTrip cfg s data failedPolls resp
    | _ => s
  | .push =>
    match s.phase with
    | .pushing resp =>
      if s.readerChan.length < readerChanSize then
        endTrip cfg { s with readerChan := s.readerChan ++ [resp] }
      else s
    | _ => s
  | .read l => s.read l
  | .close => { s with done := true }
  | .noticeDone =>
    match s.phase with
    | .tripping _ _ => s
    | _ => if s.done then { s with phase := .stopped } else s

/-- `NewSession` with the first call of `runOnce`. -/
def new (cfg : Config) : Session :=
  beginRound cfg ⟨.stopped, cfg.initialPollingIntervalMs, [], true, [], [], false, [], [], []⟩

def run (cfg : Config) (events : List Event) : Session :=
  Run.exec (fun s e => ((), step cfg s e)) (new cfg) events

def sent (trips : List (Bytes × Option Bytes)) : Bytes :=
  trips.flatMap fun t => if t.2.isSome then t.1 else []

def responses (trips : List (Bytes × Option Bytes)) : Bytes := trips.flatMap fun t => t.2.getD []

def failures (trips : List (Bytes × Option Bytes)) : ℕ :=
  (trips.reverse.takeWhile fun t => t.2.isNone).length

def body (s : Session) : Bytes :=
  match s.phase with
  | .tripping data _ => data
  | _ => []

def response (s : Session) : Bytes :=
  match s.phase with
  | .pushing resp => resp
  | _ => []

def delivered (s : Session) : Bytes := s.returned ++ (s.readBuffer ++ s.readerChan.flatten)

/-- A failed round trip is followed by one with the same body. -/
def Retries (trips : List (Bytes × Option Bytes)) : Prop :=
  trips.IsChain fun x y => x.2 = none → y.1 = x.1

structure Ready (cfg : Config) (s : Session) : Prop where
  accepted : s.accepted.flatten = sent s.trips ++ s.sendBuffer
  delivered : responses s.trips = s.delivered
  sizes : ∀ t ∈ s.trips, (t.1.length : ℤ) ≤ cfg.maxWriteSize
  retries : Retries s.trips
  failures : failures s.trips = 0

def Counted (s : Session) : Prop :=
  match s.phase with
  | .tripping data failedPolls =>
    failures s.trips = failedPolls ∧ failedPolls < maxFailedPolls ∧
      ∀ t ∈ s.trips.getLast?, t.2 = none → t.1 = data
  | .stopped =>
    failures s.trips ≤ maxFailedPolls ∧ (failures s.trips = maxFailedPolls → s.done = true)
  | _ => failures s.trips = 0

structure Sound (cfg : Config) (s : Session) : Prop where
  accepted : s.phase ≠ .stopped → s.accepted.flatten = sent s.trips ++ (s.body ++ s.sendBuffer)
  delivered : s.phase ≠ .stopped → responses s.trips = s.delivered ++ s.response
  sent_front : sent s.trips <+: s.accepted.flatten
  delivered_front : s.delivered <+: responses s.trips
  sizes : ∀ t ∈ s.trips, (t.1.length : ℤ) ≤ cfg.maxWriteSize
  body : (s.body.length : ℤ) ≤ cfg.maxWriteSize
  retries : Retries s.trips
  counted : s.Counted

section Invariant

variable {cfg : Config} {s : Session}

section

variable (trips : List (Bytes × Option Bytes)) (data : Bytes) (t : Bytes × Option Bytes)

include trips

@[simp] theorem sent_concat :
    sent (trips ++ [t]) = sent trips ++ if t.2.isSome then t.1 else [] := by
  simp [sent]

@[simp] theorem responses_concat : responses (trips ++ [t]) = responses trips ++ t.2.getD [] := by
  simp [responses]

theorem failures_failed : failures (trips ++ [(data, none)]) = failures trips + 1 := by
  simp [failures]

theorem failures_answered (resp : Bytes) : failures (trips ++ [(data, some resp)]) = 0 := by
  simp [failures]

end

theorem last_answered {trips : List (Bytes × Option Bytes)} (h : failures trips = 0)
    {t : Bytes × Option Bytes} (ht : t ∈ trips.getLast?) : t.2 ≠ none := by
  obtain ⟨front, rfl⟩ := getLast?_eq_some_iff.mp ht
  obtain ⟨data, resp⟩ := t
  rintro rfl
  rw [failures_failed] at h
  exact absurd h (Nat.succ_ne_zero _)

variable (hmax : 0 < cfg.maxWriteSize)
include hmax

section

variable (h : Ready cfg s)

include h

theorem Ready.stopped : Sound cfg { s with phase := .stopped } where
  accepted hne := absurd rfl hne
  delivered hne := absurd rfl hne
  sent_front := ⟨_, h.accepted.symm⟩
  delivered_front := by rw [h.delivered]; exact prefix_rfl
  __ := h
  body := hmax.le
  counted := by
    refine ⟨?_, fun heq => ?_⟩
    · exact h.failures.trans_le (Nat.zero_le _)
    · cases h.failures.symm.trans heq

theorem Ready.collecting (hphase : s.phase = .collecting) : Sound cfg s := by
  have hbody : s.body = [] := by
    unfold Session.body
    rw [hphase]
  have hresponse : s.response = [] := by
    unfold Session.response
    rw [hphase]
  have hcounted : s.Counted := by
    unfold Counted
    rw [hphase]
    exact h.failures
  refine ⟨fun _ => ?_, fun _ => ?_, ⟨_, h.accepted.symm⟩, ?_, h.sizes, ?_, h.retries, hcounted⟩
  · rw [hbody]
    exact h.accepted
  · simpa [hresponse] using h.delivered
  · exact h.delivered ▸ prefix_rfl
  · rw [hbody]
    exact hmax.le

theorem Ready.sendNext : Sound cfg (s.sendNext cfg) where
  accepted _ := by
    show _ = sent s.trips ++ (s.sendBuffer.take _ ++ s.sendBuffer.drop _)
    rw [take_append_drop]
    exact h.accepted
  delivered _ := h.delivered.trans (append_nil _).symm
  sent_front := ⟨_, h.accepted.symm⟩
  delivered_front := by
    rw [show responses (s.sendNext cfg).trips = _ from h.delivered]
    exact prefix_rfl
  __ := h
  body := by
    show ((s.sendBuffer.take (s.sendAmount cfg)).length : ℤ) ≤ _
    unfold sendAmount
    rw [length_take]
    split_ifs <;> omega
  counted := ⟨h.failures, by decide, fun t ht hnone => absurd hnone (last_answered h.failures ht)⟩

theorem Ready.beginRound (hnil : s.sendBuffer = []) : Sound cfg (s.beginRound cfg) := by
  have hempty : Ready cfg { s with sendBuffer := [], pollConnection := true } :=
    ⟨by rw [h.accepted, hnil], h.delivered, h.sizes, h.retries, h.failures⟩
  unfold Session.beginRound
  split_ifs
  · exact h.stopped hmax
  · refine Ready.collecting hmax ?_ rfl
    exact ⟨hempty.accepted, h.delivered, h.sizes, h.retries, h.failures⟩
  · exact hempty.sendNext hmax

theorem Ready.endTrip : Sound cfg (s.endTrip cfg) := by
  unfold Session.endTrip
  by_cases hmore : s.sendBuffer ≠ []
  · rw [if_pos hmore]
    exact h.sendNext hmax
  · rw [if_neg hmore]
    refine Ready.beginRound hmax ?_ (not_not.mp hmore)
    exact ⟨h.accepted, h.delivered, h.sizes, h.retries, h.failures⟩

end

omit hmax in
theorem Sound.ready (h : Sound cfg s) (hphase : s.phase = .collecting) : Ready cfg s := by
  have hopen : s.phase ≠ .stopped := by rw [hphase]; exact Phase.noConfusion
  have haccepted := h.accepted hopen
  have hdelivered := h.delivered hopen
  have hcounted := h.counted
  simp only [Session.body, Session.response, Counted, hphase, append_nil, nil_append]
    at haccepted hdelivered hcounted
  exact ⟨haccepted, hdelivered, h.sizes, h.retries, hcounted⟩

theorem Sound.endRoundTrip (h : Sound cfg s) {data : Bytes} {failedPolls : ℕ}
    (hphase : s.phase = .tripping data failedPolls) (resp : Option Bytes) :
    Sound cfg (s.endRoundTrip cfg data failedPolls resp) := by
  have hopen : s.phase ≠ .stopped := by rw [hphase]; exact Phase.noConfusion
  have haccepted := h.accepted hopen
  have hdelivered := h.delivered hopen
  have hbody := h.body
  have hcounted := h.counted
  simp only [Session.body, Session.response, Counted, hphase, append_nil]
    at haccepted hdelivered hbody hcounted
  obtain ⟨hfailures, hlimit, hlast⟩ := hcounted
  have hsizes : ∀ t ∈ s.trips ++ [(data, resp)], (t.1.length : ℤ) ≤ cfg.maxWriteSize :=
    forall_mem_append.mpr ⟨h.sizes, forall_mem_singleton.mpr hbody⟩
  have hretries : Retries (s.trips ++ [(data, resp)]) := by
    apply isChain_append.mpr
    refine ⟨h.retries, isChain_singleton _, fun t ht u hu => ?_⟩
    cases hu
    exact fun hnone => (hlast t ht hnone).symm
  cases resp with
  | none =>
    have hsent : sent (s.trips ++ [(data, none)]) = sent s.trips := by simp
    have hresponses : responses (s.trips ++ [(data, none)]) = responses s.trips := by simp
    have hfront : sent (s.trips ++ [(data, none)]) <+: s.accepted.flatten := hsent ▸ h.sent_front
    have hread : s.delivered <+: responses (s.trips ++ [(data, none)]) :=
      hresponses ▸ h.delivered_front
    have hcount := (failures_failed s.trips data).trans (congrArg (· + 1) hfailures)
    have hstop (done : Bool) (hdone : failedPolls + 1 = maxFailedPolls → done = true) :
        Sound cfg { s with trips := s.trips ++ [(data, none)], phase := .stopped, done := done } :=
      ⟨fun hne => absurd rfl hne, fun hne => absurd rfl hne, hfront, hread, hsizes, hmax.le,
        hretries, hcount.trans_le hlimit, fun heq => hdone (hcount.symm.trans heq)⟩
    show Sound cfg (if s.done = true then _ else _)
    split_ifs with hdone hfull
    · exact hstop s.done fun _ => hdone
    · exact hstop true fun _ => rfl
    · refine ⟨fun _ => ?_, fun _ => ?_, hfront, hread, hsizes, hbody, hretries, hcount, ?_, ?_⟩
      · exact hsent.symm ▸ haccepted
      · exact hresponses.trans (hdelivered.trans (append_nil _).symm)
      · exact Nat.not_le.mp hfull
      · intro t ht _
        rw [getLast?_concat] at ht
        rw [← Option.some.inj ht]
  | some resp =>
    have hsent : s.accepted.flatten = sent (s.trips ++ [(data, some resp)]) ++ s.sendBuffer := by
      simpa using haccepted
    have hresponses : responses (s.trips ++ [(data, some resp)]) = s.delivered ++ resp := by
      rw [responses_concat, hdelivered]
      rfl
    cases resp with
    | nil =>
      apply Ready.endTrip hmax
      exact ⟨hsent, hresponses.trans (append_nil _), hsizes, hretries, failures_answered _ _ _⟩
    | cons b resp =>
      exact ⟨fun _ => hsent, fun _ => hresponses, ⟨_, hsent.symm⟩, ⟨_, hresponses.symm⟩, hsizes,
        hmax.le, hretries, failures_answered _ _ _⟩

omit hmax in
theorem delivered_read (s : Session) (l : ℕ) : (s.read l).delivered = s.delivered := by
  unfold Session.delivered Session.read
  split_ifs with hempty
  · rw [hempty, append_assoc, ← append_assoc (take l _), take_append_drop]
    cases s.readerChan <;> rfl
  · rw [append_assoc, ← append_assoc (take l _), take_append_drop]

theorem Sound.stop (h : Sound cfg s)
    (hphase : ∀ data failedPolls, s.phase ≠ .tripping data failedPolls) :
    Sound cfg { s with phase := .stopped } := by
  have hcounted := h.counted
  refine ⟨fun hne => absurd rfl hne, fun hne => absurd rfl hne, h.sent_front, h.delivered_front,
    h.sizes, hmax.le, h.retries, ?_⟩
  unfold Counted at hcounted
  split at hcounted
  case h_1 data failedPolls hp => exact absurd hp (hphase data failedPolls)
  case h_2 => exact hcounted
  case h_3 => exact ⟨hcounted.trans_le (Nat.zero_le _),
    fun heq => absurd (hcounted.symm.trans heq) (by decide)⟩

omit hmax in
theorem Sound.close (h : Sound cfg s) : Sound cfg { s with done := true } := by
  have hcounted := h.counted
  refine ⟨h.accepted, h.delivered, h.sent_front, h.delivered_front, h.sizes, h.body, h.retries, ?_⟩
  unfold Counted at hcounted ⊢
  dsimp only
  split at hcounted
  case h_1 => exact hcounted
  case h_2 => exact ⟨hcounted.1, fun _ => rfl⟩
  case h_3 => exact hcounted

omit hmax in
theorem Sound.push (h : Sound cfg s) {resp : Bytes} (hphase : s.phase = .pushing resp) :
    Ready cfg { s with readerChan := s.readerChan ++ [resp] } := by
  have hopen : s.phase ≠ .stopped := by rw [hphase]; exact Phase.noConfusion
  have haccepted := h.accepted hopen
  have hdelivered := h.delivered hopen
  have hcounted := h.counted
  simp only [Session.body, Session.response, Counted, hphase, nil_append]
    at haccepted hdelivered hcounted
  refine ⟨haccepted, ?_, h.sizes, h.retries, hcounted⟩
  rw [hdelivered]
  simp [Session.delivered]

theorem Sound.step (h : Sound cfg s) (e : Event) : Sound cfg (s.step cfg e) := by
  cases e with
  | write p =>
    dsimp only [Session.step]
    by_cases hphase : s.phase = .collecting
    · have hready := h.ready hphase
      have hready' : Ready cfg
          { s with sendBuffer := s.sendBuffer ++ p, accepted := s.accepted ++ [p] } := by
        refine ⟨?_, hready.delivered, hready.sizes, hready.retries, hready.failures⟩
        simp [hready.accepted]
      split_ifs
      · exact hready'.sendNext hmax
      · exact hready'.collecting hmax hphase
    · rwa [if_neg hphase]
  | timer =>
    dsimp only [Session.step]
    split_ifs with hphase
    · exact (h.ready hphase).sendNext hmax
    · exact h
  | trip resp =>
    dsimp only [Session.step]
    split
    case h_1 data failedPolls hphase => exact h.endRoundTrip hmax hphase resp
    case h_2 => exact h
  | push =>
    dsimp only [Session.step]
    split
    case h_1 resp hphase =>
      split_ifs
      · exact (h.push hphase).endTrip hmax
      · exact h
    case h_2 => exact h
  | read l =>
    have hread := s.delivered_read l
    refine ⟨h.accepted, fun hne => ?_, h.sent_front, ?_, h.sizes, h.body, h.retries, h.counted⟩
    · exact (h.delivered hne).trans (congrArg (· ++ s.response) hread.symm)
    · show (s.read l).delivered <+: _
      rw [hread]
      exact h.delivered_front
  | close => exact h.close
  | noticeDone =>
    dsimp only [Session.step]
    split
    case h_1 => exact h
    case h_2 hphase =>
      split_ifs
      · exact h.stop hmax hphase
      · exact h

theorem sound_run (events : List Event) : Sound cfg (run cfg events) := by
  apply Run.exec_invariant
  · exact fun s e h => h.step hmax e
  · apply Ready.beginRound hmax _ rfl
    exact ⟨rfl, rfl, fun t ht => absurd ht not_mem_nil, isChain_nil, rfl⟩

end Invariant

/-- In every run the bodies sent are the front of what was written, none larger than allowed and a
failed one tried again as it is until the limit ends the session, and the reads return the front of
the responses. -/
theorem stream_integrity (cfg : Config) (hmax : 0 < cfg.maxWriteSize) (events : List Event) :
    sent (run cfg events).trips <+: (run cfg events).accepted.flatten ∧
    (∀ t ∈ (run cfg events).trips, (t.1.length : ℤ) ≤ cfg.maxWriteSize) ∧
    Retries (run cfg events).trips ∧ failures (run cfg events).trips ≤ maxFailedPolls ∧
    (failures (run cfg events).trips = maxFailedPolls →
      (run cfg events).done = true ∧ (run cfg events).phase = .stopped) ∧
    (run cfg events).returned <+: responses (run cfg events).trips := by
  have h := sound_run hmax events
  have hcounted := h.counted
  refine ⟨h.sent_front, h.sizes, h.retries, ?_, fun hfull => ?_,
    (prefix_append _ _).trans h.delivered_front⟩ <;> unfold Counted at hcounted <;>
    split at hcounted
  · exact hcounted.1.trans_le hcounted.2.1.le
  · exact hcounted.1
  · exact hcounted.trans_le (Nat.zero_le _)
  · exact absurd (hcounted.1.symm.trans hfull) hcounted.2.1.ne
  · next hphase => exact ⟨hcounted.2 hfull, hphase⟩
  · cases hcounted.symm.trans hfull

def dialerConfig : Config := ⟨65536, 100, 1000, 10, 3 / 2⟩

/-- One write, sent at the second try, and its response read in two parts. -/
theorem stream_integrity_retried :
    (run dialerConfig [.write [5], .timer, .trip none, .trip (some [1, 2]), .push, .read 1]).trips =
        [([5], none), ([5], some [1, 2])] ∧
      (run dialerConfig [.write [5], .timer, .trip none, .trip (some [1, 2]), .push, .read 1]).returned
        <+: responses (run dialerConfig
          [.write [5], .timer, .trip none, .trip (some [1, 2]), .push, .read 1]).trips :=
  ⟨rfl, (stream_integrity dialerConfig (by decide) _).2.2.2.2.2⟩

def consume (s : Session) : Session :=
  { s with readerChan := [], readBuffer := [], returned := s.delivered }

def answer (cfg : Config) (s : Session) (resp : Bytes) : Session :=
  (s.consume.step cfg (.trip (some resp))).step cfg .push

def answers (cfg : Config) (s : Session) (resp : ℕ → Bytes) (n : ℕ) : Session :=
  ((range n).map resp).foldl (answer cfg) s

/-- A pending `Write` of `p` is taken after some of the round trips, when the session comes to look for
one, and after some more its data is sent. -/
def Served (cfg : Config) (s : Session) (resp : ℕ → Bytes) (p : Bytes) : Prop :=
  ∃ n, (answers cfg s resp n).phase = .collecting ∧ ∃ m,
    sent (answers cfg (((answers cfg s resp n).step cfg (.write p)).step cfg .timer)
      (fun i => resp (n + i)) m).trips = sent (answers cfg s resp n).trips ++ p

section Progress

variable {cfg : Config} {s : Session}

theorem answers_succ (s : Session) (resp : ℕ → Bytes) (n : ℕ) :
    answers cfg s resp (n + 1) = answer cfg (answers cfg s resp n) (resp n) := by
  unfold answers
  rw [range_succ, map_append, foldl_append]
  rfl

theorem answers_succ' (s : Session) (resp : ℕ → Bytes) (n : ℕ) :
    answers cfg s resp (n + 1) = answers cfg (answer cfg s (resp 0)) (fun i => resp (i + 1)) n := by
  unfold answers
  rw [range_succ_eq_map, map_cons, foldl_cons, map_map]
  rfl

structure Polling (s : Session) : Prop where
  phase : s.phase = .tripping [] 0
  sendBuffer : s.sendBuffer = []
  poll : s.pollConnection = true
  wait : s.currentWriteWait = 0
  running : s.done = false

theorem polling_beginRound (cfg : Config) (hdone : s.done = false) (hwait : s.currentWriteWait = 0) :
    Polling (s.beginRound cfg) := by
  unfold beginRound
  rw [if_neg (Bool.not_eq_true _ ▸ hdone), if_neg (not_not.mpr hwait)]
  exact ⟨by simp [sendNext], by simp [sendNext], by simp [sendNext], hwait, hdone⟩

theorem collecting_beginRound (hdone : s.done = false) (hwait : s.currentWriteWait ≠ 0) :
    (s.beginRound cfg).phase = .collecting := by
  unfold beginRound
  rw [if_neg (Bool.not_eq_true _ ▸ hdone), if_pos hwait]

theorem push_endTrip (t : Session) : (endTrip cfg t).step cfg .push = endTrip cfg t := by
  unfold endTrip beginRound sendNext
  split_ifs <;> rfl

theorem answer_eq (cfg : Config) {data : Bytes} {failedPolls : ℕ}
    (hphase : s.phase = .tripping data failedPolls) (resp : Bytes) :
    ∃ t, answer cfg s resp = endTrip cfg t ∧ t.sendBuffer = s.sendBuffer ∧ t.done = s.done ∧
      t.currentWriteWait = s.currentWriteWait ∧ sent t.trips = sent s.trips ++ data ∧
      t.pollConnection = (s.pollConnection && resp.isEmpty) := by
  have htrip : s.consume.step cfg (.trip (some resp)) =
      endRoundTrip cfg s.consume data failedPolls (some resp) := by
    show (match s.phase with | .tripping _ _ => _ | _ => _) = _
    rw [hphase]
  unfold answer
  rw [htrip]
  cases resp with
  | nil =>
    refine ⟨{ s.consume with trips := s.trips ++ [(data, some [])] }, push_endTrip _, rfl, rfl, rfl,
      sent_concat _ _, ?_⟩
    exact (Bool.and_true _).symm
  | cons b resp =>
    refine ⟨{ s.consume with
      trips := s.trips ++ [(data, some (b :: resp))], phase := .pushing (b :: resp)
      pollConnection := false, readerChan := [b :: resp] }, rfl, rfl, rfl, rfl, sent_concat _ _, ?_⟩
    exact (Bool.and_false _).symm

theorem Polling.next (cfg : Config) (h : Polling s) (resp : Bytes) :
    ∃ t, answer cfg s resp = beginRound cfg t ∧ t.done = false ∧
      t.currentWriteWait = if resp = [] then backoff cfg 0 else 0 := by
  obtain ⟨t, heq, hbuffer, hdone, hwait, -, hpoll⟩ := answer_eq cfg h.phase resp
  rw [h.poll, Bool.true_and] at hpoll
  refine ⟨{ t with currentWriteWait := if t.pollConnection then backoff cfg 0 else 0 }, ?_,
    hdone.trans h.running, ?_⟩
  · rw [heq, endTrip, if_neg (not_not.mpr (hbuffer.trans h.sendBuffer)), hwait, h.wait]
  · simp [hpoll]

theorem trips_endTrip (t : Session) : (endTrip cfg t).trips = t.trips := by
  unfold endTrip beginRound sendNext
  split_ifs <;> rfl

/-- A session that looks for writes has none yet. -/
def Fresh (s : Session) : Prop := s.phase = .collecting → s.sendBuffer = []

theorem fresh_beginRound : Fresh (s.beginRound cfg) := by
  unfold Fresh beginRound sendNext
  split_ifs
  · exact False.elim
  · exact fun _ => rfl
  · exact False.elim

theorem fresh_endTrip : Fresh (s.endTrip cfg) := by
  unfold endTrip
  by_cases hmore : s.sendBuffer ≠ []
  · rw [if_pos hmore]
    exact Phase.noConfusion
  · rw [if_neg hmore]
    exact fresh_beginRound

theorem Fresh.answer (h : Fresh s) (resp : Bytes) : Fresh (s.answer cfg resp) := by
  cases hphase : s.phase with
  | tripping data failedPolls =>
    obtain ⟨t, heq, -⟩ := answer_eq cfg hphase resp
    rw [heq]
    exact fresh_endTrip
  | pushing r =>
    have heq : s.answer cfg resp = endTrip cfg { s.consume with readerChan := [r] } := by
      simp [Session.answer, step, consume, hphase, readerChanSize]
    rw [heq]
    exact fresh_endTrip
  | _ =>
    have heq : s.answer cfg resp = s.consume := by simp [Session.answer, step, consume, hphase]
    rwa [heq]

theorem Fresh.answers (h : Fresh s) (resp : ℕ → Bytes) (n : ℕ) : Fresh (answers cfg s resp n) := by
  induction n with
  | zero => exact h
  | succ n ih =>
    rw [answers_succ]
    exact ih.answer _

theorem exists_sent (hmax : 0 < cfg.maxWriteSize) {data : Bytes} (hphase : s.phase = .tripping data 0)
    (resp : ℕ → Bytes) :
    ∃ m, sent (answers cfg s resp m).trips = sent s.trips ++ (data ++ s.sendBuffer) := by
  induction hn : s.sendBuffer.length using Nat.strong_induction_on generalizing s data resp with
  | _ n ih =>
    obtain ⟨t, heq, hbuffer, -, -, hsent, -⟩ := answer_eq cfg hphase (resp 0)
    by_cases hmore : s.sendBuffer = []
    · refine ⟨1, ?_⟩
      show sent (answer cfg s (resp 0)).trips = _
      rw [heq, trips_endTrip, hsent, hmore, append_nil]
    · have hnext : answer cfg s (resp 0) = sendNext cfg t := by
        rw [heq, endTrip, if_pos (hbuffer ▸ hmore)]
      have hless : (t.sendBuffer.drop (t.sendAmount cfg)).length < n := by
        have hpos := length_pos_iff.mpr hmore
        rw [length_drop, hbuffer]
        unfold sendAmount
        rw [hbuffer]
        split_ifs <;> omega
      obtain ⟨m, hm⟩ := ih _ hless (s := sendNext cfg t) rfl (fun i => resp (i + 1)) rfl
      refine ⟨m + 1, ?_⟩
      rw [answers_succ', hnext, hm]
      show sent t.trips ++ (t.sendBuffer.take _ ++ t.sendBuffer.drop _) = _
      simp [hsent, hbuffer]

theorem sendAmount_eq_zero (hmax : cfg.maxWriteSize ≤ 0) (hmore : s.sendBuffer ≠ []) :
    s.sendAmount cfg = 0 := by
  have hpos := length_pos_iff.mpr hmore
  unfold sendAmount
  rw [if_pos (by omega)]
  omega

theorem sent_answers (hmax : cfg.maxWriteSize ≤ 0) (hphase : s.phase = .tripping [] 0)
    (hmore : s.sendBuffer ≠ []) (resp : ℕ → Bytes) (m : ℕ) :
    sent (answers cfg s resp m).trips = sent s.trips := by
  induction m generalizing s resp with
  | zero => rfl
  | succ m ih =>
    obtain ⟨t, heq, hbuffer, -, -, hsent, -⟩ := answer_eq cfg hphase (resp 0)
    have hnext : answer cfg s (resp 0) = sendNext cfg t := by
      rw [heq, endTrip, if_pos (hbuffer ▸ hmore)]
    have hamount := sendAmount_eq_zero hmax (s := t) (hbuffer ▸ hmore)
    rw [answers_succ', hnext, ih]
    · exact hsent.trans (append_nil _)
    · simp [sendNext, hamount]
    · simpa [sendNext, hamount, hbuffer] using hmore

theorem sent_write_iff (hphase : s.phase = .collecting) (hbuffer : s.sendBuffer = []) (p : Bytes)
    (resp : ℕ → Bytes) :
    (∃ m, sent (answers cfg ((s.step cfg (.write p)).step cfg .timer) resp m).trips =
      sent s.trips ++ p) ↔ p = [] ∨ 0 < cfg.maxWriteSize := by
  obtain ⟨t, hstep, htrips, hsend⟩ : ∃ t, (s.step cfg (.write p)).step cfg .timer = sendNext cfg t ∧
      t.trips = s.trips ∧ t.sendBuffer = p := by
    refine ⟨{ s with sendBuffer := s.sendBuffer ++ p, accepted := s.accepted ++ [p] }, ?_, rfl, ?_⟩
    · dsimp only [step]
      split_ifs with hfull hcollect
      · exact Phase.noConfusion hcollect
      · rfl
      · rfl
    · rw [hbuffer, nil_append]
  rw [hstep]
  constructor
  · rintro ⟨m, hm⟩
    by_contra hno
    obtain ⟨hp, hmax⟩ := not_or.mp hno
    have hamount := sendAmount_eq_zero (Int.not_lt.mp hmax) (s := t) (hsend.symm ▸ hp)
    rw [sent_answers (Int.not_lt.mp hmax) (by simp [sendNext, hamount])
      (by simpa [sendNext, hamount, hsend] using hp)] at hm
    exact hp (append_right_eq_self.mp (htrips ▸ hm.symm))
  · rintro (rfl | hmax)
    · exact ⟨0, (congrArg sent htrips).trans (append_nil _).symm⟩
    · obtain ⟨m, hm⟩ := exists_sent hmax (s := sendNext cfg t) rfl resp
      refine ⟨m, hm.trans ?_⟩
      show sent t.trips ++ (t.sendBuffer.take _ ++ t.sendBuffer.drop _) = _
      simp [htrips, hsend]

variable {resp : ℕ → Bytes}

/-- From a poll on, the session looks for writes after the first answer without data. -/
theorem Polling.collecting_of_nil (h : Polling s) (hwait : backoff cfg 0 ≠ 0)
    {i : ℕ} (hi : resp i = []) : ∃ n, (answers cfg s resp n).phase = .collecting := by
  induction i generalizing s resp with
  | zero =>
    obtain ⟨t, heq, hdone, ht⟩ := h.next cfg (resp 0)
    rw [if_pos hi] at ht
    refine ⟨1, ?_⟩
    rw [answers_succ']
    show (answer cfg s (resp 0)).phase = _
    rw [heq]
    exact collecting_beginRound hdone (ht ▸ hwait)
  | succ i ih =>
    obtain ⟨t, heq, hdone, ht⟩ := h.next cfg (resp 0)
    by_cases hnow : t.currentWriteWait = 0
    · have hpolling := polling_beginRound cfg hdone hnow
      rw [← heq] at hpolling
      obtain ⟨n, hn⟩ : ∃ n, (answers cfg (answer cfg s (resp 0)) (fun j => resp (j + 1)) n).phase =
          .collecting := ih hpolling hi
      exact ⟨n + 1, by rwa [answers_succ']⟩
    · refine ⟨1, ?_⟩
      show (answer cfg s (resp 0)).phase = _
      rw [heq]
      exact collecting_beginRound hdone hnow

theorem Polling.answers (h : Polling s)
    (hno : backoff cfg 0 = 0 ∨ ∀ i, resp i ≠ []) (n : ℕ) : Polling (answers cfg s resp n) := by
  induction n with
  | zero => exact h
  | succ n ih =>
    obtain ⟨t, heq, hdone, ht⟩ := ih.next cfg (resp n)
    rw [answers_succ, heq]
    apply polling_beginRound cfg hdone
    rw [ht]
    split_ifs with hnil
    · exact hno.resolve_right fun hdata => hdata n hnil
    · rfl

end Progress

/-- At the start of a round, a pending `Write` is taken and sent if and only if requests have room
for its data and this round looks for writes, or some later round trip is answered without data and
the wait then is not zero. -/
theorem served_iff (cfg : Config) (s : Session) (hrunning : s.done = false) (resp : ℕ → Bytes)
    (p : Bytes) :
    Served cfg (s.beginRound cfg) resp p ↔
      (s.currentWriteWait ≠ 0 ∨ backoff cfg 0 ≠ 0 ∧ ∃ i, resp i = []) ∧
        (p = [] ∨ 0 < cfg.maxWriteSize) := by
  have hlooks : (∃ n, (answers cfg (s.beginRound cfg) resp n).phase = .collecting) ↔
      s.currentWriteWait ≠ 0 ∨ backoff cfg 0 ≠ 0 ∧ ∃ i, resp i = [] := by
    by_cases hwait : s.currentWriteWait = 0
    · have hpolling := polling_beginRound cfg hrunning hwait
      constructor
      · rintro ⟨n, hn⟩
        right
        by_contra hno
        rw [not_and_or, not_not, not_exists] at hno
        cases (hpolling.answers hno n).phase.symm.trans hn
      · rintro (hne | ⟨hne, i, hi⟩)
        · exact absurd hwait hne
        · exact hpolling.collecting_of_nil hne hi
    · exact iff_of_true ⟨0, collecting_beginRound hrunning hwait⟩ (.inl hwait)
  have hfresh (n : ℕ) : Fresh (answers cfg (s.beginRound cfg) resp n) :=
    Fresh.answers fresh_beginRound resp n
  rw [← hlooks]
  constructor
  · rintro ⟨n, hn, hsent⟩
    exact ⟨⟨n, hn⟩, (sent_write_iff hn (hfresh n hn) p _).mp hsent⟩
  · rintro ⟨⟨n, hn⟩, hroom⟩
    exact ⟨n, hn, (sent_write_iff hn (hfresh n hn) p _).mpr hroom⟩

/-- A first write is taken at once and sent. -/
theorem served_first : Served dialerConfig (new dialerConfig) (fun _ => [1]) [7] :=
  (served_iff dialerConfig ⟨.stopped, 100, [], true, [], [], false, [], [], []⟩ rfl (fun _ => [1])
    [7]).mpr ⟨.inl (by decide), .inr (by decide)⟩

/-- Once a write went out, a server that always answers with data keeps the next one waiting. -/
theorem second_write_starves :
    ¬ Served dialerConfig (run dialerConfig [.write [5], .timer, .trip (some [1]), .push])
      (fun _ => [1]) [7] := by
  have hpolling : Polling (run dialerConfig [.write [5], .timer, .trip (some [1]), .push]) :=
    ⟨rfl, rfl, rfl, rfl, rfl⟩
  rintro ⟨n, hn, -⟩
  have hstill : Polling (answers dialerConfig _ (fun _ => [1]) n) :=
    hpolling.answers (.inr fun _ => cons_ne_nil 1 []) n
  cases hstill.phase.symm.trans hn

end Session

end Outbound.Transport.Meek
