import Outbound.Trojanc.Conn

/-! When the request header is sent once: over all the ways in which writes of the underlying
connection can fail. -/
namespace Outbound.Trojanc

open Lib Protocol List Sent Conn

namespace ConnCall

def memory : ConnCall → ℕ → UInt8
  | .write _ memory _ _ => memory
  | .read memory _ => memory

def head : ConnCall → WriteEnd Error
  | .write _ _ h _ => h
  | .read _ h => h

def payload : ConnCall → Bytes
  | .write b _ _ _ => b
  | .read _ _ => []

def sends (x : Setup) : ConnCall → Bool
  | .write _ _ _ _ => true
  | .read _ _ => readSends x

def Silent (x : Setup) (call : ConnCall) : Prop :=
  call.sends x = true → ∀ header, x.reqHeader call.memory = some header →
    call.head.taken header = []

end ConnCall

/-- What a call does to the connection of a client. -/
inductive Effect (x : Setup) (c : Conn) (call : ConnCall) : Conn → Prop
  | plain (ps : Bytes) (hps : ps <+: call.payload) (honce : c.onceWrite = true) :
      Effect x c call (c.take (ps.map .payload))
  | idle (hidle : call.sends x = false ∨ x.reqHeader call.memory = none)
      (honce : c.onceWrite = false) : Effect x c call c
  | cut (hsends : call.sends x = true) (header : Bytes)
      (hheader : x.reqHeader call.memory = some header) (honce : c.onceWrite = false) (k : ℕ)
      (e : Error) (hfail : call.head = .fail k e) :
      Effect x c call (c.take ((headerBytes header).take k))
  | whole (hsends : call.sends x = true) (header : Bytes)
      (hheader : x.reqHeader call.memory = some header) (honce : c.onceWrite = false)
      (hok : call.head = .ok) (ps : Bytes) (hps : ps <+: call.payload) (once : Bool) :
      Effect x c call ⟨once, c.log ++ (headerBytes header ++ ps.map .payload)⟩

namespace Conn

variable {x : Setup} {c : Conn} {call : ConnCall}

theorem take_nil (c : Conn) : c.take [] = c := by
  rw [take, append_nil]

theorem writeBuffers_ok (c : Conn) (header payload : Bytes) (p : WriteEnd Error) :
    ∃ ps, ps <+: payload ∧ (c.writeBuffers header payload .ok p).2 =
      ⟨c.onceWrite, c.log ++ (headerBytes header ++ ps.map .payload)⟩ := by
  unfold writeBuffers
  split_ifs with hnil
  · refine ⟨[], List.nil_prefix, ?_⟩
    rw [map_nil, append_nil]
    rfl
  · refine ⟨p.taken payload, p.taken_prefix payload, ?_⟩
    change mk c.onceWrite (c.log ++ headerBytes header ++ _) = _
    rw [append_assoc]

theorem headerResult_err (v : Variant) (header payload : Bytes) (n : ℕ) (e : Error) :
    (headerResult v header payload ⟨n, some e⟩).err ≠ none := by
  cases v with
  | trojan =>
    unfold headerResult
    split_ifs <;> exact Option.some_ne_none _
  | juicity => exact Option.some_ne_none _

theorem attempt_effect (call : ConnCall) (hsends : call.sends x = true)
    (honce : c.onceWrite = false) (p : WriteEnd Error) :
    Effect x c call (c.attempt x call.payload call.memory call.head p).2 := by
  unfold attempt
  cases hheader : x.reqHeader call.memory with
  | none => exact .idle (.inr hheader) honce
  | some header =>
    cases hhead : call.head with
    | ok =>
      obtain ⟨ps, hps, hout⟩ := writeBuffers_ok c header call.payload p
      unfold sendHeader
      dsimp only
      rw [hout]
      split_ifs
      · exact .whole hsends header hheader honce hhead ps hps true
      · exact .whole hsends header hheader honce hhead ps hps c.onceWrite
    | fail k e =>
      unfold sendHeader
      dsimp only
      rw [if_neg]
      swap; exact headerResult_err _ _ _ _ e
      exact .cut hsends header hheader honce k e hhead

theorem step_effect (hclient : x.metadata.isClient = true) (c : Conn) (call : ConnCall) :
    Effect x c call (c.step x call).2 := by
  cases call with
  | write b memory h p =>
    cases honce : c.onceWrite with
    | true =>
      have hplain : (c.step x (.write b memory h p)).2 = c.take ((p.taken b).map .payload) := by
        rw [step, write, honce]
        rfl
      rw [hplain]
      exact .plain (p.taken b) (p.taken_prefix b) honce
    | false =>
      have hsend : c.step x (.write b memory h p) = c.attempt x b memory h p := by
        rw [step, write, honce, hclient]
        rfl
      rw [hsend]
      exact attempt_effect (.write b memory h p) rfl honce p
  | read memory h =>
    cases honce : c.onceWrite with
    | true =>
      have hplain : (c.step x (.read memory h)).2 = c.take ([].map .payload) := by
        rw [step, read, honce, Bool.not_true, Bool.and_false, map_nil, take_nil]
        rfl
      rw [hplain]
      exact .plain [] List.nil_prefix honce
    | false =>
      cases hsends : readSends x with
      | true =>
        have hsend : c.step x (.read memory h) = c.attempt x [] memory h .ok := by
          simp [step, read, honce, hsends]
        rw [hsend]
        exact attempt_effect (.read memory h) hsends honce .ok
      | false =>
        have hidle : (c.step x (.read memory h)).2 = c := by
          simp [step, read, hsends]
        rw [hidle]
        exact .idle (.inl hsends) honce

end Conn

/-- The bytes that the underlying connection took: a front of the request header followed by the
bytes of payloads, every one of them in its place. -/
def HeaderOnce (x : Setup) (log : List Sent) : Prop :=
  log = [] ∨ ∃ memory header, x.reqHeader memory = some header ∧
    log <+: headerBytes header ++ log.filter isPayload

theorem filter_headerBytes (header : Bytes) : (headerBytes header).filter isPayload = [] := by
  rw [headerBytes, filter_map, map_eq_nil_iff, filter_eq_nil_iff]
  intro y _
  exact Bool.false_ne_true

theorem filter_payload (ps : Bytes) : (ps.map payload).filter isPayload =
    ps.map payload := by
  exact filter_eq_self.mpr (forall_mem_map.mpr fun _ _ => rfl)

theorem headerBytes_cons (b : UInt8) (header : Bytes) :
    ∃ rest, headerBytes (b :: header) = .header 0 b :: rest ∧ rest.countP begins = 0 := by
  refine ⟨(header.zipIdx 1).map fun y => .header y.2 y.1, rfl, ?_⟩
  rw [countP_eq_zero]
  intro y hy
  obtain ⟨⟨a, i⟩, hmem, rfl⟩ := mem_map.mp hy
  have hi : 1 ≤ i := le_snd_of_mem_zipIdx hmem
  change ¬ (i == 0) = true
  rw [beq_iff_eq]
  omega

variable {x : Setup}

theorem Setup.reqHeader_ne_nil {memory : ℕ → UInt8} {header : Bytes}
    (h : x.reqHeader memory = some header) : header ≠ [] := by
  have hpos : 0 < header.length := by
    unfold Setup.reqHeader at h
    cases hv : x.variant with
    | trojan =>
      rw [hv] at h
      simp only [Option.bind_eq_bind, Option.bind_eq_some_iff] at h
      obtain ⟨buf₁, -, buf₂, -, buf₃, hput, packed, -, hcopy⟩ := h
      obtain ⟨hlen, hroom⟩ := length_putAt hput
      rw [length_copyAt hcopy, length_append, length_take]
      omega
    | juicity =>
      rw [hv] at h
      simp only [Option.bind_eq_bind, Option.bind_eq_some_iff, Option.pure_def,
        Option.some.injEq] at h
      obtain ⟨buf, hput, packed, -, rfl⟩ := h
      obtain ⟨hlen, hroom⟩ := length_putAt hput
      rw [length_singleton] at hroom
      rw [length_append, length_take]
      omega
  exact ne_nil_of_length_pos hpos

/-- Where a connection of a client stands as long as no header is begun twice. -/
def Shape (x : Setup) (c : Conn) : Prop :=
  (c.onceWrite = false ∧ c.log = []) ∨ ∃ memory header, x.reqHeader memory = some header ∧
    ((c.onceWrite = false ∧ c.log <+: headerBytes header) ∨
      ∃ ps : Bytes, c.log = headerBytes header ++ ps.map .payload)

/-- A second header is not begun: the header was sent, nothing was taken of it so far, or nothing is
taken of it now. -/
def Proceeds (x : Setup) (c : Conn) (call : ConnCall) : Prop :=
  c.onceWrite = true ∨ c.log = [] ∨ call.Silent x

namespace Shape

variable {c c' : Conn} {call : ConnCall} (h : Shape x c)

include h

theorem headerOnce : HeaderOnce x c.log := by
  rcases h with ⟨-, hnil⟩ | ⟨memory, header, hheader, ⟨-, hfront⟩ | ⟨ps, hlog⟩⟩
  · exact .inl hnil
  · exact .inr ⟨memory, header, hheader, hfront.trans (prefix_append _ _)⟩
  · refine .inr ⟨memory, header, hheader, ?_⟩
    have hpayload : c.log.filter isPayload = ps.map .payload := by
      simp [hlog, filter_headerBytes, filter_payload]
    refine ⟨[], ?_⟩
    simpa [hpayload] using hlog

theorem begins (hne : c.log ≠ []) : 1 ≤ c.log.countP begins := by
  rcases h with ⟨-, hnil⟩ | ⟨memory, header, hheader, hlog⟩
  · exact absurd hnil hne
  · obtain ⟨b, header, rfl⟩ := exists_cons_of_ne_nil (Setup.reqHeader_ne_nil hheader)
    obtain ⟨rest, hcons, -⟩ := headerBytes_cons b header
    have hfirst : ∃ tail, c.log = .header 0 b :: tail := by
      rcases hlog with ⟨-, hfront⟩ | ⟨ps, hlog⟩
      · obtain ⟨y, tail, htail⟩ := exists_cons_of_ne_nil hne
        rw [htail, hcons, cons_prefix_cons] at hfront
        exact ⟨tail, by rw [htail, hfront.1]⟩
      · rw [hcons] at hlog
        exact ⟨_, hlog⟩
    obtain ⟨tail, htail⟩ := hfirst
    rw [htail, countP_cons_of_pos rfl]
    exact Nat.le_add_left 1 _

theorem effect (heffect : Effect x c call c') (hproceeds : Proceeds x c call) : Shape x c' := by
  cases heffect with
  | plain ps hps honce =>
    rcases h with ⟨hnot, -⟩ | ⟨memory, header, hheader, ⟨hnot, -⟩ | ⟨qs, hlog⟩⟩
    · cases honce.symm.trans hnot
    · cases honce.symm.trans hnot
    · refine .inr ⟨memory, header, hheader, .inr ⟨qs ++ ps, ?_⟩⟩
      change c.log ++ ps.map .payload = _
      simp [hlog]
  | idle hidle honce => exact h
  | cut hsends header hheader honce k e hfail =>
    rcases hproceeds with hdone | hnil | hsilent
    · cases hdone.symm.trans honce
    · refine .inr ⟨call.memory, header, hheader, .inl ⟨honce, ?_⟩⟩
      change c.log ++ (headerBytes header).take k <+: _
      simpa [hnil] using List.take_prefix k _
    · have hnone : header.take k = [] := by
        have htaken := hsilent hsends header hheader
        rwa [hfail] at htaken
      have hk : k = 0 := (take_eq_nil_iff.mp hnone).resolve_right (Setup.reqHeader_ne_nil hheader)
      simpa [hk, Conn.take_nil] using h
  | whole hsends header hheader honce hok ps hps once =>
    rcases hproceeds with hdone | hnil | hsilent
    · cases hdone.symm.trans honce
    · refine .inr ⟨call.memory, header, hheader, .inr ⟨ps, ?_⟩⟩
      rw [hnil, nil_append]
    · have hnone := hsilent hsends header hheader
      rw [hok] at hnone
      exact absurd hnone (Setup.reqHeader_ne_nil hheader)

theorem begins_twice (heffect : Effect x c call c')
    (hagain : ¬ Proceeds x c call) : 2 ≤ c'.log.countP Sent.begins := by
  unfold Proceeds at hagain
  rw [not_or, not_or] at hagain
  obtain ⟨hnot, hne, hloud⟩ := hagain
  have hone := h.begins hne
  have htaken : ∀ header, x.reqHeader call.memory = some header → call.head.taken header ≠ [] := by
    intro header hheader hnil
    apply hloud
    intro _ header' hheader'
    obtain rfl := Option.some.inj (hheader.symm.trans hheader')
    exact hnil
  cases heffect with
  | plain ps hps honce => exact absurd honce hnot
  | idle hidle honce =>
    exfalso
    apply hloud
    intro hsends header hheader
    rcases hidle with hidle | hidle
    · cases hsends.symm.trans hidle
    · exact absurd (hidle.symm.trans hheader) (Option.some_ne_none header).symm
  | cut hsends header hheader honce k e hfail =>
    have hk := htaken header hheader
    rw [hfail, WriteEnd.taken_fail] at hk
    obtain ⟨b, tail, rfl⟩ := exists_cons_of_ne_nil (Setup.reqHeader_ne_nil hheader)
    obtain ⟨rest, hcons, -⟩ := headerBytes_cons b tail
    cases k with
    | zero => exact absurd rfl hk
    | succ k =>
      change 2 ≤ (c.log ++ (headerBytes (b :: tail)).take (k + 1)).countP Sent.begins
      rw [hcons, take_succ_cons, countP_append, countP_cons_of_pos rfl]
      omega
  | whole hsends header hheader honce hok ps hps once =>
    obtain ⟨b, tail, rfl⟩ := exists_cons_of_ne_nil (Setup.reqHeader_ne_nil hheader)
    obtain ⟨rest, hcons, -⟩ := headerBytes_cons b tail
    rw [hcons, countP_append, cons_append, countP_cons_of_pos rfl]
    omega

end Shape

theorem HeaderOnce.begins_le {log : List Sent} (h : HeaderOnce x log) : log.countP begins ≤ 1 := by
  rcases h with rfl | ⟨memory, header, hheader, hfront⟩
  · exact Nat.zero_le 1
  · obtain ⟨b, header, rfl⟩ := exists_cons_of_ne_nil (Setup.reqHeader_ne_nil hheader)
    obtain ⟨rest, hcons, hrest⟩ := headerBytes_cons b header
    have hpayload : (log.filter isPayload).countP begins = 0 := by
      rw [countP_eq_zero]
      intro y hy
      cases y with
      | header i b => exact absurd (mem_filter.mp hy).2 Bool.false_ne_true
      | payload b => exact Bool.false_ne_true
    calc log.countP begins
        ≤ (headerBytes (b :: header) ++ log.filter isPayload).countP begins :=
          hfront.sublist.countP_le
      _ = 1 := by rw [countP_append, hpayload, hcons, countP_cons_of_pos rfl, hrest]

theorem Effect.log {c c' : Conn} {call : ConnCall} (h : Effect x c call c') : c.log <+: c'.log := by
  cases h with
  | idle => exact prefix_refl _
  | _ => exact prefix_append _ _

def afterCalls (x : Setup) (c : Conn) (calls : List ConnCall) : Conn := Run.exec (step x) c calls

theorem log_afterCalls (hclient : x.metadata.isClient = true) (c : Conn)
    (calls : List ConnCall) : c.log <+: (afterCalls x c calls).log := by
  induction calls generalizing c with
  | nil => exact prefix_refl _
  | cons call calls ih => exact (step_effect hclient c call).log.trans (ih _)

theorem headerOnce_afterCalls (hclient : x.metadata.isClient = true) {c : Conn}
    (hshape : Shape x c) (calls : List ConnCall) :
    HeaderOnce x (afterCalls x c calls).log ↔ Run.Along (step x) (Proceeds x) c calls := by
  induction calls generalizing c with
  | nil => exact iff_of_true hshape.headerOnce trivial
  | cons call calls ih =>
    have heffect := step_effect hclient c call
    by_cases hproceeds : Proceeds x c call
    · rw [afterCalls, Run.exec_cons, ← afterCalls, ih (hshape.effect heffect hproceeds)]
      exact (and_iff_right hproceeds).symm
    · refine iff_of_false (fun honce => ?_) fun h => hproceeds h.1
      have htwice := hshape.begins_twice heffect hproceeds
      have hmore : (c.step x call).2.log.countP Sent.begins ≤
          (afterCalls x (c.step x call).2 calls).log.countP begins :=
        (log_afterCalls hclient (c.step x call).2 calls).sublist.countP_le
      have hle := honce.begins_le
      rw [afterCalls, Run.exec_cons, ← afterCalls] at hle
      omega

/-- The payload bytes come in the order of the calls, of each payload its front. -/
def InCallOrder (calls : List ConnCall) (log : List Sent) : Prop :=
  ∃ pieces : List Bytes, List.Forall₂ (· <+: ·) pieces (calls.map ConnCall.payload) ∧
    log.filter isPayload = pieces.flatten.map .payload

theorem Effect.payloads {c c' : Conn} {call : ConnCall} (h : Effect x c call c') :
    ∃ ps : Bytes, ps <+: call.payload ∧
      c'.log.filter isPayload = c.log.filter isPayload ++ ps.map .payload := by
  cases h with
  | plain ps hps honce =>
    refine ⟨ps, hps, ?_⟩
    change (c.log ++ _).filter isPayload = _
    simp [filter_payload]
  | idle hidle honce => exact ⟨[], List.nil_prefix, by simp⟩
  | cut hsends header hheader honce k e hfail =>
    refine ⟨[], List.nil_prefix, ?_⟩
    have hnone : ((headerBytes header).take k).filter isPayload = [] := by
      have hsub := ((take_sublist k (headerBytes header)).filter isPayload)
      rw [filter_headerBytes] at hsub
      exact sublist_nil.mp hsub
    change (c.log ++ _).filter isPayload = _
    simp [hnone]
  | whole hsends header hheader honce hok ps hps once =>
    refine ⟨ps, hps, ?_⟩
    simp [filter_headerBytes, filter_payload]

theorem inCallOrder_afterCalls (hclient : x.metadata.isClient = true) (c : Conn)
    (calls : List ConnCall) :
    ∃ pieces : List Bytes, List.Forall₂ (· <+: ·) pieces (calls.map ConnCall.payload) ∧
      (afterCalls x c calls).log.filter isPayload =
        c.log.filter isPayload ++ pieces.flatten.map .payload := by
  induction calls generalizing c with
  | nil => exact ⟨[], .nil, by simp [afterCalls]⟩
  | cons call calls ih =>
    obtain ⟨ps, hps, hone⟩ := (step_effect hclient c call).payloads
    obtain ⟨pieces, hpieces, hrest⟩ := ih (c.step x call).2
    refine ⟨ps :: pieces, .cons hps hpieces, ?_⟩
    rw [afterCalls, Run.exec_cons, ← afterCalls, hrest, hone]
    simp

/-- The request header is sent once, and the payloads behind it, if and only if no call begins the
header again after part of it, or of the payload behind it, was taken and the write failed. -/
theorem header_sent_once_iff (x : Setup) (hclient : x.metadata.isClient = true)
    (calls : List ConnCall) :
    HeaderOnce x (afterCalls x newConn calls).log ∧
        InCallOrder calls (afterCalls x newConn calls).log ↔
      Run.Along (step x) (Proceeds x) newConn calls := by
  have horder : InCallOrder calls (afterCalls x newConn calls).log := by
    obtain ⟨pieces, hpieces, hlog⟩ := inCallOrder_afterCalls hclient newConn calls
    exact ⟨pieces, hpieces, hlog⟩
  rw [and_iff_left horder]
  exact headerOnce_afterCalls hclient (.inl ⟨rfl, rfl⟩) calls

def sampleSetup (v : Variant) : Setup :=
  ⟨sampleText, v, .ofBytes 56 [], .tcp, ⟨.domain, [97], 53, .zero, 0, true⟩⟩

def sampleCalls : List ConnCall :=
  [.read (fun _ => 0) (.fail 0 (.sentinel .closed)), .write [7] (fun _ => 0) .ok .ok]

/-- A first attempt of which nothing is taken, and a second one that is taken whole. -/
theorem header_sent_once_iff_sample :
    HeaderOnce (sampleSetup .trojan) (afterCalls (sampleSetup .trojan) newConn sampleCalls).log ∧
      InCallOrder sampleCalls (afterCalls (sampleSetup .trojan) newConn sampleCalls).log := by
  have hnothing : (step (sampleSetup .trojan) newConn
      (.read (fun _ => 0) (.fail 0 (.sentinel .closed)))).2.log = [] := by decide +kernel
  apply (header_sent_once_iff (sampleSetup .trojan) rfl sampleCalls).mpr
  exact ⟨.inr (.inl rfl), .inr (.inl hnothing), trivial⟩

theorem headerOnce_false {log : List Sent} (h : 2 ≤ log.countP begins) : ¬ HeaderOnce x log := by
  intro honce
  have hle := honce.begins_le
  omega

/-- After one byte of the Trojan header, and after all of the Juicity header, the next call sends the
header again. -/
theorem header_sent_twice :
    ¬ HeaderOnce (sampleSetup .trojan) (afterCalls (sampleSetup .trojan) newConn
      [.write [7] (fun _ => 0) (.fail 1 (.sentinel .closed)) .ok,
        .write [7] (fun _ => 0) .ok .ok]).log ∧
    ¬ HeaderOnce (sampleSetup .juicity) (afterCalls (sampleSetup .juicity) newConn
      [.write [7] (fun _ => 0) .ok (.fail 0 (.sentinel .closed)),
        .write [7] (fun _ => 0) .ok .ok]).log := by
  constructor
  · apply headerOnce_false
    decide +kernel
  · apply headerOnce_false
    decide +kernel

end Outbound.Trojanc
