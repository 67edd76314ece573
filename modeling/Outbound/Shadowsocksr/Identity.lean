import Mathlib.Data.List.Chain
import Outbound.Lib.Run
import Outbound.Shadowsocksr.AuthChainFraming

/-! The ids in the authentication headers of connections that share one `AuthData`. -/
namespace Outbound.Shadowsocksr

open Lib List Option

structure AuthData where
  clientID : Option Bytes
  connectionID : UInt32

namespace AuthData

def new : AuthData := ⟨none, 0⟩

/-- The numbering in `packAuthData` of `auth_sha1_v4` and of `auth_aes128`. Comes with what was read
into the client id, if it was drawn. -/
def renew (d : AuthData) (env : Env) : Option Bytes × AuthData :=
  let connectionID := d.connectionID + 1
  let clientID := if 0xFF000000 < connectionID then none else d.clientID
  if (clientID.getD []).length = 0 then
    let client := (range 8).map env.entropy
    let b := (range 4).map fun i => env.entropy (8 + i)
    (some client, ⟨some client, UInt32.ofNat (leNat b) &&& 0xFFFFFF⟩)
  else (none, ⟨clientID, connectionID⟩)

/-- The numbering of `auth_chain_a`, which reads four bytes behind the client id. -/
def renewChain (d : AuthData) (env : Env) : Option Bytes × AuthData :=
  let a := nextConnection env (.new 0 d.connectionID d.clientID)
  (if a.drawn = 0 then none else some ((range (a.drawn - 4)).map env.entropy),
    ⟨a.clientID, a.connectionID⟩)

end AuthData

inductive AuthProtocol where
  | sha1V4
  | aes128
  | chain
deriving DecidableEq

def AuthProtocol.renew : AuthProtocol → AuthData → Env → Option Bytes × AuthData
  | .sha1V4 | .aes128 => AuthData.renew
  | .chain => AuthData.renewChain

/-- The ids that a header carries behind the time, with what was read for it. -/
structure Header where
  client : Octets 4
  connection : UInt32
  read : Option Bytes

namespace Header

def of (read : Option Bytes) (d : AuthData) : Header :=
  ⟨.ofBytes 4 (d.clientID.getD []), d.connectionID, read⟩

/-- The client id was drawn for this header. -/
def Draws (h : Header) : Prop :=
  ∃ b, h.read = some b ∧ 4 ≤ b.length ∧ h.client.1 = b.take 4

/-- The header of the next connection. -/
def Follows (h h' : Header) : Prop :=
  if h.connection.toNat < 0xFF000000 then
    h'.read = none ∧ h'.client = h.client ∧ h'.connection.toNat = h.connection.toNat + 1
  else h'.Draws

end Header

variable (p : AuthProtocol) (envs : List Env)

def AuthProtocol.header (d : AuthData) (env : Env) : Header × AuthData :=
  (.of (p.renew d env).1 (p.renew d env).2, (p.renew d env).2)

/-- The headers of the connections, one environment for each. -/
def AuthProtocol.headers : List Header :=
  Run.answers p.header .new envs

structure Lawful (hs : List Header) : Prop where
  first : ∀ h ∈ hs.head?, h.Draws
  next : hs.IsChain Header.Follows
  once : ∀ h mid h', h :: mid ++ [h'] <:+: hs → (∀ x ∈ mid ++ [h'], x.read = none) →
    (h.client, h.connection) ≠ (h'.client, h'.connection)

theorem Header.Follows.up {h h' : Header} (hnext : h.Follows h') (hkept : h'.read = none) :
    h.connection < h'.connection := by
  unfold Follows at hnext
  split_ifs at hnext
  · rw [UInt32.lt_iff_toNat_lt]
    omega
  · obtain ⟨b, hb, -⟩ := hnext
    exact absurd (hkept.symm.trans hb) (some_ne_none b).symm

/-- Between two draws the connection ids go up, so that none is used twice. -/
theorem up_of_isChain {h h' : Header} {mid : List Header}
    (hnext : (h :: mid ++ [h']).IsChain Header.Follows)
    (hkept : ∀ x ∈ mid ++ [h'], x.read = none) : h.connection < h'.connection := by
  induction mid generalizing h with
  | nil => exact (isChain_cons_cons.mp hnext).1.up (hkept h' mem_cons_self)
  | cons x mid ih =>
    obtain ⟨hx, hrest⟩ := isChain_cons_cons.mp hnext
    obtain ⟨hread, hkept⟩ := forall_mem_cons.mp hkept
    exact UInt32.lt_trans (hx.up hread) (ih hrest hkept)

namespace AuthData

/-- A client id is there, and the connection id has not passed its bound. -/
structure Ready (d : AuthData) : Prop where
  client : ∃ b, d.clientID = some b ∧ b.length = 8
  bound : d.connectionID.toNat ≤ 0xFF000000

variable {d : AuthData} (env : Env)

/-- Without a client id, or when the connection id passes its bound, both are drawn. -/
theorem renew_drawn (h : 0xFF000000 < d.connectionID + 1 ∨ d.clientID = none) :
    (Header.of (d.renew env).1 (d.renew env).2).Draws ∧ Ready (d.renew env).2 := by
  have hclient : ((if 0xFF000000 < d.connectionID + 1 then none else d.clientID).getD
      []).length = 0 := by
    rcases h with h | h <;> simp [h]
  unfold renew
  rw [if_pos hclient]
  refine ⟨⟨_, rfl, by simp, ?_⟩, ⟨_, rfl, by simp⟩, ?_⟩
  · simp [Header.of, Octets.ofBytes, take_append_of_le_length]
  · exact Nat.and_le_right.trans (by decide)

theorem Ready.renew (h : Ready d) (read : Option Bytes) :
    (Header.of read d).Follows (.of (d.renew env).1 (d.renew env).2) ∧ Ready (d.renew env).2 := by
  obtain ⟨⟨b, hb, hlen⟩, hbound⟩ := h
  have hadd : (d.connectionID + 1).toNat = d.connectionID.toNat + 1 := by
    exact Nat.mod_eq_of_lt (by simp; omega)
  unfold Header.Follows
  by_cases hlast : d.connectionID.toNat < 0xFF000000
  · have hkeep : ¬ 0xFF000000 < d.connectionID + 1 := by
      rw [UInt32.lt_iff_toNat_lt, hadd]
      exact not_lt.mpr hlast
    have hrenew : d.renew env = (none, ⟨some b, d.connectionID + 1⟩) := by
      simp [AuthData.renew, hkeep, hb, hlen]
    rw [hrenew]
    refine ⟨?_, ⟨b, rfl, hlen⟩, hadd ▸ hlast⟩
    simp [Header.of, hlast, hb, hadd]
  · have hpassed : 0xFF000000 < d.connectionID + 1 := by
      rw [UInt32.lt_iff_toNat_lt, hadd]
      exact Nat.lt_succ_of_le (not_lt.mp hlast)
    simpa [Header.of, hlast] using renew_drawn env (.inl hpassed)

end AuthData

theorem isChain_headers {p : AuthProtocol} (hp : p.renew = AuthData.renew) (envs : List Env)
    {d : AuthData} (h : d.Ready) (read : Option Bytes) :
    (Header.of read d :: Run.answers p.header d envs).IsChain Header.Follows := by
  induction envs generalizing d read with
  | nil => exact .singleton _
  | cons env envs ih =>
    have hstep := h.renew env read
    rw [← hp] at hstep
    exact isChain_cons_cons.mpr ⟨hstep.1, ih hstep.2 _⟩

theorem lawful_headers {p : AuthProtocol} (hp : p.renew = AuthData.renew) (envs : List Env) :
    Lawful (p.headers envs) := by
  have hnext : (p.headers envs).IsChain Header.Follows ∧ ∀ h ∈ (p.headers envs).head?, h.Draws := by
    cases envs with
    | nil => exact ⟨.nil, nofun⟩
    | cons env envs =>
      have hfirst := AuthData.renew_drawn (d := .new) env (.inr rfl)
      rw [← hp] at hfirst
      exact ⟨isChain_headers hp envs hfirst.2 _, fun h hh => some.inj hh ▸ hfirst.1⟩
  refine ⟨hnext.2, hnext.1, fun h mid h' hin hkept heq => ?_⟩
  obtain ⟨pre, post, happend⟩ := hin
  have hup := up_of_isChain (happend ▸ hnext.1).left_of_append.right_of_append hkept
  rw [(Prod.mk.inj heq).2] at hup
  exact UInt32.lt_irrefl _ hup

/-- `auth_chain_a` reads its client id into no bytes at all. -/
theorem not_lawful_chain (env : Env) (envs : List Env) :
    ¬ Lawful (AuthProtocol.chain.headers (env :: envs)) := by
  intro h
  obtain ⟨b, hb, hlen, -⟩ := h.first _ rfl
  obtain rfl : [] = b := some.inj hb
  cases hlen

theorem lawful_headers_iff : Lawful (p.headers envs) ↔ p ≠ .chain ∨ envs = [] := by
  cases p with
  | chain =>
    cases envs with
    | nil =>
      have hnone : Lawful [] := ⟨nofun, .nil, fun _ _ _ h => by simp at h⟩
      exact iff_of_true hnone (.inr rfl)
    | cons env envs => exact iff_of_false (not_lawful_chain env envs) (by simp)
  | _ => exact iff_of_true (lawful_headers rfl envs) (.inl nofun)

/-- Two connections of `auth_chain_a` with no client id, and with one connection id. -/
theorem chain_draws_no_client :
    (AuthProtocol.chain.headers (replicate 2 { sampleEnv with entropy := fun _ => 7 })).map
        (fun h => (h.client.1, h.connection)) = replicate 2 ([0, 0, 0, 0], 0x070707) ∧
    ¬ Lawful (AuthProtocol.chain.headers (replicate 2 { sampleEnv with entropy := fun _ => 7 })) :=
  ⟨by decide, not_lawful_chain _ _⟩

end Outbound.Shadowsocksr
