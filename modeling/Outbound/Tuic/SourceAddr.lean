import Outbound.Tuic.Codec
import Outbound.Tuic.Delivery
import Outbound.Tuic.Ownership

/-! The source address that an association reports with a datagram, over its whole runs. -/
namespace Outbound.Tuic

open Lib List Option DeFraggerBucket PacketConn

def Addr.octets : Addr → Bytes
  | .zero => []
  | .v4 ip => ip.1
  | .v6 ip => ip.1

def Outcome.src : Outcome → AddrPort
  | .handed r => r.src
  | .returned r => r.addr

def Outcome.data : Outcome → Bytes
  | .handed r => r.data
  | .returned r => r.data

/-- The packet came out of one of the decoders of received packets. -/
def Decoded (p : Packet (Option Address)) : Prop :=
  (∃ msg, Checked.readPacketFromMessage msg = some (.ok p)) ∨
    ∃ s, decode readPacketFromStream s = some (.ok p)

/-- What is to be reported for an encoded address: the IP and the port, and nothing valid where
there is no IP. -/
def Address.Reported (c : Address) (src : AddrPort) : Prop :=
  if c.IsIP then Addr.octets src.addr = c.addr ∧ src.port = c.port else src.isValid = false

/-- A name that is, with its length byte, as long as an IP. -/
def Address.LooksLikeIP (c : Address) : Prop :=
  c.type = atypDomainName ∧ (c.addr.length = 4 ∨ c.addr.length = 16)

theorem Decoded.canonical {p : Packet (Option Address)} (h : Decoded p) :
    ∃ c, p.addr = some c ∧ c.Canonical := by
  rcases h with ⟨msg, h⟩ | ⟨s, h⟩
  · rw [checked_readPacketFromMessage] at h
    exact canonical_of_readPacketFromMessage (some.inj h)
  · have hparse := (verdict_decode readPacketFromStream s).symm.trans (congrArg verdict h)
    rw [parse_readPacketFromStream] at hparse
    cases hread : readPacketFromMessage s.rest with
    | error err => simp [hread, verdict, Except.toOption] at hparse
    | ok q =>
      obtain rfl : q = p := by simpa [hread, verdict, Except.toOption] using hparse
      exact canonical_of_readPacketFromMessage hread

theorem isValid_udpAddrPort (c : Address) :
    c.udpAddrPort.isValid = true ↔ c.addr.length = 4 ∨ c.addr.length = 16 := by
  unfold Address.udpAddrPort addrFromSlice AddrPort.isValid
  split_ifs <;> simp [*]

theorem Address.Canonical.reported_iff {c : Address} (h : c.Canonical) :
    c.Reported c.udpAddrPort ↔ ¬ c.LooksLikeIP := by
  obtain ⟨hip | ⟨htype, name, -, hname⟩ | htype, hwire⟩ := h
  · have htype : c.type ≠ atypDomainName := by
      rcases hip with ⟨h, -⟩ | ⟨h, -⟩ <;> rw [h] <;> decide
    refine iff_of_true ?_ fun hlooks => htype hlooks.1
    rw [Reported, if_pos hip]
    rcases hip with ⟨-, h⟩ | ⟨-, h⟩ <;> simp [udpAddrPort, addrFromSlice, Addr.octets, h]
  · have hip : ¬ c.IsIP := by
      rintro (⟨h, -⟩ | ⟨h, -⟩) <;> cases htype.symm.trans h
    rw [Reported, if_neg hip, LooksLikeIP, ← isValid_udpAddrPort]
    simp [htype]
  · have hip : ¬ c.IsIP := fun hip => hip.type_ne_none htype
    have haddr : c.addr = [] := by
      rw [← hwire, onWire, if_pos htype]
    rw [Reported, if_neg hip, LooksLikeIP]
    simp [haddr, htype, udpAddrPort, addrFromSlice, AddrPort.isValid, atypNone, atypDomainName]

namespace DeFragger

variable (d : DeFragger)

/-- The set as `feed` goes on with it, with the fragment in its slot. -/
def place (m : Received) (nowNano : ℤ) : DeFragger :=
  ((d.opened m.packet nowNano).store m).1

/-- If `m` is a first fragment with a valid address, this is the address of the set. -/
def Noted (m : Packet (Option Address)) : Prop :=
  m.fragID = 0 → (packetFragmentAddrPort m).isValid = true →
    d.hasFirstFrag = true ∧ d.firstAddrPort = packetFragmentAddrPort m

/-- If `m` is a first fragment with a valid address, the set has no other one. -/
def Agrees (m : Packet (Option Address)) : Prop :=
  m.fragID = 0 → (packetFragmentAddrPort m).isValid = true → d.hasFirstFrag = true →
    d.firstAddrPort = packetFragmentAddrPort m

/-- What is handed out of a complete set. -/
structure Hands (data : Bytes) (src : AddrPort) : Prop where
  full : d.count = d.frags.length
  set : d.hasFirstFrag = true
  src : src = d.firstAddrPort
  data : data <+: ((contents d.frags).map fun r => r.packet.data).flatten

variable {d} {m r : Packet (Option Address)}

theorem agrees_of_isMatch (h : d.isMatch m = true) (hcount : d.count ≠ 0) : d.Agrees m := by
  intro hid hvalid hset
  unfold isMatch at h
  simp only [if_neg hcount, if_pos hid, hset, Bool.not_true, Bool.false_eq_true, if_false, hvalid,
    Bool.true_and] at h
  split_ifs at h
  exact eq_of_beq h

theorem Noted.noteFirst (h : d.Noted r) (hagree : d.Agrees m) : (d.noteFirst m).Noted r := by
  intro hid hvalid
  obtain ⟨hset, haddr⟩ := h hid hvalid
  unfold DeFragger.noteFirst
  split_ifs with hm
  · exact ⟨rfl, (hagree hm.1 hm.2 hset).symm.trans haddr⟩
  · exact ⟨hset, haddr⟩

theorem noted_noteFirst : (d.noteFirst m).Noted m := by
  intro hid hvalid
  unfold DeFragger.noteFirst
  rw [if_pos ⟨hid, hvalid⟩]
  exact ⟨rfl, rfl⟩

theorem store_first (d : DeFragger) (m : Received) :
    (d.store m).1.hasFirstFrag = d.hasFirstFrag ∧ (d.store m).1.firstAddrPort = d.firstAddrPort := by
  unfold store
  split <;> exact ⟨rfl, rfl⟩

theorem hands_of_finish {released : List ℕ} {p : ℕ} (h : (d.finish released p).1.assembled = true) :
    d.Hands (d.finish released p).1.data (d.finish released p).1.addrPort := by
  unfold finish at h ⊢
  split_ifs at h ⊢ with hready
  exact ⟨hready.1, hready.2.1, rfl, take_prefix _ _⟩

end DeFragger

variable (S : Received → Prop)

/-- A fragment set that holds packets of `S` only, and has the address of its first fragment. -/
structure Knows (d : DeFragger) : Prop where
  kept : d.Kept
  slot : ∀ (j : ℕ) (r : Received), d.frags[j]? = some (some r) → S r ∧ d.Noted r.packet
  valid : d.hasFirstFrag = true → d.firstAddrPort.isValid = true

/-- A set that came out of a set of the bucket, as it was or with the fragment `m`. -/
structure Comes (b : DeFraggerBucket) (m : Received) (nowNano : ℤ) (e : DeFragger) : Prop where
  knows : Knows S e
  pos : 0 < e.count
  origin : ∃ d ∈ .new nowNano :: b.deFraggers,
    e.frags = d.frags ∨ e.frags = (d.place m nowNano).frags

/-- A call leaves such sets in the bucket, and hands out such a set. -/
structure Reports (b : DeFraggerBucket) (m : Received) (nowNano : ℤ)
    (s : BucketFed × DeFraggerBucket) : Prop where
  sets : ∀ e ∈ s.2.deFraggers, Comes S b m nowNano e
  src : s.1.assembled = true → ∃ e, Comes S b m nowNano e ∧ e.Hands s.1.data s.1.addr

section Sets

variable {S} {d : DeFragger} {m : Received} {p : ℕ} {nowNano : ℤ}

theorem knows_new : Knows S (.new nowNano) := ⟨kept_new nowNano, by simp [DeFragger.new], nofun⟩

theorem Knows.noteFirst {packet : Packet (Option Address)} (h : Knows S d)
    (hagree : d.Agrees packet) : Knows S (d.noteFirst packet) where
  kept := h.kept.noteFirst packet
  slot j r hr := by
    rw [DeFragger.noteFirst_frags] at hr
    exact ⟨(h.slot j r hr).1, (h.slot j r hr).2.noteFirst hagree⟩
  valid := by
    unfold DeFragger.noteFirst
    split_ifs with hfirst
    · exact fun _ => hfirst.2
    · exact h.valid

theorem Knows.opened {packet : Packet (Option Address)} (h : Knows S d)
    (hagree : d.count ≠ 0 → d.Agrees packet) (nowNano : ℤ) : Knows S (d.opened packet nowNano) := by
  unfold DeFragger.opened
  dsimp only
  split_ifs with hcount
  · -- what an empty set has noted is forgotten
    have hnone : ∀ (j : ℕ) (r : Received),
        ((d.touch nowNano).clear packet).frags[j]? ≠ some (some r) :=
      fun j r hr => not_holds_replicate_none _ j ⟨r, hr⟩
    exact Knows.noteFirst ⟨⟨by simp [DeFragger.clear], fun j r hr => absurd hr (hnone j r)⟩,
      fun j r hr => absurd hr (hnone j r), fun hset => absurd hset Bool.false_ne_true⟩
      fun _ _ hset => absurd hset Bool.false_ne_true
  · exact Knows.noteFirst ⟨⟨h.kept.count, h.kept.slot⟩, h.slot, h.valid⟩ (hagree hcount)

theorem Knows.place (h : Knows S d) (hm : S m) (he : DeFragger.Enters m.packet d)
    (hagree : d.count ≠ 0 → d.Agrees m.packet) (nowNano : ℤ) :
    Knows S (d.place m nowNano) ∧ 0 < (d.place m nowNano).count := by
  have hopened := h.opened hagree nowNano
  have hlt := he.lt_length_opened nowNano
  obtain ⟨hkept, hpos⟩ := hopened.kept.store hlt (DeFragger.length_opened nowNano he) he.total
  obtain ⟨hset, haddr⟩ := DeFragger.store_first (d.opened m.packet nowNano) m
  have hnoted : (d.opened m.packet nowNano).Noted m.packet := DeFragger.noted_noteFirst
  refine ⟨⟨hkept, fun j r hr => ?_, ?_⟩, hpos⟩
  · unfold DeFragger.place DeFragger.Noted at *
    rw [hset, haddr]
    rcases DeFragger.store_cases hlt with ⟨-, -, hfrags, -⟩ | ⟨held, -, -, hsame⟩
    · rw [hfrags] at hr
      exact forall_of_set hlt ⟨hm, hnoted⟩ hopened.slot j r hr
    · rw [hsame] at hr
      exact hopened.slot j r hr
  · unfold DeFragger.place
    rw [hset, haddr]
    exact hopened.valid

variable {b : DeFraggerBucket}

theorem feedNil_reports {c : DeFraggerBucket} (hc : ∀ e ∈ c.deFraggers, Comes S b m nowNano e)
    (p : ℕ) : Reports S b m nowNano (c.feedNil p nowNano) := by
  rcases feedNil_cases (fun e he => ⟨(hc e he).knows.kept, (hc e he).pos⟩) p nowNano with
    ⟨-, hfeed, -⟩ | ⟨d, rest, r, j, hperm, -, hr, hdone, hout, hleft, -⟩
  · rw [hfeed]
    exact ⟨hc, nofun⟩
  · refine ⟨fun e he => hc e (hperm.mem_iff.mpr (mem_cons_of_mem _ (hleft.mem_iff.mp he))),
      fun _ => ⟨d.place r nowNano, ?_, ?_⟩⟩
    · -- the set is fed one of its own fragments, which changes nothing but its time
      obtain ⟨hknows, hpos, horigin⟩ := hc d (hperm.mem_iff.mpr mem_cons_self)
      obtain ⟨hin, hnoted⟩ := hknows.slot j r hr
      obtain ⟨hplace, hpos'⟩ := hknows.place hin (hknows.kept.enters hr)
        (fun _ hid hvalid _ => (hnoted hid hvalid).2) nowNano
      have hfrags : (d.place r nowNano).frags = d.frags := by
        rw [DeFragger.place, (DeFragger.opened_trigger hknows.kept hpos hr nowNano).2,
          DeFragger.noteFirst_frags]
        rfl
      exact ⟨hplace, hpos', hfrags ▸ horigin⟩
    · have henters := (hc d (hperm.mem_iff.mpr mem_cons_self)).knows.kept.enters hr
      rw [DeFragger.feed_eq nowNano henters] at hdone hout
      rw [hout]
      exact DeFragger.hands_of_finish hdone

theorem feed_reports (hb : ∀ d ∈ b.deFraggers, Knows S d ∧ 0 < d.count) (hm : S m) (p : ℕ)
    (nowNano : ℤ) : Reports S b m nowNano (b.feed m p nowNano) := by
  have hkeep : ∀ e ∈ b.deFraggers, Comes S b m nowNano e := fun e he =>
    ⟨(hb e he).1, (hb e he).2, e, mem_cons_of_mem _ he, .inl rfl⟩
  rcases b.feed_inv m p nowNano with ⟨hfeed, -⟩ | ⟨size, hfeed, -⟩ | ⟨d, rest, hfeeds, -⟩
  · rw [hfeed]
    exact ⟨hkeep, nofun⟩
  · rw [hfeed]
    exact ⟨hkeep, nofun⟩
  obtain ⟨hknows, hagree, hin, hrest⟩ : Knows S d ∧ (d.count ≠ 0 → d.Agrees m.packet) ∧
      d ∈ .new nowNano :: b.deFraggers ∧ ∀ e ∈ rest, e ∈ b.deFraggers := by
    rcases hfeeds.origin with ⟨hperm, hmatch⟩ | ⟨rfl, rfl⟩
    · have hmem := hperm.mem_iff.mpr mem_cons_self
      exact ⟨(hb d hmem).1, DeFragger.agrees_of_isMatch hmatch, mem_cons_of_mem _ hmem,
        fun e he => hperm.mem_iff.mpr (mem_cons_of_mem _ he)⟩
    · exact ⟨knows_new, absurd rfl, mem_cons_self, fun _ he => he⟩
  obtain ⟨hplace, hpos⟩ := hknows.place hm hfeeds.enters hagree nowNano
  have hcomes : Comes S b m nowNano (d.place m nowNano) := ⟨hplace, hpos, d, hin, .inr rfl⟩
  obtain ⟨c, i, size, hout⟩ := hfeeds.out
  have hleft := hfeeds.left
  rw [DeFragger.feed_eq nowNano hfeeds.enters] at hout hleft
  refine ⟨fun e he => ?_, fun hdone => ⟨_, hcomes, ?_⟩⟩
  · have he := hleft.mem_iff.mp he
    split_ifs at he with hdone
    · exact hkeep e (hrest e he)
    · rcases DeFragger.finish_cases (d.place m nowNano) ((d.opened m.packet nowNano).store m).2 p
        with ⟨hyes, -⟩ | ⟨-, hsame, -⟩
      · exact absurd hyes hdone
      · rcases mem_cons.mp he with rfl | he
        · exact hsame.symm ▸ hcomes
        · exact hkeep e (hrest e he)
  · rw [hout] at hdone ⊢
    unfold fedAt at hdone ⊢
    split_ifs at hdone ⊢ with hassembled
    exact DeFragger.hands_of_finish hassembled

end Sets

namespace PacketConn

/-- The packet came in along the run. -/
def Came (as : List Arrival) (r : Received) : Prop := r ∈ as.map Arrival.packet

def Known (as : List Arrival) (q : PacketConn) : Prop :=
  ∀ id, ∀ d ∈ q.sets id, Knows (Came as) d ∧ 0 < d.count

variable {as : List Arrival} {q : PacketConn} {a : Arrival}

theorem mem_sets_of_cleanup {nowNano : ℤ} {id : UInt16} {d : DeFragger}
    (h : d ∈ (q.maybeCleanupDeFraggers nowNano).sets id) : d ∈ q.sets id := by
  rcases sets_cleanup q nowNano id with heq | heq
  · exact heq ▸ h
  · rw [heq] at h
    exact (mem_filter.mp h).1

theorem Known.put (h : Known as q) {q' : PacketConn} {id : UInt16} {b c : DeFraggerBucket}
    {m : Received} {nowNano : ℤ}
    (hsets : ∀ id', q'.sets id' = if id' = id then c.deFraggers else q.sets id')
    (hc : ∀ e ∈ c.deFraggers, Comes (Came as) b m nowNano e) : Known as q' := by
  intro id' d hd
  rw [hsets] at hd
  split_ifs at hd
  · exact ⟨(hc d hd).knows, (hc d hd).pos⟩
  · exact h id' d hd

/-- What `deliverPacket` and `ReadFrom` report: the packet itself, or a set with its address. -/
def Sources (as : List Arrival) (q : PacketConn) (a : Arrival) (o : Outcome) : Prop :=
  if a.packet.packet.fragTotal ≤ 1 then a.packet.packet.addr.map Address.udpAddrPort = some o.src
  else ∃ e, Comes (Came as) (q.loadBucket a.packet.packet.pktID) a.packet a.nowNano e ∧
    e.Hands o.data o.src

section

variable {b : DeFraggerBucket} {m : Received} {s : BucketFed × DeFraggerBucket} {nowNano : ℤ}

theorem Known.deliverFed (h : Known as q) (hs : Reports (Came as) b m nowNano s) (pool : Pool)
    (id : UInt16) :
    Known as (q.deliverFed pool id nowNano s).2 ∧
      ∀ r, (q.deliverFed pool id nowNano s).1 = some r →
        ∃ e, Comes (Came as) b m nowNano e ∧ e.Hands r.data r.src := by
  have hnil := feedNil_reports hs.sets (pool.fullCap s.1.assembledLen)
  unfold PacketConn.deliverFed
  dsimp only
  split
  · exact ⟨h.put (sets_setBucket q id · s.2) hs.sets, nofun⟩
  split
  · exact ⟨h.put (sets_setBucket q id · _) hnil.sets, nofun⟩
  · next hdone =>
    refine ⟨h.put (sets_retire q id · _) hnil.sets, ?_⟩
    rintro r ⟨⟩
    exact hnil.src (by simpa using hdone)

theorem Known.readFed (h : Known as q) (hs : Reports (Came as) b m nowNano s) (pool : Pool)
    (id : UInt16) (p : ℕ) :
    Known as (q.readFed pool id p nowNano s).2 ∧
      ∀ r, (q.readFed pool id p nowNano s).1 = some r →
        ∃ e, Comes (Came as) b m nowNano e ∧ e.Hands r.data r.addr := by
  have hnil := feedNil_reports hs.sets (pool.fullCap s.1.assembledLen)
  unfold PacketConn.readFed
  dsimp only
  split
  · next hdone =>
    refine ⟨h.put (sets_retire q id · _) hs.sets, ?_⟩
    rintro r ⟨⟩
    exact hs.src hdone
  split
  · split
    · next hdone =>
      refine ⟨h.put (sets_retire q id · _) hnil.sets, ?_⟩
      rintro r ⟨⟩
      obtain ⟨e, hcomes, hhands⟩ := hnil.src hdone
      refine ⟨e, hcomes, ?_⟩
      unfold copyOut
      split_ifs
      · exact { hhands with data := (List.take_prefix _ _).trans hhands.data }
      · exact hhands
    · exact ⟨h.put (sets_setBucket q id · _) hnil.sets, nofun⟩
  · exact ⟨h.put (sets_setBucket q id · s.2) hs.sets, nofun⟩

end

theorem nothing_reported {P : Outcome → Prop} : ∀ o, none = some o → P o := nofun

theorem Known.step (h : Known as q) (ha : a ∈ as) (pool : Pool) :
    Known as (q.step pool a).2 ∧
      ∀ o, (q.step pool a).1 = some o →
        Sources as (q.maybeCleanupDeFraggers a.nowNano) a o := by
  obtain ⟨path, nowNano, packet⟩ := a
  unfold Sources
  by_cases hfrag : packet.packet.fragTotal ≤ 1
  · cases path with
    | push =>
      simp only [step, deliverPacket, if_pos hfrag]
      split
      · exact ⟨h, nothing_reported⟩
      · cases packet.packet.addr with
        | none => exact ⟨h, nothing_reported⟩
        | some c =>
          refine ⟨h, fun o ho => ?_⟩
          rw [← some.inj ho]
          rfl
    | pull p =>
      simp only [step, readFromStep, if_pos hfrag]
      cases packet.packet.addr with
      | none => exact ⟨h, nothing_reported⟩
      | some c =>
        refine ⟨h, fun o ho => ?_⟩
        rw [← some.inj ho]
        unfold copyOut
        split_ifs <;> rfl
  · have hclean : Known as (q.maybeCleanupDeFraggers nowNano) :=
      fun id d hd => h id d (mem_sets_of_cleanup hd)
    have hfeed (p : ℕ) := feed_reports (b := (q.maybeCleanupDeFraggers nowNano).loadBucket _)
      (hclean packet.packet.pktID) (mem_map_of_mem ha) p nowNano
    cases path with
    | push =>
      simp only [step, deliverPacket, if_neg hfrag]
      split
      · exact ⟨h, nothing_reported⟩
      · obtain ⟨hknown, hsrc⟩ := hclean.deliverFed (hfeed 0) pool packet.packet.pktID
        refine ⟨hknown, fun o ho => ?_⟩
        obtain ⟨r, hr, rfl⟩ := map_eq_some_iff.mp ho
        exact hsrc r hr
    | pull p =>
      simp only [step, readFromStep, if_neg hfrag]
      obtain ⟨hknown, hsrc⟩ := hclean.readFed (hfeed p) pool packet.packet.pktID p
      refine ⟨hknown, fun o ho => ?_⟩
      obtain ⟨r, hr, rfl⟩ := map_eq_some_iff.mp ho
      exact hsrc r hr

theorem known_run (pool : Pool) {all : List Arrival} (h : Known all q) (has : as ⊆ all) :
    Known all (Run.exec (step pool) q as) := by
  induction as generalizing q with
  | nil => exact h
  | cons a as ih =>
    obtain ⟨ha, has⟩ := cons_subset.mp has
    exact ih (h.step ha pool).1 has

variable (q a)

/-- The fragments of a set that `q` has for `a`, complete as it is or with `a` in its slot. -/
def Complete (frags : List Received) : Prop :=
  ∃ d ∈ .new a.nowNano :: q.sets a.packet.packet.pktID,
    frags.map some = d.frags ∨ frags.map some = (d.place a.packet a.nowNano).frags

/-- The packet that has the address of the datagram `o`: the arrival itself, or the first fragment of
the set that is handed out. -/
def Leads (o : Outcome) (first : Received) : Prop :=
  if a.packet.packet.fragTotal ≤ 1 then first = a.packet
  else first.packet.fragID = 0 ∧ ∃ rest, Complete q a (first :: rest) ∧
    o.data <+: ((first :: rest).map fun r => r.packet.data).flatten

/-- In every run, on both paths, the source reported with a datagram is the one that its packet or
its first fragment encodes, unless that is a name of 3 or of 15 bytes, or a fragment without an IP. -/
theorem source_address_iff (pool : Pool) (as : List Arrival) (a : Arrival) (o : Outcome)
    (hdecoded : ∀ b ∈ as ++ [a], Decoded b.packet.packet)
    (ho : ((Run.exec (step pool) new as).step pool a).1 = some o) :
    ∃ first c, Leads (Run.exec (step pool) new as) a o first ∧ first.packet.addr = some c ∧
      (c.Reported o.src ↔ ¬ c.LooksLikeIP ∧ (¬ a.packet.packet.fragTotal ≤ 1 → c.IsIP)) := by
  have hnew : Known (as ++ [a]) new := fun _ _ hd => absurd hd not_mem_nil
  have hlast : a ∈ as ++ [a] := mem_append_right as mem_cons_self
  have hsrc := ((known_run pool hnew (subset_append_left as [a])).step hlast pool).2 o ho
  unfold Sources at hsrc
  unfold Leads
  split_ifs at hsrc ⊢ with hfrag
  · obtain ⟨c, hc, hcanonical⟩ := (hdecoded a hlast).canonical
    have hreport : c.udpAddrPort = o.src := by simpa [hc] using hsrc
    refine ⟨a.packet, c, rfl, hc, ?_⟩
    simp [← hreport, hcanonical.reported_iff, hfrag]
  · obtain ⟨e, ⟨hknows, hpos, d, hd, horigin⟩, hhands⟩ := hsrc
    have hfull := map_some_contents (hknows.kept.count.symm.trans hhands.full)
    have hne : contents e.frags ≠ [] := by rwa [← length_pos_iff, ← hknows.kept.count]
    obtain ⟨first, rest, hcontents⟩ := exists_cons_of_ne_nil hne
    rw [hcontents] at hfull
    have hslot : e.frags[0]? = some (some first) := by rw [← hfull]; rfl
    obtain ⟨hin, hnoted⟩ := hknows.slot 0 first hslot
    have hid : first.packet.fragID = 0 := UInt8.toNat_inj.mp (hknows.kept.slot 0 first hslot).1
    obtain ⟨b, hb, rfl⟩ := mem_map.mp hin
    obtain ⟨c, hc, hcanonical⟩ := (hdecoded b hb).canonical
    refine ⟨b.packet, c, ⟨hid, rest, ⟨d, ?_, ?_⟩, hcontents ▸ hhands.data⟩, hc, ?_⟩
    · exact (mem_cons.mp hd).elim (· ▸ mem_cons_self) fun hd =>
        mem_cons_of_mem _ (mem_sets_of_cleanup hd)
    · rwa [hfull]
    by_cases hip : c.IsIP
    · have haddr : packetFragmentAddrPort b.packet.packet = c.udpAddrPort := by
        rw [packetFragmentAddrPort, hc]
        exact if_neg hip.type_ne_none
      obtain ⟨-, hfirst⟩ := hnoted hid (haddr ▸ hip.isValid)
      rw [hhands.src, hfirst, haddr, hcanonical.reported_iff]
      simp [hip]
    · -- the set got its address from another first fragment
      rw [Address.Reported, if_neg hip, hhands.src, hknows.valid hhands.set]
      simp [hfrag, hip]

def firstOfTwo : Arrival :=
  ⟨.push, 1, ⟨⟨5, 7, 9, 2, 0, 1, some ⟨atypIPv4, [10, 0, 0, 1], 53⟩, [65]⟩, 0⟩⟩

def secondOfTwo : Arrival := ⟨.push, 1, ⟨⟨5, 7, 9, 2, 1, 1, some ⟨atypNone, [], 0⟩, [66]⟩, 1⟩⟩

theorem source_address_iff_IPv4 :
    ∃ first c, Leads (Run.exec (step samplePool) new [firstOfTwo]) secondOfTwo
        (.handed ⟨[65, 66], ⟨.v4 ⟨[10, 0, 0, 1], rfl⟩, 53⟩, none⟩) first ∧
      first.packet.addr = some c ∧ (c.Reported ⟨.v4 ⟨[10, 0, 0, 1], rfl⟩, 53⟩ ↔
        ¬ c.LooksLikeIP ∧ (¬ secondOfTwo.packet.packet.fragTotal ≤ 1 → c.IsIP)) := by
  have hfirst : Decoded firstOfTwo.packet.packet :=
    .inl ⟨[5, 2, 0, 7, 0, 9, 2, 0, 0, 1, 1, 10, 0, 0, 1, 0, 53, 65], by decide⟩
  have hsecond : Decoded secondOfTwo.packet.packet :=
    .inl ⟨[5, 2, 0, 7, 0, 9, 2, 1, 0, 1, 255, 66], by decide⟩
  exact source_address_iff samplePool [firstOfTwo] secondOfTwo _
    (forall_mem_cons.mpr ⟨hfirst, forall_mem_singleton.mpr hsecond⟩) rfl

/-- The peer encodes the name `abc`, and 3.97.98.99 is reported. -/
theorem name_reported_as_IP :
    ∃ p, Checked.readPacketFromMessage [5, 2, 0, 7, 0, 9, 1, 0, 0, 1, 0, 3, 97, 98, 99, 0, 53, 65] =
        some (.ok p) ∧ p.addr = some ⟨atypDomainName, [3, 97, 98, 99], 53⟩ ∧
      (new.step samplePool ⟨.push, 1, ⟨p, 0⟩⟩).1 =
        some (.handed ⟨[65], ⟨.v4 ⟨[3, 97, 98, 99], rfl⟩, 53⟩, none⟩) :=
  ⟨_, rfl, rfl, rfl⟩

end PacketConn

end Outbound.Tuic
