import Outbound.Tuic.Decoders

/-! When a packet survives the encoder and the decoder of datagrams, and on which messages the three
decoders agree. -/
namespace Outbound.Tuic

open Lib List Prod Checked
open Option (bind_some elim_some map_some some_inj)

section Checked

theorem sliceFrom_of_le {l : Bytes} {i : ℕ} (h : i ≤ l.length) : sliceFrom l i = some (l.drop i) :=
  if_pos h

theorem uint16_of_le {b : Bytes} (h : 2 ≤ b.length) : uint16 b = some (.ofNat (beNat (b.take 2))) :=
  if_neg (by omega)

theorem toNat_size (b : Bytes) : (UInt16.ofNat (beNat (b.take 2))).toNat = beNat (b.take 2) := by
  apply UInt16.toNat_ofNat_of_lt
  apply (beNat_lt _).trans_le
  exact Nat.pow_le_pow_right (by decide) (length_take_le 2 _)

variable {msg : Bytes}

theorem checked_readPort {off : ℕ} (h : off + 2 ≤ msg.length) (typ : UInt8) (addr : Bytes) :
    readPort msg typ addr off =
      some (.ok (⟨typ, addr, .ofNat (beNat ((msg.drop off).take 2))⟩, off + 2)) := by
  have hrest : 2 ≤ (msg.drop off).length := by
    rw [length_drop]
    omega
  rw [readPort, sliceFrom_of_le (by omega), bind_some, if_neg (by omega),
    uint16_of_le hrest, map_some]

theorem checked_readIP (typ : UInt8) (rest : Bytes) (addrLen : ℕ) (short : String) :
    readIP (typ :: rest) typ addrLen short =
      some (if rest.length < addrLen + 2 then .error (malformedDatagramf short)
        else .ok (⟨typ, rest.take addrLen, .ofNat (beNat ((rest.drop addrLen).take 2))⟩,
          1 + addrLen + 2)) := by
  rw [readIP, sliceFrom_of_le (by simp), bind_some]
  simp only [drop_succ_cons, drop_zero]
  split_ifs with hshort
  · rfl
  · rw [checked_readPort (by rw [length_cons]; omega), Nat.add_comm 1 addrLen, drop_succ_cons]

theorem checked_readDomain (typ : UInt8) (rest : Bytes) :
    readDomain (typ :: rest) typ = some (match rest with
      | [] => .error (malformedDatagramf "domain length byte missing")
      | len :: rest =>
        if rest.length < len.toNat + 2 then .error (malformedDatagramf "domain address too short")
        else .ok (⟨typ, len :: rest.take len.toNat,
          .ofNat (beNat ((rest.drop len.toNat).take 2))⟩, 1 + (1 + len.toNat) + 2)) := by
  rw [readDomain, sliceFrom_of_le (by simp), bind_some]
  cases rest with
  | nil => rfl
  | cons len rest =>
    have hslice (h : len.toNat ≤ rest.length) :
        sliceBetween (typ :: len :: rest) (1 + 1) (1 + 1 + len.toNat) =
          some (rest.take len.toNat) := by
      rw [sliceBetween, if_pos (by simp only [length_cons]; omega), Nat.add_sub_cancel_left]
      rfl
    simp only [drop_succ_cons, drop_zero, length_cons]
    rw [if_neg (by omega)]
    change (if _ then _ else _) = _
    by_cases hshort : rest.length < len.toNat + 2
    · rw [if_pos (by omega), if_pos hshort]
    · rw [if_neg (by omega), if_neg hshort, hslice (by omega), bind_some,
        checked_readPort (by simp only [length_cons]; omega), UInt8.ofNat_toNat]
      rw [Nat.add_comm 1 (1 + len.toNat), drop_succ_cons, Nat.add_comm 1 len.toNat, drop_succ_cons]

theorem checked_readAddressFromSlice (msg : Bytes) :
    Checked.readAddressFromSlice msg = some (readAddressFromSlice msg) := by
  cases msg with
  | nil => rfl
  | cons typ rest =>
    rw [Checked.readAddressFromSlice, if_neg (by simp)]
    unfold readAddressFromSlice
    simp only [getElem?_cons_zero, bind_some, checked_readIP, checked_readDomain]
    split_ifs <;> rfl

theorem checked_readData {off : ℕ} (h : off ≤ msg.length) (size : ℕ) :
    readData msg off size =
      some (if 0 < size ∧ (msg.drop off).length < size then
          .error (malformedDatagramf s!"data truncated: need {size} have {(msg.drop off).length}")
        else .ok ((msg.drop off).take size)) := by
  rw [readData]
  by_cases hzero : size = 0
  · subst hzero
    rfl
  · rw [if_pos (by omega), sliceFrom_of_le h, bind_some]
    by_cases hshort : (msg.drop off).length < size
    · rw [if_pos hshort, if_pos ⟨by omega, hshort⟩]
    · have hlen := length_drop (i := off) (l := msg)
      rw [if_neg hshort, if_neg fun h => hshort h.2, sliceBetween, if_pos (by omega),
        map_some, Nat.add_sub_cancel_left]

theorem readAddressFromSlice_ok {a : Address} {n : ℕ} (h : readAddressFromSlice msg = .ok (a, n)) :
    n ≤ msg.length ∧ a.WellFormed ∧ a.onWire = a := by
  have hn4 : atypIPv4 ≠ atypNone := by decide
  have hn6 : atypIPv6 ≠ atypNone := by decide
  have hnd : atypDomainName ≠ atypNone := by decide
  cases msg with
  | nil => cases h
  | cons typ rest =>
    unfold readAddressFromSlice at h
    dsimp only at h
    split_ifs at h with h4 hshort h6 hshort hdomain hnone
    · obtain ⟨rfl, rfl⟩ := mk.inj (Except.ok.inj h)
      subst h4
      refine ⟨by rw [length_cons]; omega, .inl (.inl ⟨rfl, ?_⟩), if_neg hn4⟩
      rw [length_take]
      omega
    · obtain ⟨rfl, rfl⟩ := mk.inj (Except.ok.inj h)
      subst h6
      refine ⟨by rw [length_cons]; omega, .inl (.inr ⟨rfl, ?_⟩), if_neg hn6⟩
      rw [length_take]
      omega
    · subst hdomain
      cases rest with
      | nil => cases h
      | cons len rest =>
        dsimp only at h
        split_ifs at h with hshort
        obtain ⟨rfl, rfl⟩ := mk.inj (Except.ok.inj h)
        have htake : (rest.take len.toNat).length = len.toNat := by
          rw [length_take]
          omega
        refine ⟨by simp only [length_cons]; omega,
          .inr (.inl ⟨rfl, rest.take len.toNat, ?_, ?_⟩), if_neg hnd⟩
        · rw [htake]
          exact len.toNat_lt
        · simp [htake]
    · obtain ⟨rfl, rfl⟩ := mk.inj (Except.ok.inj h)
      subst hnone
      exact ⟨by simp, .inr (.inr rfl), rfl⟩

theorem checked_readPacketFromMessage (msg : Bytes) :
    Checked.readPacketFromMessage msg = some (readPacketFromMessage msg) := by
  unfold Checked.readPacketFromMessage readPacketFromMessage
  by_cases hlen : msg.length < fixedLen
  · simp [hlen]
  have hten : 10 ≤ msg.length := Nat.not_lt.mp hlen
  have hindex (i : ℕ) (hi : i < 10) : msg[i]? = some (msg.getD i 0) := by
    rw [getD_eq_getElem?_getD, getElem?_eq_getElem (by omega), Option.getD_some]
  have hfield (i : ℕ) (hi : i + 2 ≤ 10) :
      (sliceFrom msg i).bind uint16 = some (.ofNat (beNat ((msg.drop i).take 2))) := by
    rw [sliceFrom_of_le (by omega), bind_some, uint16_of_le]
    rw [length_drop]
    omega
  rw [if_neg hlen, if_neg hlen, hindex 1 (by omega), bind_some]
  by_cases htype : msg.getD 1 0 ≠ packetType
  · rw [if_pos htype, if_pos htype]
  rw [if_neg htype, if_neg htype, hindex 0 (by omega), bind_some, hfield 2 (by omega),
    bind_some, hfield 4 (by omega), bind_some, hindex 6 (by omega), bind_some,
    hindex 7 (by omega), bind_some, hfield 8 (by omega), bind_some,
    sliceFrom_of_le hten, bind_some, checked_readAddressFromSlice, bind_some]
  cases haddr : readAddressFromSlice (msg.drop 10) with
  | error err => rfl
  | ok res =>
    obtain ⟨hn, _, _⟩ := readAddressFromSlice_ok haddr
    rw [length_drop] at hn
    dsimp only
    rw [checked_readData (by omega), toNat_size, map_some]
    change _ = some (if 0 < beNat ((msg.drop 8).take 2) ∧ _ then _ else _)
    split_ifs <;> rfl

end Checked

theorem Address.fill_eq (c : Address) {b : Bytes} (h : c.bytesLen ≤ b.length) :
    c.fill b = some (c.writeToBytes ++ b.drop c.bytesLen, c.bytesLen) := by
  have hpos := c.one_le_bytesLen
  have htype : putAt b 0 [c.type] = some ([c.type] ++ b.drop 1) := putAt_drop [] b [c.type] rfl
    (by rw [length_singleton]; omega)
  rw [fill, htype, bind_some]
  unfold bytesLen writeToBytes at *
  split_ifs at * with hnone
  · rfl
  · have haddr := copyAt_drop [c.type] b c.addr rfl (by rw [length_singleton]; omega)
    have hport := putAt_drop ([c.type] ++ c.addr) b (beBytes 2 c.port.toNat) rfl
      (by rw [length_append, length_beBytes, length_singleton]; omega)
    have hn : min (([c.type] ++ c.addr ++ b.drop (1 + c.addr.length)).length - 1) c.addr.length =
        c.addr.length := by
      simp only [length_append, length_singleton, length_drop]
      omega
    rw [length_singleton] at haddr
    rw [length_append, length_singleton, length_beBytes] at hport
    rw [haddr, bind_some]
    dsimp only
    rw [hn, hport, map_some, append_assoc [c.type]]
    congr 2
    omega

variable (p : Reader (Packet (Option Address))) (s : Source UInt8) (c : Packet Address)

theorem Packet.fill_eq (c : Packet Address) {b : Bytes} (h : c.bytesLen ≤ b.length) :
    c.fill b = some (c.writeToBytes ++ b.drop c.bytesLen, c.bytesLen) := by
  have hpos := c.addr.one_le_bytesLen
  have hten : 10 + c.addr.bytesLen + c.data.length ≤ b.length := by
    rw [bytesLen] at h
    omega
  have hput (k j : ℕ) (front src : Bytes) (hk : front.length = k) (hj : k + src.length = j)
      (hle : j ≤ 10) : putAt (front ++ b.drop k) k src = some (front ++ src ++ b.drop j) := by
    subst hj
    exact putAt_drop front b src hk (by omega)
  have hver : putAt b 0 [c.ver] = some ([c.ver] ++ b.drop 1) :=
    hput 0 1 [] [c.ver] rfl rfl (by decide)
  set fixed := [c.ver] ++ [packetType] ++ beBytes 2 c.assocID.toNat ++ beBytes 2 c.pktID.toNat ++
    [c.fragTotal] ++ [c.fragID] ++ beBytes 2 c.size.toNat with hfixed
  have hfixedLen : fixed.length = 10 := rfl
  have hdata := copyAt_drop (fixed ++ c.addr.writeToBytes) b c.data rfl
    (by rw [length_append, c.addr.length_writeToBytes]; omega)
  rw [length_append, hfixedLen, c.addr.length_writeToBytes, append_assoc fixed] at hdata
  rw [fill, hver, bind_some, hput 1 2 _ [packetType] rfl rfl (by decide), bind_some,
    hput 2 4 _ (beBytes 2 c.assocID.toNat) rfl rfl (by decide), bind_some,
    hput 4 6 _ (beBytes 2 c.pktID.toNat) rfl rfl (by decide), bind_some,
    hput 6 7 _ [c.fragTotal] rfl rfl (by decide), bind_some,
    hput 7 8 _ [c.fragID] rfl rfl (by decide), bind_some,
    hput 8 10 _ (beBytes 2 c.size.toNat) rfl rfl (by decide), bind_some, ← hfixed,
    sliceFrom_of_le (by rw [length_append]; omega), bind_some,
    drop_left' hfixedLen, c.addr.fill_eq (by rw [length_drop]; omega), bind_some,
    take_left' hfixedLen, drop_drop]
  have hbytes : fixed ++ c.addr.writeToBytes ++ c.data = c.writeToBytes := by
    rfl
  have hn : 10 + c.addr.bytesLen + min (b.length - (10 + c.addr.bytesLen)) c.data.length =
      c.bytesLen := by
    rw [bytesLen]
    omega
  have hlen : (c.writeToBytes ++ b.drop (10 + c.addr.bytesLen + c.data.length)).length =
      b.length := by
    rw [length_append, c.length_writeToBytes, length_drop, bytesLen]
    omega
  simp [hdata, hbytes, hlen, hn, bytesLen]

section Parse

open Reading

def accepted {A : Type} (l : Bytes) : Except Error (A × ℕ) → Option (A × Bytes)
  | .ok (a, n) => some (a, l.drop n)
  | .error _ => none

variable (typ : UInt8) {A : Type} (l : Bytes)

theorem parse_readByte (f : UInt8 → Reader A) :
    (readByte >>= f).parse l =
      if l.length < 1 then some none else (f ((l.take 1).getD 0 0)).parse (l.drop 1) := rfl

theorem parse_readUint16 (f : UInt16 → Reader A) :
    (readUint16 >>= f).parse l =
      if l.length < 2 then some none else (f (.ofNat (beNat (l.take 2)))).parse (l.drop 2) := rfl

theorem parse_readFull (k : ℕ) (l : Bytes) (f : Bytes → Reader A) :
    (readFull k >>= f).parse l =
      if l.length < k then some none else (f (l.take k)).parse (l.drop k) := rfl

theorem parse_addressAndPort (front : Bytes) (n : ℕ) (l : Bytes) :
    (do
      let rest ← readFull (n + 2)
      return ⟨typ, front ++ rest.take n, .ofNat (beNat (rest.drop n))⟩ : Reader Address).parse l =
      some (if l.length < n + 2 then none
        else some (⟨typ, front ++ l.take n, .ofNat (beNat ((l.drop n).take 2))⟩,
          l.drop (n + 2))) := by
  rw [parse_readFull]
  split_ifs
  · rfl
  · rw [parse_pure, take_take, Nat.min_eq_left (by omega), drop_take, Nat.add_sub_cancel_left]

theorem parse_readAddressFromStream :
    readAddressFromStream.parse l = some (accepted l (readAddressFromSlice l)) := by
  cases l with
  | nil => rfl
  | cons typ rest =>
    unfold readAddressFromStream readAddressFromSlice
    rw [parse_readFull, if_neg (by simp)]
    change parse (if typ = atypIPv4 then _ else if typ = atypIPv6 then _ else
      if typ = atypDomainName then _ else if typ = atypNone then _ else _) rest = _
    by_cases h4 : typ = atypIPv4
    · rw [if_pos h4]
      dsimp only
      rw [if_pos h4]
      refine (parse_addressAndPort typ [] 4 rest).trans ?_
      split_ifs <;> rfl
    rw [if_neg h4]
    dsimp only
    rw [if_neg h4]
    by_cases h6 : typ = atypIPv6
    · rw [if_pos h6, if_pos h6]
      refine (parse_addressAndPort typ [] 16 rest).trans ?_
      split_ifs <;> rfl
    rw [if_neg h6, if_neg h6]
    by_cases hd : typ = atypDomainName
    · rw [if_pos hd, if_pos hd]
      cases rest with
      | nil => rfl
      | cons len rest =>
        refine (parse_addressAndPort typ [len] len.toNat rest).trans ?_
        dsimp only
        have hdrop : 1 + (1 + len.toNat) + 2 = len.toNat + 2 + 1 + 1 := by omega
        split_ifs
        · rfl
        · simp [accepted, hdrop]
    rw [if_neg hd, if_neg hd]
    split_ifs <;> rfl

def knownTypes : List UInt8 := [atypDomainName, atypIPv4, atypIPv6, atypNone]

/-- What `ReadAddress` makes of a list: it takes an unknown type for an address without bytes, crashes
on the longest names, and has no address for the type none. -/
def looseAddress : Bytes → Option (Option (Option Address × Bytes))
  | [] => some none
  | typ :: rest =>
    if typ = atypNone then some (some (none, rest))
    else if typ ∉ knownTypes then
      some (if rest.length < 2 then none
        else some (some ⟨typ, [], .ofNat (beNat (rest.take 2))⟩, rest.drop 2))
    else if typ = atypDomainName ∧ rest.head? = some 255 then none
    else some ((accepted (typ :: rest) (readAddressFromSlice (typ :: rest))).map
      fun r => (some r.1, r.2))

theorem parse_addressThenPort (front : Bytes) (n : ℕ) (l : Bytes) :
    (do
      let addr ← readFull n
      let port ← readUint16
      return some ⟨typ, front ++ addr, port⟩ : Reader (Option Address)).parse l =
      some (if l.length < n + 2 then none
        else some (some ⟨typ, front ++ l.take n, .ofNat (beNat ((l.drop n).take 2))⟩,
          l.drop (n + 2))) := by
  rw [parse_readFull]
  by_cases hn : l.length < n
  · rw [if_pos hn, if_pos (by omega)]
  · rw [if_neg hn, parse_readUint16, length_drop]
    by_cases hport : l.length < n + 2
    · rw [if_pos (by omega), if_pos hport]
    · rw [if_neg (by omega), if_neg hport, drop_drop]
      rfl

theorem putAt_nameBuffer {len : UInt8} (h : len ≠ 255) :
    putAt (replicate (len + 1).toNat 0) 0 [len] = some (len :: replicate len.toNat 0) := by
  have hlt : len.toNat < 255 := by
    have hle := len.toNat_lt
    have hne : len.toNat ≠ 255 := fun hn => h (UInt8.toNat_inj.mp hn)
    omega
  have hsize : (len + 1).toNat = len.toNat + 1 := by
    exact Nat.mod_eq_of_lt (by simp; omega)
  rw [hsize, replicate_succ]
  exact putAt_zero (b := [0]) _ [len] rfl

theorem parse_readDomainField (rest : Bytes) :
    (do
      let addrLen ← readByte
      let addr ← checked (putAt (replicate (addrLen + 1).toNat 0) 0 [addrLen])
      let name ← readFull (addr.length - 1)
      let port ← readUint16
      return some ⟨typ, addr.take 1 ++ name, port⟩ : Reader (Option Address)).parse rest =
      match rest with
      | [] => some none
      | len :: rest =>
        if len = 255 then none
        else some (if rest.length < len.toNat + 2 then none
          else some (some ⟨typ, len :: rest.take len.toNat,
            .ofNat (beNat ((rest.drop len.toNat).take 2))⟩, rest.drop (len.toNat + 2))) := by
  cases rest with
  | nil => rfl
  | cons len rest =>
    change parse (checked (putAt (replicate (len + 1).toNat 0) 0 [len]) >>= _) rest = _
    dsimp only
    by_cases hlen : len = 255
    · subst hlen
      rfl
    · rw [if_neg hlen, putAt_nameBuffer hlen, parse_checked_some, length_cons, length_replicate]
      exact parse_addressThenPort typ [len] len.toNat rest

theorem parse_readAddress : readAddress.parse l = looseAddress l := by
  cases l with
  | nil => rfl
  | cons typ rest =>
    change (readAddrField typ >>= fun addr => if typ = atypNone then _ else _).parse rest = _
    rw [looseAddress]
    by_cases hnone : typ = atypNone
    · subst hnone
      rfl
    simp only [if_neg hnone, readAddrField]
    by_cases h4 : typ = atypIPv4
    · subst h4
      refine (parse_addressThenPort atypIPv4 [] 4 rest).trans ?_
      have hknown : ¬ atypIPv4 ∉ knownTypes := by decide
      have hname : ¬ (atypIPv4 = atypDomainName ∧ rest.head? = some 255) :=
        fun h => absurd h.1 (by decide)
      rw [if_neg hknown, if_neg hname]
      unfold readAddressFromSlice
      dsimp only
      rw [if_pos rfl]
      split_ifs <;> rfl
    by_cases h6 : typ = atypIPv6
    · subst h6
      refine (parse_addressThenPort atypIPv6 [] 16 rest).trans ?_
      have hknown : ¬ atypIPv6 ∉ knownTypes := by decide
      have hname : ¬ (atypIPv6 = atypDomainName ∧ rest.head? = some 255) :=
        fun h => absurd h.1 (by decide)
      rw [if_neg hknown, if_neg hname]
      unfold readAddressFromSlice
      dsimp only
      rw [if_neg h4, if_pos rfl]
      split_ifs <;> rfl
    rw [if_neg h4, if_neg h6]
    by_cases hd : typ = atypDomainName
    · subst hd
      simp only [if_true, bind_assoc, pure_bind, true_and]
      refine (parse_readDomainField atypDomainName rest).trans ?_
      have hknown : ¬ atypDomainName ∉ knownTypes := by decide
      cases rest with
      | nil => rfl
      | cons len rest =>
        have hdrop : 1 + (1 + len.toNat) + 2 = len.toNat + 2 + 1 + 1 := by omega
        unfold readAddressFromSlice
        dsimp only [head?_cons]
        rw [if_neg h4, if_neg h6, if_pos rfl, hdrop]
        simp only [Option.some.injEq]
        split_ifs <;> rfl
    · have hunknown : typ ∉ knownTypes := by
        simp [knownTypes, hnone, h4, h6, hd]
      rw [if_neg hd, if_pos hunknown]
      refine (parse_readUint16 rest _).trans ?_
      split_ifs <;> rfl

/-- The packet behind a fixed part, if all of its data is there. -/
def complete (head : Bytes) (r : Option Address × Bytes) : Option (Packet (Option Address)) :=
  let size := beNat ((head.drop 8).take 2)
  if r.2.length < size then none
  else some {
    ver := head.getD 0 0
    assocID := .ofNat (beNat ((head.drop 2).take 2))
    pktID := .ofNat (beNat ((head.drop 4).take 2))
    fragTotal := head.getD 6 0
    fragID := head.getD 7 0
    size := .ofNat size
    addr := r.1
    data := r.2.take size }

theorem readPacketFromMessage_toOption {msg : Bytes} (hlen : fixedLen ≤ msg.length)
    (htype : msg.getD 1 0 = packetType) :
    (readPacketFromMessage msg).toOption =
      (accepted (msg.drop 10) (readAddressFromSlice (msg.drop 10))).bind
        fun r => complete msg (some r.1, r.2) := by
  unfold readPacketFromMessage
  rw [if_neg (by omega), if_neg (by rw [htype]; exact fun h => h rfl)]
  cases haddr : readAddressFromSlice (msg.drop 10) with
  | error err => rfl
  | ok res =>
    obtain ⟨addr, n⟩ := res
    change Except.toOption (if _ ∧ _ then _ else _) = complete msg (some addr, (msg.drop 10).drop n)
    rw [complete, drop_drop]
    by_cases hshort : (msg.drop (10 + n)).length < beNat ((msg.drop 8).take 2)
    · rw [if_pos ⟨by omega, hshort⟩, if_pos hshort]
      rfl
    · rw [if_neg fun h => hshort h.2, if_neg hshort]
      rfl

theorem parse_readStreamData (size : ℕ) (l : Bytes) (f : Bytes → Reader A) :
    (readStreamData size >>= f).parse l =
      if l.length < size then some none else (f (l.take size)).parse (l.drop size) := by
  unfold readStreamData
  by_cases hsize : size > 0
  · rw [if_pos hsize, parse_readFull]
  · have hzero : size = 0 := by omega
    subst hzero
    rfl

theorem readPacketFromMessage_reject {msg : Bytes}
    (h : msg.length < 10 ∨ msg.getD 1 0 ≠ packetType) :
    (readPacketFromMessage msg).toOption = none := by
  unfold readPacketFromMessage
  by_cases hlen : msg.length < fixedLen
  · rw [if_pos hlen]
    rfl
  · rw [if_neg hlen, if_pos (h.resolve_left hlen)]
    rfl

theorem parse_readPacketFromStream (msg : Bytes) :
    (readPacketFromStream.parse msg).map (Option.map fst) =
      some (readPacketFromMessage msg).toOption := by
  have hhead (i : ℕ) (hi : i < 10) : (msg.take 10).getD i 0 = msg.getD i 0 := by
    simp [getD_eq_getElem?_getD, getElem?_take_of_lt hi]
  have hfield (i : ℕ) (hi : i + 2 ≤ 10) : ((msg.take 10).drop i).take 2 = (msg.drop i).take 2 := by
    rw [drop_take, take_take, Nat.min_eq_left (by omega)]
  unfold readPacketFromStream
  rw [parse_readFull]
  by_cases hlen : msg.length < 10
  · simp [hlen, readPacketFromMessage_reject (.inl hlen)]
  rw [if_neg hlen, hhead 1 (by omega)]
  by_cases htype : msg.getD 1 0 = packetType
  · rw [if_neg (by rw [htype]; exact fun h => h rfl),
      readPacketFromMessage_toOption (Nat.not_lt.mp hlen) htype, hhead 0 (by omega),
      hhead 6 (by omega), hhead 7 (by omega), hfield 2 (by omega), hfield 4 (by omega),
      hfield 8 (by omega)]
    rw [parse_bind, parse_readAddressFromStream, bind_some]
    cases accepted (msg.drop 10) (readAddressFromSlice (msg.drop 10)) with
    | none => rfl
    | some r =>
      rw [elim_some, parse_readStreamData, bind_some, complete]
      split_ifs <;> rfl
  · rw [if_pos htype, readPacketFromMessage_reject (.inr htype)]
    rfl

theorem parse_readPacketWithHead (msg : Bytes) :
    ((readCommandHead >>= readPacketWithHead).parse msg).map (Option.map fst) =
      if msg.length < 10 ∨ msg.getD 1 0 ≠ packetType then some none
      else (looseAddress (msg.drop 10)).map fun r => r.bind (complete msg) := by
  have hbyte (i : ℕ) : ((msg.drop i).take 1).getD 0 0 = msg.getD i 0 := by
    simp
  have hver : (msg.take 1).getD 0 0 = msg.getD 0 0 := hbyte 0
  unfold readCommandHead
  simp only [bind_assoc, pure_bind]
  rw [parse_readByte]
  by_cases h₁ : msg.length < 1
  · rw [if_pos h₁, if_pos (.inl (by omega))]
    rfl
  rw [if_neg h₁, parse_readByte, hver, hbyte, length_drop, drop_drop]
  by_cases h₂ : msg.length < 2
  · rw [if_pos (by omega), if_pos (.inl (by omega))]
    rfl
  rw [if_neg (by omega), readPacketWithHead]
  by_cases htype : msg.getD 1 0 = packetType
  · rw [if_neg (by rw [htype]; exact fun h => h rfl)]
    simp only [parse_readUint16, parse_readByte, length_drop, drop_drop, hbyte]
    by_cases hlen : msg.length < 10
    · split_ifs
      all_goals first | rfl | omega
    have hfixed : ¬ (msg.length < 10 ∨ msg.getD 1 0 ≠ packetType) := by
      rintro (h | h)
      · exact hlen h
      · exact h htype
    rw [if_neg (by omega), if_neg (by omega), if_neg (by omega), if_neg (by omega),
      if_neg (by omega), if_neg hfixed, parse_bind, parse_readAddress]
    cases looseAddress (msg.drop 10) with
    | none => rfl
    | some r =>
      cases r with
      | none => rfl
      | some r =>
        rw [bind_some, elim_some, parse_readFull, toNat_size, map_some, bind_some, complete]
        split_ifs <;> rfl
  · rw [if_pos htype, if_pos (.inr htype)]
    rfl

end Parse

/-- An address whose bytes are those of its type, with none and no port for the type none. -/
def Address.Canonical (c : Address) : Prop := c.WellFormed ∧ c.onWire = c

/-- In every buffer with room for it the encoder writes exactly `bytesLen` bytes, and the decoder of
datagrams gets the packet back from them, whatever follows. -/
def RoundTrips : Prop :=
  ∀ b trailing : Bytes, c.bytesLen ≤ b.length →
    ∃ wire, wire.length = c.bytesLen ∧ c.fill b = some (wire ++ b.drop c.bytesLen, c.bytesLen) ∧
      Checked.readPacketFromMessage (wire ++ trailing) = some (.ok c.received)

theorem canonical_of_readPacketFromMessage {msg : Bytes} {p : Packet (Option Address)}
    (h : readPacketFromMessage msg = .ok p) : ∃ a, p.addr = some a ∧ a.Canonical := by
  have hok : (readPacketFromMessage msg).toOption = some p := by
    rw [h]
    rfl
  by_cases hreject : msg.length < 10 ∨ msg.getD 1 0 ≠ packetType
  · rw [readPacketFromMessage_reject hreject] at hok
    cases hok
  rw [not_or, not_not] at hreject
  rw [readPacketFromMessage_toOption (Nat.not_lt.mp hreject.1) hreject.2] at hok
  cases haddr : readAddressFromSlice (msg.drop 10) with
  | error err =>
    rw [haddr] at hok
    cases hok
  | ok res =>
    obtain ⟨a, n⟩ := res
    obtain ⟨_, hwell, hwire⟩ := readAddressFromSlice_ok haddr
    rw [haddr, accepted, bind_some, complete] at hok
    split_ifs at hok
    cases hok
    exact ⟨a, rfl, hwell, hwire⟩

theorem roundTrips_iff (hsize : c.size.toNat = c.data.length) :
    RoundTrips c ↔ c.addr.Canonical := by
  constructor
  · intro h
    obtain ⟨wire, _, _, hread⟩ := h (replicate c.bytesLen 0) [] (by simp)
    rw [checked_readPacketFromMessage] at hread
    obtain ⟨a, haddr, hcanonical⟩ := canonical_of_readPacketFromMessage (Option.some.inj hread)
    rwa [Option.some.inj haddr]
  · rintro ⟨hwell, hwire⟩ b trailing hb
    refine ⟨c.writeToBytes, c.length_writeToBytes, c.fill_eq hb, ?_⟩
    rw [checked_readPacketFromMessage, readPacketFromMessage_writeToBytes c hwell hsize, Packet.onWire,
      hwire]
    rfl

/-- What a decoder decides, errors apart; `none` is a panic. -/
def verdict {A : Type} (r : Option (Except Error A)) : Option (Option A) := r.map Except.toOption

def decode : Option (Except Error (Packet (Option Address))) :=
  (p.run shortRead s).map (Except.map fst)

/-- No decoder panics on the message, however it arrives, and all reject it or all return the same
packet. -/
def DecodersAgree (msg : Bytes) : Prop :=
  ∃ v, verdict (Checked.readPacketFromMessage msg) = some v ∧
    ∀ s : Source UInt8, s.rest = msg →
      verdict (decode readPacketFromStream s) = some v ∧
      verdict (decode (readCommandHead >>= readPacketWithHead) s) = some v

/-- Address fields that `ReadAddress` misreads, before `size` bytes of data: a name of 255 bytes, no
address, and an unknown type, the last two with all the data behind them. -/
def MisreadAddress (size : ℕ) : Bytes → Prop
  | [] => False
  | typ :: rest =>
    (typ = atypDomainName ∧ rest.head? = some 255) ∨ (typ = atypNone ∧ size ≤ rest.length) ∨
      (typ ∉ knownTypes ∧ 2 + size ≤ rest.length)

variable (msg rest : Bytes)

def Misread : Prop :=
  fixedLen ≤ msg.length ∧ msg.getD 1 0 = packetType ∧
    MisreadAddress (beNat ((msg.drop 8).take 2)) (msg.drop 10)

theorem verdict_decode : verdict (decode p s) = (p.parse s.rest).map (Option.map fst) := by
  rw [← Reading.outcome_run shortRead, decode, verdict, Option.map_map, Option.map_map]
  congr 1
  funext r
  rcases r with _ | ⟨_, _⟩ <;> rfl

theorem decodersAgree_iff_parse :
    DecodersAgree msg ↔
      ((readCommandHead >>= readPacketWithHead).parse msg).map (Option.map fst) =
        some (readPacketFromMessage msg).toOption := by
  constructor
  · rintro ⟨v, hmessage, hstreams⟩
    obtain ⟨_, hhead⟩ := hstreams (.ofList msg) (Source.rest_ofList msg)
    rw [verdict_decode, Source.rest_ofList] at hhead
    rw [checked_readPacketFromMessage] at hmessage
    rw [hhead]
    exact hmessage.symm
  · intro h
    refine ⟨(readPacketFromMessage msg).toOption, ?_, ?_⟩
    · rw [checked_readPacketFromMessage]
      rfl
    · rintro s rfl
      rw [verdict_decode, verdict_decode]
      exact ⟨parse_readPacketFromStream s.rest, h⟩

theorem complete_eq_none_iff (r : Option Address × Bytes) :
    complete msg r = none ↔ r.2.length < beNat ((msg.drop 8).take 2) := by
  rw [complete]
  split_ifs with h
  · exact iff_of_true rfl h
  · exact iff_of_false (by simp) h

theorem complete_eq_complete_iff (a : Address) :
    complete msg (none, rest) = complete msg (some a, rest) ↔
      rest.length < beNat ((msg.drop 8).take 2) := by
  rw [complete, complete]
  split_ifs with h
  · exact iff_of_true rfl h
  · exact iff_of_false (by simp) h

theorem accepted_unknown {typ : UInt8} (h : typ ∉ knownTypes) (rest : Bytes) :
    accepted (typ :: rest) (readAddressFromSlice (typ :: rest)) = none := by
  simp only [knownTypes, mem_cons, not_mem_nil, or_false, not_or] at h
  obtain ⟨hd, h4, h6, hnone⟩ := h
  unfold readAddressFromSlice
  dsimp only
  rw [if_neg h4, if_neg h6, if_neg hd, if_neg hnone]
  rfl

/-- With the same fixed part, the two address decoders lead to the same packet unless the address is
misread. -/
theorem looseAddress_complete_iff :
    (looseAddress rest).map (fun r => r.bind (complete msg)) =
        some ((accepted rest (readAddressFromSlice rest)).bind fun r => complete msg (some r.1, r.2)) ↔
      ¬ MisreadAddress (beNat ((msg.drop 8).take 2)) rest := by
  cases rest with
  | nil => exact ⟨fun _ h => h, fun _ => rfl⟩
  | cons typ rest =>
    rw [looseAddress, MisreadAddress]
    by_cases hnone : typ = atypNone
    · subst hnone
      have hslice : readAddressFromSlice (atypNone :: rest) = .ok (⟨atypNone, [], 0⟩, 1) := rfl
      have hdomain : atypNone ≠ atypDomainName := by decide
      have hknown : atypNone ∈ knownTypes := by decide
      rw [if_pos rfl, hslice, map_some, accepted, bind_some, bind_some,
        some_inj, drop_succ_cons, drop_zero, complete_eq_complete_iff, ← Nat.not_le]
      tauto
    by_cases hknown : typ ∈ knownTypes
    · rw [if_neg hnone, if_neg (not_not.mpr hknown)]
      by_cases hname : typ = atypDomainName ∧ rest.head? = some 255
      · rw [if_pos hname]
        tauto
      · rw [if_neg hname, map_some, some_inj]
        have hsame : ((accepted (typ :: rest) (readAddressFromSlice (typ :: rest))).map
            fun r => (some r.1, r.2)).bind (complete msg) =
          (accepted (typ :: rest) (readAddressFromSlice (typ :: rest))).bind
            fun r => complete msg (some r.1, r.2) := by
          simp [Option.bind_map]
        tauto
    · have hslice : accepted (typ :: rest) (readAddressFromSlice (typ :: rest)) = none :=
        accepted_unknown hknown rest
      have hdomain : typ ≠ atypDomainName := fun h => hknown (by rw [h]; decide)
      rw [if_neg hnone, if_pos hknown, hslice, map_some, some_inj, Option.bind_none]
      have hshort : (if rest.length < 2 then none
          else some (some ⟨typ, [], .ofNat (beNat (rest.take 2))⟩, rest.drop 2)).bind
            (complete msg) = none ↔ ¬ 2 + beNat ((msg.drop 8).take 2) ≤ rest.length := by
        split_ifs with htwo
        · refine ⟨fun _ => by omega, fun _ => rfl⟩
        · rw [bind_some, complete_eq_none_iff, length_drop]
          omega
      rw [hshort]
      tauto

theorem decodersAgree_iff : DecodersAgree msg ↔ ¬ Misread msg := by
  rw [decodersAgree_iff_parse, parse_readPacketWithHead]
  by_cases hreject : msg.length < 10 ∨ msg.getD 1 0 ≠ packetType
  · rw [if_pos hreject, readPacketFromMessage_reject hreject]
    refine ⟨fun _ h => ?_, fun _ => rfl⟩
    rcases hreject with hlen | htype
    · exact absurd h.1 (Nat.not_le.mpr hlen)
    · exact htype h.2.1
  · rw [if_neg hreject]
    rw [not_or, not_not] at hreject
    have hlen : fixedLen ≤ msg.length := Nat.not_lt.mp hreject.1
    rw [readPacketFromMessage_toOption hlen hreject.2, looseAddress_complete_iff]
    exact not_congr ⟨fun h => ⟨hlen, hreject.2, h⟩, fun h => h.2.2⟩

/-- A packet with data of its size survives encoder and decoder, and the three decoders agree on a
message, just when the address of the packet is canonical and that of the message is not misread. -/
theorem packet_codec_iff (hsize : c.size.toNat = c.data.length) (msg : Bytes) :
    RoundTrips c ∧ DecodersAgree msg ↔ c.addr.Canonical ∧ ¬ Misread msg := by
  rw [roundTrips_iff c hsize, decodersAgree_iff]

def secondFragment : Packet Address := ⟨5, 7, 9, 2, 1, 1, ⟨atypNone, [], 0⟩, [65]⟩

theorem packet_codec_iff_sample :
    secondFragment.size.toNat = secondFragment.data.length ∧ RoundTrips secondFragment ∧
      DecodersAgree [5, 2, 0, 7, 0, 9, 1, 0, 0, 1, 1, 10, 0, 0, 1, 0, 53, 65] := by
  refine ⟨rfl, (packet_codec_iff secondFragment rfl _).mpr ⟨⟨.inr (.inr rfl), rfl⟩, ?_⟩⟩
  rintro ⟨_, _, ⟨h, _⟩ | ⟨h, _⟩ | ⟨h, _⟩⟩
  · cases h
  · cases h
  · exact absurd h (by decide)

/-- On a message with a name of 255 bytes the decoder behind the head panics, a message of an unknown
address type it accepts, and from a fragment without address it makes a packet with the nil address. -/
theorem readPacketWithHead_misreads :
    decode (readCommandHead >>= readPacketWithHead)
        (.ofList [5, 2, 0, 7, 0, 9, 1, 0, 0, 0, 0, 255]) = none ∧
      verdict (Checked.readPacketFromMessage [5, 2, 0, 7, 0, 9, 1, 0, 0, 0, 9, 0, 53]) = some none ∧
      verdict (decode (readCommandHead >>= readPacketWithHead)
        (.ofList [5, 2, 0, 7, 0, 9, 1, 0, 0, 0, 9, 0, 53])) =
          some (some ⟨5, 7, 9, 1, 0, 0, some ⟨9, [], 53⟩, []⟩) ∧
      verdict (Checked.readPacketFromMessage secondFragment.writeToBytes) =
        some (some ⟨5, 7, 9, 2, 1, 1, some ⟨atypNone, [], 0⟩, [65]⟩) ∧
      verdict (decode (readCommandHead >>= readPacketWithHead)
        (.ofList secondFragment.writeToBytes)) =
          some (some ⟨5, 7, 9, 2, 1, 1, none, [65]⟩) := by
  refine ⟨?_, ?_, ?_, ?_, ?_⟩
  · rfl
  · rfl
  · rfl
  · rfl
  · rfl

end Outbound.Tuic
