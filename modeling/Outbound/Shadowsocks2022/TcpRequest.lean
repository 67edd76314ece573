import Outbound.Shadowsocks.TcpStream
import Outbound.Shadowsocks2022.TcpWrite

/-! What a server decodes from a request stream, and that it gets back the address and the payloads
of the client. -/
namespace Outbound.Shadowsocks2022.Tcp

open Lib Socks5 List Option Aead
open Shadowsocks.Tcp (poolGet closedWrite length_poolGet)

variable (c : Core)

section Decoder

variable (cipher : Aead) (nonce : Bytes) (now : ℕ) (plain stream : Bytes)

def openNext (k : ℕ) (stream : Bytes) : Option (Bytes × Bytes) :=
  if stream.length < k + cipher.overhead then none
  else (cipher.openText nonce (stream.take (k + cipher.overhead))).map fun text =>
    (text, stream.drop (k + cipher.overhead))

/-- The identity headers: the block of each key names the next one. -/
def checkIdentity (c : Core) (salt : Bytes) : List Bytes → Bytes → Option Bytes
  | psk :: next :: psks, stream =>
    if stream.length < blockSize then none
    else if (c.identityCipher psk salt).decrypt (stream.take blockSize) = c.identityText next then
      checkIdentity c salt (next :: psks) (stream.drop blockSize)
    else none
  | _, stream => some stream

/-- Length and payload chunks up to the end of the stream. -/
def decodeChunks (cipher : Aead) : ℕ → Bytes → Bytes → Option Bytes
  | _, _, [] => some []
  | 0, _, _ :: _ => none
  | fuel + 1, nonce, stream =>
    (openNext cipher nonce 2 stream).bind fun length =>
    (openNext cipher (incLE nonce) (beNat length.1) length.2).bind fun payload =>
    (decodeChunks cipher fuel (incLE^[2] nonce) payload.2).map (payload.1 ++ ·)

/-- The variable-length header: address, padding and initial payload. A header with neither padding
nor payload is rejected. -/
def decodeVarHeader : Option (AddressInfo × Bytes) :=
  match readAddrInfo plain with
  | .error _ => none
  | .ok (addr, rest) =>
    let paddingLen := beNat (rest.take 2)
    if rest.length < 2 + paddingLen then none
    else
      let initialPayload := rest.drop (2 + paddingLen)
      if paddingLen = 0 ∧ initialPayload = [] then none else some (addr, initialPayload)

/-- The fixed-length header: the length it announces, if it is of a client stream and of the last or
next 30 seconds. -/
def decodeFixedHeader : Option ℕ :=
  let timestamp := beNat ((plain.drop 1).take 8)
  if plain.head? = some headerTypeClientStream ∧ timestamp ≤ now + 30 ∧ now ≤ timestamp + 30 then
    some (beNat (plain.drop 9))
  else none

def decodeSealed : Option (AddressInfo × Bytes) :=
  (openNext cipher nonce 11 stream).bind fun fixed =>
  (decodeFixedHeader now fixed.1).bind fun varLen =>
  (openNext cipher (incLE nonce) varLen fixed.2).bind fun var =>
  (decodeVarHeader var.1).bind fun header =>
  (decodeChunks cipher var.2.length (incLE^[2] nonce) var.2).map fun payload =>
  (header.1, header.2 ++ payload)

/-- A SIP022 server with the keys of `c` and the clock at `now`: the target of a request stream, and
the bytes for it. -/
def decodeRequest : Option (AddressInfo × Bytes) :=
  if stream.length < c.conf.saltLen then none
  else
    let salt := stream.take c.conf.saltLen
    (checkIdentity c salt c.pskList (stream.drop c.conf.saltLen)).bind fun rest =>
    decodeSealed (c.conf.newCipher (c.sessionKey salt)) (replicate c.conf.nonceLen 0) now rest

theorem openNext_seal {t : Bytes} {k : ℕ} (hk : t.length = k) (rest : Bytes) :
    openNext cipher nonce k (cipher.sealText nonce t ++ rest) = some (t, rest) := by
  have hlen : (cipher.sealText nonce t).length = k + cipher.overhead := by
    rw [cipher.length_seal, hk]
  rw [openNext, if_neg (by rw [length_append]; omega), take_left' hlen,
    drop_left' hlen, cipher.open_seal, map_some]

theorem decodeChunks_sealPairs (ts : List Bytes) (hts : ∀ t ∈ ts, t.length < 2 ^ 16)
    (fuel : ℕ) (nonce : Bytes) (hfuel : ts.length ≤ fuel) :
    decodeChunks cipher fuel nonce (cipher.sealPairs nonce ts) = some ts.flatten := by
  induction ts generalizing fuel nonce with
  | nil => cases fuel <;> rfl
  | cons t ts ih =>
    rw [length_cons] at hfuel
    obtain ⟨fuel, rfl⟩ : ∃ k, fuel = k + 1 := ⟨fuel - 1, by omega⟩
    have htail := ih (fun t' ht' => hts t' (by simp [ht'])) fuel (incLE^[2] nonce) (by omega)
    have hnat : beNat (beBytes 2 t.length) = t.length := beNat_beBytes_of_lt (hts t (by simp))
    obtain ⟨x, xs, hcons⟩ : ∃ x xs, cipher.sealPairs nonce (t :: ts) = x :: xs := by
      apply exists_cons_of_ne_nil
      apply ne_nil_of_length_pos
      rw [sealPairs, length_append, length_sealPair, pairOverhead]
      omega
    rw [hcons, decodeChunks, ← hcons]
    · rw [sealPairs, sealPair, append_assoc,
        openNext_seal cipher nonce (length_beBytes 2 _), bind_some]
      rw [hnat, openNext_seal cipher _ rfl, bind_some, htail, flatten_cons, map_some]
    · simp

end Decoder

def identityHeaders (c : Core) (salt : Bytes) : List Bytes → Bytes
  | psk :: next :: psks =>
    (c.identityCipher psk salt).encrypt (c.identityText next) ++
      identityHeaders c salt (next :: psks)
  | _ => []

variable (salt : Bytes) (psks : List Bytes)

theorem length_identityHeaders :
    (identityHeaders c salt psks).length = (psks.length - 1) * blockSize := by
  induction psks with
  | nil => simp [identityHeaders]
  | cons psk psks ih =>
    cases psks with
    | nil => simp [identityHeaders]
    | cons next psks =>
      rw [identityHeaders, length_append, ih, Block.length_encrypt]
      simp only [length_cons, Nat.add_sub_cancel]
      rw [Nat.succ_mul]
      omega

theorem checkIdentity_identityHeaders (rest : Bytes) :
    checkIdentity c salt psks (identityHeaders c salt psks ++ rest) = some rest := by
  induction psks with
  | nil => rfl
  | cons psk psks ih =>
    cases psks with
    | nil => rfl
    | cons next psks =>
      have hlen := (c.identityCipher psk salt).length_encrypt (c.identityText next)
      have hdecrypt := (c.identityCipher psk salt).decrypt_encrypt (c.identityText next)
        (by rw [Core.identityText, length_take, c.length_sum512]; rfl)
      rw [identityHeaders, append_assoc, checkIdentity,
        if_neg (by rw [length_append, hlen]; omega), take_left' hlen, if_pos hdecrypt,
        drop_left' hlen, ih]

theorem writeIdentityHeaderTo_eq
    (front tail : Bytes) (hroom : (psks.length - 1) * blockSize ≤ tail.length) :
    c.writeIdentityHeaderTo salt psks (front ++ tail) front.length =
      .ok (front ++ identityHeaders c salt psks ++ tail.drop ((psks.length - 1) * blockSize),
        (front ++ identityHeaders c salt psks).length) := by
  induction psks generalizing front tail with
  | nil => simp [Core.writeIdentityHeaderTo, identityHeaders]
  | cons psk psks ih =>
    cases psks with
    | nil => simp [Core.writeIdentityHeaderTo, identityHeaders]
    | cons next psks =>
      set block := (c.identityCipher psk salt).encrypt (c.identityText next) with hblock
      have hlen : block.length = blockSize := (c.identityCipher psk salt).length_encrypt _
      have hkeys : (psk :: next :: psks).length - 1 = ((next :: psks).length - 1) + 1 := by simp
      rw [hkeys, Nat.succ_mul] at hroom
      have hroom' : ((next :: psks).length - 1) * blockSize ≤ (tail.drop blockSize).length := by
        rw [length_drop]
        omega
      have hput : (front ++ tail).take front.length ++ block ++
          (front ++ tail).drop (front.length + blockSize) =
            (front ++ block) ++ tail.drop blockSize := by
        simp
      have hoff : front.length + blockSize = (front ++ block).length := by
        simp [hlen]
      rw [Core.writeIdentityHeaderTo, if_neg (by rw [length_append]; omega)]
      dsimp only
      rw [← hblock, hput, hoff, ih (front ++ block) _ hroom', identityHeaders, ← hblock, hkeys,
        Nat.succ_mul, Nat.add_comm _ blockSize, ← drop_drop, append_assoc front block]

def onWire (addr : AddressInfo) : AddressInfo :=
  if addr.type = addressTypeDomain then { addr with ip := .zero } else { addr with hostname := [] }

variable {addrLen : ℕ} {addr : AddressInfo}

/-- An address that is accepted is written in as many bytes as were computed, and read back. -/
theorem addrInfoBytes_spec (h : addrInfoEncodedLen (some addr) = .ok addrLen) :
    (addrInfoBytes addr).length = addrLen ∧ addrLen ≤ 259 ∧
      ∀ rest, readAddrInfo (addrInfoBytes addr ++ rest) = .ok (onWire addr, rest) := by
  obtain ⟨type, hostname, ip, port⟩ := addr
  unfold addrInfoEncodedLen at h
  dsimp only at h
  split_ifs at h with h4 h6 hdomain hlong
  · subst h4
    cases ip with
    | v4 ip =>
      cases h
      have hip := Octets.ofBytes_append ip []
      rw [append_nil] at hip
      refine ⟨by simp [addrInfoBytes, asSlice, ip.2, addressTypeIPv4, addressTypeDomain],
        by omega, fun rest => ?_⟩
      show readAddrInfo (addressTypeIPv4 :: (ip.1 ++ beBytes 2 port.toNat ++ rest)) = _
      rw [append_assoc, readAddrInfo, if_pos rfl, readIP_append ip.2, hip]
      rfl
    | _ => cases h
  · subst h6
    cases ip with
    | v6 ip =>
      cases h
      have hip := Octets.ofBytes_append ip []
      rw [append_nil] at hip
      refine ⟨by simp [addrInfoBytes, asSlice, ip.2, addressTypeIPv6, addressTypeDomain],
        by omega, fun rest => ?_⟩
      show readAddrInfo (addressTypeIPv6 :: (ip.1 ++ beBytes 2 port.toNat ++ rest)) = _
      rw [append_assoc, readAddrInfo, if_neg h4, if_pos rfl, readIP_append ip.2, hip]
      rfl
    | _ => cases h
  · subst hdomain
    cases h
    refine ⟨by simp [addrInfoBytes]; omega, by omega, fun rest => ?_⟩
    show readAddrInfo (addressTypeDomain :: .ofNat hostname.length ::
      (hostname ++ beBytes 2 port.toNat ++ rest)) = _
    rw [append_assoc, readAddrInfo, if_neg h4, if_neg h6, if_pos rfl, readDomain_append (by omega)]
    rfl

section Sealing

variable {cipher : Aead} {tagLen : ℕ}

theorem chunkMaxLen_pos : 0 < chunkMaxLen := by decide

theorem encryptedPayloadLen_eq (n tagLen : ℕ) :
    encryptedPayloadLen n tagLen = n + chunkCount chunkMaxLen n * (2 + tagLen + tagLen) := by
  rw [encryptedPayloadLen, chunkCount_eq_div chunkMaxLen_pos]
  split_ifs with hzero hmod hmod' hmod'
  · simp [Nat.le_zero.mp hzero]
  · simp [Nat.le_zero.mp hzero] at hmod
  · omega
  · rfl
  · rfl
  · omega

section

variable (htag : cipher.overhead = tagLen)

include htag

theorem length_sealPairs_chunks (nonce payload : Bytes) :
    (cipher.sealPairs nonce (chunks chunkMaxLen payload)).length =
      encryptedPayloadLen payload.length tagLen := by
  simp [cipher.length_sealPairs, chunks, flatten_chunks chunkMaxLen_pos, encryptedPayloadLen_eq, pairOverhead, htag]

theorem sealChunk_sealsChunk (payload : Bytes) :
    cipher.SealsChunk payload (sealChunk cipher tagLen payload) := by
  subst htag
  intro i l front tail nonce used hl hroom
  have hpair : cipher.pairOverhead = 2 + cipher.overhead + cipher.overhead := rfl
  simp only [sealChunk, bind_some]
  rw [cipher.putAt_sealPair nonce front hl hroom, length_append, cipher.length_sealPair, hl, hpair]
  congr 2
  omega

theorem sealPayload_eq (payload nonce : Bytes) {dst : Bytes}
    (hdst : dst.length = encryptedPayloadLen payload.length tagLen) :
    sealPayload cipher tagLen dst payload nonce =
      some ⟨cipher.sealPairs nonce (chunks chunkMaxLen payload), dst.length,
        incLE^[2 * (chunks chunkMaxLen payload).length] nonce,
        counterRun nonce (2 * (chunks chunkMaxLen payload).length)⟩ := by
  apply cutLoop_sealsChunk (sealChunk_sealsChunk htag payload) chunkMaxLen_pos nonce
  rw [hdst, encryptedPayloadLen_eq, pairOverhead, htag]

end

theorem sealAt_front (cipher : Aead) (front tail nonce plain : Bytes)
    (hroom : plain.length + cipher.overhead ≤ tail.length) :
    sealAt cipher (front ++ tail) front.length nonce plain =
      some (front ++ cipher.sealText nonce plain ++ tail.drop (plain.length + cipher.overhead),
        (front ++ cipher.sealText nonce plain).length) := by
  rw [sealAt, putAt_front front _ _ (by rw [cipher.length_seal]; exact hroom), map_some,
    cipher.length_seal, length_append, cipher.length_seal, append_assoc]

end Sealing

/-- The sizes of the first frame: the announced length fits in 16 bits, and there is an initial
payload whenever there is a payload. -/
theorem layout_spec (c : Core) (h : addrLen ≤ 259) (len : ℕ) :
    (layout c addrLen len).firstVarHeaderLen =
        addrLen + 2 + (layout c addrLen len).initialPayloadLen ∧
      (layout c addrLen len).initialPayloadLen ≤ len ∧
      (layout c addrLen len).firstVarHeaderLen < 2 ^ 16 ∧
      (0 < len → 0 < (layout c addrLen len).initialPayloadLen) := by
  have hmax : chunkMaxLen = 65535 := rfl
  unfold layout
  dsimp only
  split_ifs <;> omega

def varText (addr : AddressInfo) (initialPayload : Bytes) : Bytes :=
  addrInfoBytes addr ++ (beBytes 2 0 ++ initialPayload)

theorem length_varText (c : Core)
    (h : addrInfoEncodedLen (some addr) = .ok addrLen) (payload : Bytes) :
    (varText addr (payload.take (layout c addrLen payload.length).initialPayloadLen)).length =
      (layout c addrLen payload.length).firstVarHeaderLen := by
  obtain ⟨hbytes, hle, _⟩ := addrInfoBytes_spec h
  obtain ⟨hvarLen, hinitial, _, _⟩ := layout_spec c hle payload.length
  rw [varText, length_append, length_append, length_beBytes, hbytes, length_take]
  omega

theorem length_fixedHeaderPlain (now : UInt64) (n : ℕ) : (fixedHeaderPlain now n).length = 11 := by
  simp [fixedHeaderPlain]

def requestHead (core : Core) (nonce : Bytes) (addr : AddressInfo) (addrLen : ℕ) (c : Call) :
    Bytes :=
  let salt := poolGet c.random core.conf.saltLen
  let cipher := core.conf.newCipher (core.sessionKey salt)
  let l := layout core addrLen c.payload.length
  salt ++ identityHeaders core salt core.pskList ++
    cipher.sealText nonce (fixedHeaderPlain c.now l.firstVarHeaderLen) ++
    cipher.sealText (incLE nonce) (varText addr (c.payload.take l.initialPayloadLen))

def remainingPayload (core : Core) (addrLen : ℕ) (c : Call) : Bytes :=
  c.payload.drop (layout core addrLen c.payload.length).initialPayloadLen

namespace Writer

theorem overhead_cipher (w : Writer) (key : Bytes) :
    (w.core.conf.newCipher key).overhead = w.core.conf.tagLen :=
  w.core.conf.overhead key

variable {w : Writer} (haddr : w.addr = some addr) (h : addrInfoEncodedLen (some addr) = .ok addrLen)

include haddr h

theorem varHeaderPlain_eq (slice initialPayload : Bytes)
    (hslice : slice.length = addrLen + 2 + initialPayload.length) :
    w.varHeaderPlain slice initialPayload = some (.ok (varText addr initialPayload)) := by
  obtain ⟨hlen, _, _⟩ := addrInfoBytes_spec h
  have hput : putAt slice 0 (addrInfoBytes addr) =
      some (addrInfoBytes addr ++ slice.drop addrLen) := by
    have hfront := putAt_front [] slice (addrInfoBytes addr) (by omega)
    rwa [nil_append, nil_append, hlen] at hfront
  have haddress : writeAddrInfoTo slice w.addr =
      some (.ok (addrInfoBytes addr ++ slice.drop addrLen, addrLen)) := by
    rw [haddr, writeAddrInfoTo, h]
    dsimp only [elim_some]
    rw [if_neg (by omega), hput, map_some]
  have hpadding : putAt (addrInfoBytes addr ++ slice.drop addrLen) addrLen (beBytes 2 0) =
      some ((addrInfoBytes addr ++ beBytes 2 0) ++ (slice.drop (addrLen + 2) ++ [])) := by
    have hfront := putAt_front (addrInfoBytes addr) (slice.drop addrLen) (beBytes 2 0)
      (by rw [length_beBytes, length_drop]; omega)
    rwa [hlen, length_beBytes, drop_drop, ← append_assoc,
      ← append_nil (slice.drop (addrLen + 2))] at hfront
  have hpayload : copyAt ((addrInfoBytes addr ++ beBytes 2 0) ++ (slice.drop (addrLen + 2) ++ []))
      (addrLen + 2) initialPayload = some (varText addr initialPayload) := by
    rw [copyAt_append]
    · simp [varText]
    · simp [hlen, length_beBytes]
    · rw [length_drop]
      omega
  rw [varHeaderPlain, haddress, bind_some]
  dsimp only
  rw [hpadding, bind_some, hpayload, map_some]

theorem sealHeaders_eq (c : Call) {cipher : Aead} (htag : cipher.overhead = w.core.conf.tagLen)
    (front tail : Bytes)
    (htail : tail.length = (11 + w.core.conf.tagLen) +
      ((layout w.core addrLen c.payload.length).firstVarHeaderLen + w.core.conf.tagLen) +
      encryptedPayloadLen (remainingPayload w.core addrLen c).length w.core.conf.tagLen) :
    w.sealHeaders c cipher (layout w.core addrLen c.payload.length) (front ++ tail) front.length =
      some (.ok (.behind cipher (front ++
          cipher.sealText w.nonceWrite (fixedHeaderPlain c.now
            (layout w.core addrLen c.payload.length).firstVarHeaderLen) ++
          cipher.sealText (incLE w.nonceWrite) (varText addr
            (c.payload.take (layout w.core addrLen c.payload.length).initialPayloadLen)))
        (incLE^[2] w.nonceWrite) (chunks chunkMaxLen (remainingPayload w.core addrLen c))
        (front ++ tail).length [w.nonceWrite, incLE w.nonceWrite])) := by
  obtain ⟨_, hle, _⟩ := addrInfoBytes_spec h
  obtain ⟨hvarLen, hinitial, _, _⟩ := layout_spec w.core hle c.payload.length
  set l := layout w.core addrLen c.payload.length with hl
  set fixed := fixedHeaderPlain c.now l.firstVarHeaderLen with hfixed
  set initial := c.payload.take l.initialPayloadLen with hinit
  have hfixedLen : fixed.length = 11 := length_fixedHeaderPlain _ _
  have hinitialLen : initial.length = l.initialPayloadLen := by
    rw [hinit, length_take]
    omega
  have hvarText : (varText addr initial).length = l.firstVarHeaderLen :=
    length_varText w.core h c.payload
  set sealed₁ := cipher.sealText w.nonceWrite fixed with hsealed₁
  set sealed₂ := cipher.sealText (incLE w.nonceWrite) (varText addr initial) with hsealed₂
  have hfixedSeal := sealAt_front cipher front tail w.nonceWrite fixed (by omega)
  rw [hfixedLen, htag, ← hsealed₁] at hfixedSeal
  have hvarSeal := sealAt_front cipher (front ++ sealed₁)
    (tail.drop (11 + w.core.conf.tagLen)) (incLE w.nonceWrite) (varText addr initial)
    (by rw [length_drop]; omega)
  rw [hvarText, htag, ← hsealed₂, drop_drop] at hvarSeal
  have hplain := varHeaderPlain_eq haddr h
    ((((front ++ sealed₁) ++ tail.drop (11 + w.core.conf.tagLen)).drop
      (front ++ sealed₁).length).take l.firstVarHeaderLen) initial (by
    rw [drop_left, length_take, length_drop]
    omega)
  have hrest : (tail.drop (11 + w.core.conf.tagLen +
      (l.firstVarHeaderLen + w.core.conf.tagLen))).length =
        encryptedPayloadLen (remainingPayload w.core addrLen c).length w.core.conf.tagLen := by
    rw [length_drop]
    omega
  have hpayload := sealPayload_eq htag (remainingPayload w.core addrLen c) (incLE^[2] w.nonceWrite)
    hrest
  have htotal : (front ++ sealed₁ ++ sealed₂).length + (tail.drop (11 + w.core.conf.tagLen +
      (l.firstVarHeaderLen + w.core.conf.tagLen))).length = (front ++ tail).length := by
    rw [hrest, length_append, length_append, hsealed₁, hsealed₂, cipher.length_seal,
      cipher.length_seal, hfixedLen, hvarText, htag, length_append]
    omega
  rw [sealHeaders, ← hfixed, hfixedSeal, bind_some]
  rw [← hinit, hplain, bind_some]
  dsimp only
  rw [hvarSeal, bind_some]
  rw [drop_left, take_left]
  change (sealPayload _ _ _ (remainingPayload w.core addrLen c) (incLE^[2] w.nonceWrite)).map _ = _
  rw [hpayload, map_some, htotal]
  rfl

theorem firstFrame_eq (c : Call) :
    w.firstFrame c (poolGet c.random w.core.conf.saltLen) addrLen =
      some (.ok (.behind
        (w.core.conf.newCipher (w.core.sessionKey (poolGet c.random w.core.conf.saltLen)))
        (requestHead w.core w.nonceWrite addr addrLen c) (incLE^[2] w.nonceWrite)
        (chunks chunkMaxLen (remainingPayload w.core addrLen c))
        (layout w.core addrLen c.payload.length).totalSize
        [w.nonceWrite, incLE w.nonceWrite])) := by
  set salt := poolGet c.random w.core.conf.saltLen with hsalt
  have hsaltLen : salt.length = w.core.conf.saltLen := length_poolGet _ _
  have htotal : (layout w.core addrLen c.payload.length).totalSize =
      w.core.conf.saltLen + (w.core.pskList.length - 1) * blockSize + (11 + w.core.conf.tagLen) +
        ((layout w.core addrLen c.payload.length).firstVarHeaderLen + w.core.conf.tagLen) +
        encryptedPayloadLen (remainingPayload w.core addrLen c).length w.core.conf.tagLen := by
    rw [remainingPayload, length_drop]
    rfl
  set total := (layout w.core addrLen c.payload.length).totalSize with htotalDef
  set memory := poolGet c.memory total with hmemory
  have hmemoryLen : memory.length = total := length_poolGet _ _
  have hput : putAt memory 0 salt = some (salt ++ memory.drop salt.length) := by
    have hfront := putAt_front [] memory salt (by omega)
    rwa [nil_append, nil_append] at hfront
  have hidentity := writeIdentityHeaderTo_eq w.core salt w.core.pskList salt
    (memory.drop salt.length) (by rw [length_drop]; omega)
  have hheaders := sealHeaders_eq haddr h c (w.overhead_cipher (w.core.sessionKey salt))
    (salt ++ identityHeaders w.core salt w.core.pskList)
    ((memory.drop salt.length).drop ((w.core.pskList.length - 1) * blockSize))
    (by rw [length_drop, length_drop]; omega)
  have hframe : (salt ++ identityHeaders w.core salt w.core.pskList ++
      (memory.drop salt.length).drop ((w.core.pskList.length - 1) * blockSize)).length = total := by
    rw [length_append, length_append, length_identityHeaders, length_drop, length_drop]
    omega
  rw [hframe] at hheaders
  simp only [firstFrame]
  rwa [← htotalDef, ← hmemory, hput, bind_some, hidentity]

end Writer

end Outbound.Shadowsocks2022.Tcp
