import Mathlib.Data.List.Forall2
import Mathlib.Tactic.SplitIfs
import Fdgw.Clamp
import Fdgw.Fcs
import Fdgw.Runs

/-!
The asynchronous side of `src/gnu/rp-pppoe/src/pppoe.c` and `ppp.c`: session
packets become frames for PPP, and the bytes PPP writes become session packets
again, whatever chunks they are read in.
-/
namespace Fdgw.Framing
open Checksum Clamp Fcs Pppoe Runs

/-! ## The code -/

def frameEsc : Byte := 0x7D
def frameFlag : Byte := 0x7E
def frameAddr : Byte := 0xFF
def frameCtrl : Byte := 0x03
def frameEnc : Byte := 0x20

/-- What `asyncReadFromEth` writes in front of a byte it must not send as it is. -/
def special (c : Byte) : Bool := c = frameFlag || c = frameAddr || c = frameEsc || c.toNat < 0x20

def encode (special : Byte → Bool) (c : Byte) : List Byte :=
  if special c then [frameEsc, c ^^^ frameEnc] else [c]

/-- The frame check sequence, low byte first. -/
def tail (payload : List Byte) : List Byte :=
  let fcs := pppFCS16 (pppFCS16 pppInitFcs16 [frameAddr, frameCtrl]) payload ^^^ 0xffff
  [fcs.setWidth 8, (fcs >>> 8).setWidth 8]

def buildFrame (special : Byte → Bool) (payload : List Byte) : List Byte :=
  [frameFlag, frameAddr, frameEsc, frameCtrl ^^^ frameEnc] ++
    ((payload ++ tail payload).flatMap (encode special) ++ [frameFlag])

/-- The part of `conn` that the session uses. -/
structure Connection where
  myEth : Mac
  peerEth : Mac
  session : SessionNumber
  deriving DecidableEq, Repr

/-- The payload of a received packet; what lies behind it is unknown. -/
def memoryOf (payload : List Byte) (behind : Memory) : Memory := fun a => payload.getD a (behind a)

/-- The first bytes of a memory. -/
def contents (m : Memory) (count : Nat) : List Byte := (List.range count).map m

/-- Clamping is off for the value 0. -/
def clamped (clampMss : Nat) (m : Memory) (length : Nat) : Memory :=
  if clampMss ≠ 0 then clampMSS m length clampMss else m

/-- The bytes written to PPP for a packet of `len` bytes, if it is one of the session. -/
def asyncReadFromEth (conn : Connection) (clampMss : Nat) (behind : Memory) (packet : Packet) (len : Nat) :
    Option (List Byte) :=
  if packet.length + hdrSize > len then none
  else if packet.code ≠ codeSess then none
  else if packet.ver ≠ 1 then none
  else if packet.type ≠ 1 then none
  else if packet.source ≠ conn.peerEth then none
  else if packet.session ≠ conn.session then none
  else
    let m := clamped clampMss (memoryOf packet.payload behind) packet.length
    some (buildFrame special (contents m packet.length))

inductive PPPState where
  | waitforFrameAddr
  | dropProto
  | buildingPacket
  deriving DecidableEq, Repr

/-- The globals of the state machine, the payload it fills and the packets sent. -/
structure Reader where
  state : PPPState
  packetSize : Nat
  xorValue : Byte
  payload : Memory
  sent : List Packet

def initPPP (payload : Memory) : Reader where
  state := .waitforFrameAddr
  packetSize := 0
  xorValue := 0#8
  payload := payload
  sent := []

/-- The fields that `session` fills in, with the payload. -/
def sessionPacket (conn : Connection) (payload : List Byte) : Packet where
  dest := conn.peerEth
  source := conn.myEth
  ver := 1
  type := 1
  code := codeSess
  session := conn.session
  length := payload.length
  payload := payload

section Reading

variable (conn : Connection) (optClampMSS : Nat)

def sendSessionPacket (s : Reader) (len : Nat) : Reader :=
  let payload := clamped optClampMSS s.payload len
  { s with payload := payload, sent := s.sent ++ [sessionPacket conn (contents payload len)] }

/-- A frame was sent or given up. -/
def Reader.reset (s : Reader) : Reader :=
  { s with packetSize := 0, xorValue := 0#8, state := .waitforFrameAddr }

def buildPacket (s : Reader) (c : Byte) : Except String Reader :=
  if c = frameEsc then .ok { s with xorValue := frameEnc }
  else if c = frameFlag then
    if s.packetSize < 2 then .error "Packet too short from PPP (asyncReadFromPPP)"
    -- The check sequence is not sent on.
    else .ok (sendSessionPacket conn optClampMSS s (s.packetSize - 2)).reset
  else if s.packetSize ≥ ethDataLen - 4 then .ok s.reset
  else
    .ok { s with
      payload := Function.update s.payload s.packetSize (c ^^^ s.xorValue)
      packetSize := s.packetSize + 1
      xorValue := 0#8 }

/-- One byte, which the loop of the present state takes. -/
def readByte (s : Reader) (c : Byte) : Except String Reader :=
  match s.state with
  | .waitforFrameAddr => .ok (if c = frameAddr then { s with state := .dropProto } else s)
  | .dropProto => .ok (if c = frameCtrl ^^^ frameEnc then { s with state := .buildingPacket } else s)
  | .buildingPacket => buildPacket conn optClampMSS s c

/-- One call, with the bytes its `read` returned. -/
def asyncReadFromPPP (s : Reader) (buf : List Byte) : Except String Reader :=
  if buf = [] then .error "end-of-file in asyncReadFromPPP" else buf.foldlM (readByte conn optClampMSS) s

end Reading

/-! ## The check sequence -/

section Chunks

variable {conn : Connection} {optClampMSS : Nat} {s : Reader}

/-- The chunks of a stream do not matter. -/
theorem asyncReadFromPPP_flatten (chunks : List (List Byte)) (some : ∀ chunk ∈ chunks, chunk ≠ []) :
    chunks.foldlM (asyncReadFromPPP conn optClampMSS) s = chunks.flatten.foldlM (readByte conn optClampMSS) s := by
  induction chunks generalizing s with
  | nil => rfl
  | cons chunk chunks ih =>
    rw [List.foldlM_cons, List.flatten_cons, List.foldlM_append, asyncReadFromPPP,
      if_neg (some chunk List.mem_cons_self)]
    congr 1
    funext t
    exact ih fun other member => some other (List.mem_cons_of_mem _ member)

/-- Between two frames. -/
structure Idle (s : Reader) : Prop where
  state : s.state = .waitforFrameAddr
  packetSize : s.packetSize = 0
  xorValue : s.xorValue = 0#8

theorem read_gap {gap : List Byte} (idle : Idle s) (free : frameAddr ∉ gap) :
    gap.foldlM (readByte conn optClampMSS) s = .ok s := by
  induction gap with
  | nil => rfl
  | cons c gap ih =>
    have other : c ≠ frameAddr := fun same => free (same ▸ List.mem_cons_self)
    have stay : readByte conn optClampMSS s c = .ok s := by rw [readByte, idle.state, if_neg other]
    rw [foldlM_ok_cons stay]
    exact ih fun member => free (List.mem_cons_of_mem _ member)

/-- A sender may escape as it likes, as long as no flag or escape stands for data. -/
structure Transparent (special : Byte → Bool) : Prop where
  escaped : ∀ c, special c = true → c ^^^ frameEnc ≠ frameEsc ∧ c ^^^ frameEnc ≠ frameFlag
  bare : ∀ c, special c = false → c ≠ frameEsc ∧ c ≠ frameFlag

/-- The bytes stored from an address on. -/
def store (m : Memory) (a : Nat) : List Byte → Memory
  | [] => m
  | c :: bytes => store (Function.update m a c) (a + 1) bytes

theorem readByte_building {c : Byte} (building : s.state = .buildingPacket) :
    readByte conn optClampMSS s c = buildPacket conn optClampMSS s c := by
  rw [readByte, building]

theorem read_escape (building : s.state = .buildingPacket) :
    readByte conn optClampMSS s frameEsc = .ok { s with xorValue := frameEnc } := by
  rw [readByte_building building, buildPacket, if_pos rfl]

theorem read_data {c : Byte} (building : s.state = .buildingPacket) (room : s.packetSize < ethDataLen - 4)
    (notEsc : c ≠ frameEsc) (notFlag : c ≠ frameFlag) :
    readByte conn optClampMSS s c =
      .ok { s with
        payload := Function.update s.payload s.packetSize (c ^^^ s.xorValue)
        packetSize := s.packetSize + 1
        xorValue := 0#8 } := by
  rw [readByte_building building, buildPacket, if_neg notEsc, if_neg notFlag, if_neg (Nat.not_le.mpr room)]

theorem read_encoded {special : Byte → Bool} {c : Byte} (transparent : Transparent special)
    (building : s.state = .buildingPacket) (plain : s.xorValue = 0#8) (room : s.packetSize < ethDataLen - 4) :
    (encode special c).foldlM (readByte conn optClampMSS) s =
      .ok { s with payload := Function.update s.payload s.packetSize c, packetSize := s.packetSize + 1 } := by
  rw [encode]
  split
  · next yes =>
    obtain ⟨notEsc, notFlag⟩ := transparent.escaped c yes
    rw [foldlM_ok_cons (read_escape building),
      foldlM_ok_cons (read_data (s := { s with xorValue := frameEnc }) building room notEsc notFlag),
      BitVec.xor_assoc, BitVec.xor_self, BitVec.xor_zero, plain]
    rfl
  · next no =>
    obtain ⟨notEsc, notFlag⟩ := transparent.bare c (Bool.eq_false_iff.mpr no)
    rw [foldlM_ok_cons (read_data building room notEsc notFlag), plain, BitVec.xor_zero]
    rfl

theorem read_bytes {special : Byte → Bool} {bytes : List Byte} (transparent : Transparent special)
    (building : s.state = .buildingPacket) (plain : s.xorValue = 0#8)
    (room : s.packetSize + bytes.length ≤ ethDataLen - 4) :
    (bytes.flatMap (encode special)).foldlM (readByte conn optClampMSS) s =
      .ok { s with
        payload := store s.payload s.packetSize bytes
        packetSize := s.packetSize + bytes.length } := by
  induction bytes generalizing s with
  | nil => rfl
  | cons c bytes ih =>
    rw [List.length_cons] at room
    have next : s.packetSize + 1 + bytes.length = s.packetSize + (bytes.length + 1) := by omega
    rw [List.flatMap_cons, foldlM_ok_append (read_encoded transparent building plain (by omega)), ih]
    · rw [next]
      rfl
    · exact building
    · exact plain
    · exact next ▸ room

theorem store_before {m : Memory} {a b : Nat} {bytes : List Byte} (before : b < a) : store m a bytes b = m b := by
  induction bytes generalizing m a with
  | nil => rfl
  | cons c bytes ih => rw [store, ih (by omega), Function.update_of_ne (by omega)]

theorem contents_store (m : Memory) (bytes rest : List Byte) (a : Nat) :
    (List.range' a bytes.length).map (store m a (bytes ++ rest)) = bytes := by
  induction bytes generalizing m a with
  | nil => rfl
  | cons c bytes ih =>
    rw [List.length_cons, List.range'_succ, List.map_cons, List.cons_append, store, ih,
      store_before (by omega), Function.update_self]

/-- What a payload becomes in a session packet: itself, or clamped. -/
def Delivered (clampMss : Nat) (payload data : List Byte) : Prop :=
  ∃ m, contents m payload.length = payload ∧ data = contents (clamped clampMss m payload.length) payload.length

/-- The flag is skipped, and so is the escape before the control byte. -/
theorem read_head (idle : Idle s) :
    [frameFlag, frameAddr, frameEsc, frameCtrl ^^^ frameEnc].foldlM (readByte conn optClampMSS) s =
      .ok { s with state := .buildingPacket } := by
  have flag : readByte conn optClampMSS s frameFlag = .ok s := by
    rw [readByte, idle.state, if_neg (by decide)]
  have address : readByte conn optClampMSS s frameAddr = .ok { s with state := .dropProto } := by
    rw [readByte, idle.state, if_pos rfl]
  rw [foldlM_ok_cons flag, foldlM_ok_cons address]
  rfl

theorem read_frame (conn : Connection) (optClampMSS : Nat) {special : Byte → Bool} {payload : List Byte}
    (transparent : Transparent special) (idle : Idle s) (fits : payload.length ≤ maxPppoePayload) :
    ∃ t data, (buildFrame special payload).foldlM (readByte conn optClampMSS) s = .ok t ∧ Idle t ∧
      t.sent = s.sent ++ [sessionPacket conn data] ∧ Delivered optClampMSS payload data := by
  have size : s.packetSize + (payload ++ tail payload).length = payload.length + 2 := by
    rw [idle.packetSize, List.length_append, Nat.zero_add]
    rfl
  have room : s.packetSize + (payload ++ tail payload).length ≤ ethDataLen - 4 := by
    rw [size]
    unfold maxPppoePayload ethDataLen at *
    omega
  have stored : contents (store s.payload s.packetSize (payload ++ tail payload)) payload.length = payload := by
    rw [contents, List.range_eq_range', idle.packetSize, contents_store]
  let full : Reader :=
    { s with
      state := .buildingPacket
      payload := store s.payload s.packetSize (payload ++ tail payload)
      packetSize := payload.length + 2 }
  have last : readByte conn optClampMSS full frameFlag =
      .ok (sendSessionPacket conn optClampMSS full payload.length).reset := by
    rw [readByte_building rfl, buildPacket, if_neg (by decide), if_pos rfl, if_neg (by simp [full])]
    rfl
  refine ⟨(sendSessionPacket conn optClampMSS full payload.length).reset,
    contents (clamped optClampMSS full.payload payload.length) payload.length, ?_, ⟨rfl, rfl, rfl⟩, rfl,
    full.payload, stored, rfl⟩
  rw [buildFrame, foldlM_ok_append (read_head idle),
    foldlM_ok_append (read_bytes transparent (s := { s with state := .buildingPacket }) rfl idle.xorValue room),
    size, foldlM_ok_cons last]
  rfl

/-- What PPP writes: frames, with anything but an address byte in between. -/
def stream (special : Byte → Bool) (frames : List (List Byte × List Byte)) : List Byte :=
  frames.flatMap fun frame => frame.1 ++ buildFrame special frame.2

/-- A byte too many: the frame is given up. -/
theorem read_overflow (conn : Connection) (optClampMSS : Nat) {special : Byte → Bool} (c : Byte)
    (transparent : Transparent special)
    (building : s.state = .buildingPacket) (full : s.packetSize ≥ ethDataLen - 4) :
    ∃ t, (encode special c).foldlM (readByte conn optClampMSS) s = .ok t ∧ Idle t ∧ t.sent = s.sent := by
  rw [encode]
  split
  · next yes =>
    obtain ⟨notEsc, notFlag⟩ := transparent.escaped c yes
    refine ⟨({ s with xorValue := frameEnc } : Reader).reset, ?_, ⟨rfl, rfl, rfl⟩, rfl⟩
    rw [foldlM_ok_cons (read_escape building), List.foldlM_cons,
      readByte_building (s := { s with xorValue := frameEnc }) building, buildPacket, if_neg notEsc, if_neg notFlag, if_pos full]
    rfl
  · next no =>
    obtain ⟨notEsc, notFlag⟩ := transparent.bare c (Bool.eq_false_iff.mpr no)
    refine ⟨s.reset, ?_, ⟨rfl, rfl, rfl⟩, rfl⟩
    rw [List.foldlM_cons, readByte_building building, buildPacket, if_neg notEsc, if_neg notFlag, if_pos full]
    rfl

/-- A sender that escapes the address byte too. -/
def Quiet (special : Byte → Bool) : Prop := ∀ c, frameAddr ∉ encode special c

/-- A frame too big for a packet is lost, and nothing else. -/
theorem read_big (conn : Connection) (optClampMSS : Nat) {special : Byte → Bool} {payload : List Byte}
    (transparent : Transparent special) (quiet : Quiet special) (idle : Idle s)
    (big : maxPppoePayload < payload.length) :
    ∃ t, (buildFrame special payload).foldlM (readByte conn optClampMSS) s = .ok t ∧ Idle t ∧ t.sent = s.sent := by
  have long : ethDataLen - 4 < (payload ++ tail payload).length := by
    rw [List.length_append]
    change ethDataLen - 4 < payload.length + 2
    unfold maxPppoePayload ethDataLen at *
    omega
  obtain ⟨front, c, rest, split, length⟩ : ∃ front c rest,
      payload ++ tail payload = front ++ c :: rest ∧ front.length = ethDataLen - 4 := by
    have cut := List.take_append_drop (ethDataLen - 4) (payload ++ tail payload)
    rw [List.drop_eq_getElem_cons long] at cut
    exact ⟨_, _, _, cut.symm, List.length_take_of_le (Nat.le_of_lt long)⟩
  have size : s.packetSize + front.length = ethDataLen - 4 := by
    rw [idle.packetSize, length, Nat.zero_add]
  let full : Reader :=
    { s with
      state := .buildingPacket
      payload := store s.payload s.packetSize front
      packetSize := s.packetSize + front.length }
  obtain ⟨t, given, between, sent⟩ := read_overflow conn optClampMSS (s := full) c transparent rfl
    (Nat.le_of_eq size.symm)
  have free : frameAddr ∉ rest.flatMap (encode special) ++ [frameFlag] := by
    intro member
    rcases List.mem_append.mp member with inside | last
    · obtain ⟨d, -, found⟩ := List.mem_flatMap.mp inside
      exact quiet d found
    · exact absurd last (by decide)
  refine ⟨t, ?_, between, sent⟩
  rw [buildFrame, foldlM_ok_append (read_head idle), split, List.flatMap_append, List.flatMap_cons, List.append_assoc,
    foldlM_ok_append (read_bytes transparent (s := { s with state := .buildingPacket }) rfl idle.xorValue
      (Nat.le_of_eq size)), List.append_assoc, foldlM_ok_append given, read_gap between free]

/-- One frame with what stands before it: a packet, or nothing if it is too big. -/
theorem read_next (conn : Connection) (optClampMSS : Nat) {special : Byte → Bool} {gap payload : List Byte}
    (transparent : Transparent special) (idle : Idle s) (free : frameAddr ∉ gap)
    (fits : Quiet special ∨ payload.length ≤ maxPppoePayload) :
    ∃ t packets, (gap ++ buildFrame special payload).foldlM (readByte conn optClampMSS) s = .ok t ∧ Idle t ∧
      t.sent = s.sent ++ packets.map (sessionPacket conn) ∧
      List.Forall₂ (Delivered optClampMSS)
        ([payload].filter fun payload => payload.length ≤ maxPppoePayload) packets := by
  rw [foldlM_ok_append (read_gap idle free)]
  by_cases small : payload.length ≤ maxPppoePayload
  · obtain ⟨t, data, read, between, sent, delivered⟩ := read_frame conn optClampMSS transparent idle small
    refine ⟨t, [data], read, between, sent, ?_⟩
    rw [List.filter_cons_of_pos (by simpa using small)]
    exact .cons delivered .nil
  · obtain ⟨t, read, between, sent⟩ :=
      read_big conn optClampMSS transparent (fits.resolve_right small) idle (Nat.not_le.mp small)
    refine ⟨t, [], read, between, sent.trans (List.append_nil _).symm, ?_⟩
    rw [List.filter_cons_of_neg (by simpa using small)]
    exact .nil

theorem read_stream (conn : Connection) (optClampMSS : Nat) {special : Byte → Bool}
    {frames : List (List Byte × List Byte)} (transparent : Transparent special) (idle : Idle s)
    (gaps : ∀ frame ∈ frames, frameAddr ∉ frame.1)
    (fits : Quiet special ∨ ∀ frame ∈ frames, frame.2.length ≤ maxPppoePayload) :
    ∃ t packets, (stream special frames).foldlM (readByte conn optClampMSS) s = .ok t ∧ Idle t ∧
      t.sent = s.sent ++ packets.map (sessionPacket conn) ∧
      List.Forall₂ (Delivered optClampMSS)
        ((frames.map Prod.snd).filter fun payload => payload.length ≤ maxPppoePayload) packets := by
  induction frames generalizing s with
  | nil => exact ⟨s, [], rfl, idle, (List.append_nil _).symm, .nil⟩
  | cons frame frames ih =>
    obtain ⟨t, now, read, between, sent, delivered⟩ := read_next conn optClampMSS transparent idle
      (gaps frame List.mem_cons_self) (fits.imp_right fun all => all frame List.mem_cons_self)
    obtain ⟨u, later, rest, after, added, all⟩ := ih between
      (fun other member => gaps other (List.mem_cons_of_mem _ member))
      (fits.imp_right fun all other member => all other (List.mem_cons_of_mem _ member))
    refine ⟨u, now ++ later, ?_, after, ?_, ?_⟩
    · rw [stream, List.flatMap_cons, foldlM_ok_append read]
      exact rest
    · rw [added, sent, List.append_assoc, List.map_append]
    · rw [List.map_cons, ← List.singleton_append, List.filter_append]
      exact List.rel_append delivered all

end Chunks

/-! ## Buffers -/

section Buffers

variable {conn : Connection} {optClampMSS : Nat} {payload : Memory} {s t : Reader}

theorem clamped_outside {clampMss length a : Nat} {m : Memory} (far : 125 ≤ a) : clamped clampMss m length a = m a := by
  unfold clamped
  split
  · exact clampMSS_outside far
  · rfl

/-- The reader stays inside its buffer, and what it sends fits in an Ethernet frame. -/
structure Bounded (conn : Connection) (payload : Memory) (s : Reader) : Prop where
  size : s.packetSize ≤ ethDataLen - 4
  outside : ∀ a, ethDataLen - 4 ≤ a → s.payload a = payload a
  sent : ∀ packet ∈ s.sent, ∃ data, packet = sessionPacket conn data ∧ data.length ≤ maxPppoePayload

theorem Bounded.reset (bounded : Bounded conn payload s) : Bounded conn payload s.reset :=
  ⟨Nat.zero_le _, bounded.outside, bounded.sent⟩

theorem Bounded.send (bounded : Bounded conn payload s) :
    Bounded conn payload (sendSessionPacket conn optClampMSS s (s.packetSize - 2)) := by
  refine ⟨bounded.size, fun a behind => ?_, fun packet member => ?_⟩
  · have far : 125 ≤ a := Nat.le_trans (by decide) behind
    exact (clamped_outside far).trans (bounded.outside a behind)
  · rcases List.mem_append.mp member with earlier | last
    · exact bounded.sent packet earlier
    · have room := bounded.size
      refine ⟨_, List.mem_singleton.mp last, ?_⟩
      rw [contents, List.length_map, List.length_range]
      unfold maxPppoePayload ethDataLen at *
      omega

theorem Bounded.readByte {c : Byte} (bounded : Bounded conn payload s)
    (read : readByte conn optClampMSS s c = .ok t) : Bounded conn payload t := by
  unfold Framing.readByte at read
  split at read
  · cases read
    split
    · exact ⟨bounded.size, bounded.outside, bounded.sent⟩
    · exact bounded
  · cases read
    split
    · exact ⟨bounded.size, bounded.outside, bounded.sent⟩
    · exact bounded
  · unfold buildPacket at read
    split at read
    · cases read
      exact ⟨bounded.size, bounded.outside, bounded.sent⟩
    split at read
    · split at read
      · cases read
      · cases read
        exact bounded.send.reset
    split at read
    · cases read
      exact bounded.reset
    · next room =>
      cases read
      refine ⟨by simp only; omega, fun a behind => ?_, bounded.sent⟩
      have other : a ≠ s.packetSize := by omega
      exact (Function.update_of_ne other _ _).trans (bounded.outside a behind)

theorem Bounded.call {buf : List Byte} (bounded : Bounded conn payload s)
    (read : asyncReadFromPPP conn optClampMSS s buf = .ok t) : Bounded conn payload t := by
  unfold asyncReadFromPPP at read
  split at read
  · cases read
  · exact foldlM_invariant Bounded.readByte bounded read

end Buffers

/-! ## From one end to the other -/

section Tunnel

theorem unescape {c other : Byte} (same : c ^^^ frameEnc = other) : c = other ^^^ frameEnc := by
  rw [← same, BitVec.xor_assoc, BitVec.xor_self, BitVec.xor_zero]

theorem special_transparent : Transparent special where
  escaped c yes := by
    constructor
    · intro same
      rw [unescape same] at yes
      exact absurd yes (by decide)
    · intro same
      rw [unescape same] at yes
      exact absurd yes (by decide)
  bare c no := by
    constructor
    · rintro rfl
      exact absurd no (by decide)
    · rintro rfl
      exact absurd no (by decide)

theorem special_quiet : Quiet special := by
  intro c member
  rw [encode] at member
  split at member
  · next yes =>
    rcases List.mem_cons.mp member with first | second
    · exact absurd first (by decide)
    · rw [unescape (List.mem_singleton.mp second).symm] at yes
      exact absurd yes (by decide)
  · next no =>
    rw [← List.mem_singleton.mp member] at no
    exact absurd no (by decide)

theorem contents_memoryOf (data : List Byte) (behind : Memory) : contents (memoryOf data behind) data.length = data := by
  apply List.ext_getElem
  · rw [contents, List.length_map, List.length_range]
  · intro i small inside
    simp [contents, memoryOf, inside]

theorem forall₂_join {A B C : Type} {r : A → B → Prop} {q : B → C → Prop} {as : List A} {bs : List B} {cs : List C}
    (first : List.Forall₂ r as bs) (second : List.Forall₂ q bs cs) :
    List.Forall₂ (fun a c => ∃ b, r a b ∧ q b c) as cs := by
  induction first generalizing cs with
  | nil =>
    cases second
    exact .nil
  | cons head tail ih =>
    cases second with
    | cons next rest => exact .cons ⟨_, head, next⟩ (ih rest)

theorem initPPP_idle (payload : Memory) : Idle (initPPP payload) := ⟨rfl, rfl, rfl⟩

variable {near far : Connection}

/-- A packet of the session comes out as a frame. -/
theorem write_packet (clampMss : Nat) (behind : Memory) (data : List Byte) {len : Nat}
    (peer : far.peerEth = near.myEth) (session : far.session = near.session) (whole : data.length + hdrSize ≤ len) :
    ∃ out, asyncReadFromEth far clampMss behind (sessionPacket near data) len = some (buildFrame special out) ∧
      Delivered clampMss data out := by
  refine ⟨_, ?_, memoryOf data behind, contents_memoryOf data behind, rfl⟩
  simp [asyncReadFromEth, sessionPacket, peer, session, Nat.not_lt.mpr whole]

theorem write_packets (clampMss : Nat) (behind : Packet → Memory) {len : Packet → Nat}
    (peer : far.peerEth = near.myEth) (session : far.session = near.session)
    (padded : ∀ packet : Packet, packet.length + hdrSize ≤ len packet) (packets : List (List Byte)) :
    ∃ outs, (packets.map (sessionPacket near)).filterMap
        (fun packet => asyncReadFromEth far clampMss (behind packet) packet (len packet)) =
          outs.map (buildFrame special) ∧
      List.Forall₂ (Delivered clampMss) packets outs := by
  induction packets with
  | nil => exact ⟨[], rfl, .nil⟩
  | cons data packets ih =>
    obtain ⟨outs, written, all⟩ := ih
    obtain ⟨out, frame, delivered⟩ := write_packet clampMss (behind (sessionPacket near data)) data peer session
      (padded (sessionPacket near data))
    refine ⟨out :: outs, ?_, .cons delivered all⟩
    simp only [List.map_cons, List.filterMap_cons, frame, written]

/-- What PPP writes at one end reaches PPP at the other, packet by packet and in
order, whatever chunks it is read in. The packets arrive in the order they were
sent, perhaps with padding, and each end clamps with its own value. -/
theorem tunnel_delivers (optClampMSS clampMss : Nat) (payload : Memory) (behind : Packet → Memory)
    (len : Packet → Nat) (escaped : Byte → Bool) (frames : List (List Byte × List Byte))
    (chunks : List (List Byte)) (peer : far.peerEth = near.myEth) (session : far.session = near.session)
    (padded : ∀ packet : Packet, packet.length + hdrSize ≤ len packet)
    (transparent : Transparent escaped) (gaps : ∀ frame ∈ frames, frameAddr ∉ frame.1)
    (fits : Quiet escaped ∨ ∀ frame ∈ frames, frame.2.length ≤ maxPppoePayload)
    (some : ∀ chunk ∈ chunks, chunk ≠ []) (whole : chunks.flatten = stream escaped frames) :
    ∃ s outs, chunks.foldlM (asyncReadFromPPP near optClampMSS) (initPPP payload) = .ok s ∧ Idle s ∧
      s.sent.filterMap (fun packet => asyncReadFromEth far clampMss (behind packet) packet (len packet)) =
        outs.map (buildFrame special) ∧
      List.Forall₂ (fun payload out => ∃ data, Delivered optClampMSS payload data ∧ Delivered clampMss data out)
        ((frames.map Prod.snd).filter fun payload => payload.length ≤ maxPppoePayload) outs := by
  obtain ⟨s, packets, read, idle, sent, delivered⟩ :=
    read_stream near optClampMSS transparent (initPPP_idle payload) gaps fits
  obtain ⟨outs, written, all⟩ := write_packets clampMss behind peer session padded packets
  refine ⟨s, outs, ?_, idle, ?_, forall₂_join delivered all⟩
  · rw [asyncReadFromPPP_flatten chunks some, whole, read]
  · rw [sent]
    exact written

/-- Two ends, and a packet that is full of bytes to escape. -/
def nearEnd : Connection := ⟨⟨0, 1, 2, 3, 4, 5⟩, ⟨0, 1, 2, 3, 4, 6⟩, 7⟩

def farEnd : Connection := ⟨⟨0, 1, 2, 3, 4, 6⟩, ⟨0, 1, 2, 3, 4, 5⟩, 7⟩

def sample : List (List Byte × List Byte) := [([0x0d], [0xc0, 0x21, 0x7e, 0x7d, 0xff, 0x03])]

theorem tunnel_delivers_split :
    farEnd.peerEth = nearEnd.myEth ∧ farEnd.session = nearEnd.session ∧ Transparent special ∧ Quiet special ∧
    ∃ s outs, [(stream special sample).take 5, (stream special sample).drop 5].foldlM
        (asyncReadFromPPP nearEnd 1412) (initPPP fun _ => 0) = .ok s ∧ Idle s ∧
      s.sent.filterMap (fun packet => asyncReadFromEth farEnd 1452 (fun _ => 0) packet (packet.length + hdrSize)) =
        outs.map (buildFrame special) ∧
      List.Forall₂ (fun payload out => ∃ data, Delivered 1412 payload data ∧ Delivered 1452 data out)
        ((sample.map Prod.snd).filter fun payload => payload.length ≤ maxPppoePayload) outs :=
  ⟨rfl, rfl, special_transparent, special_quiet,
    tunnel_delivers 1412 1452 (fun _ => 0) (fun _ _ => 0) (fun packet => packet.length + hdrSize) special sample _
      rfl rfl (fun _ => Nat.le_refl _) special_transparent (by decide) (.inl special_quiet) (by decide +kernel)
      (by simp)⟩

end Tunnel

end Fdgw.Framing
