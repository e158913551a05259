import Mathlib.Data.List.Basic
import Mathlib.Data.List.GetD

/-!
PPPoE frames as `src/gnu/rp-pppoe` handles them: the header, the tags of a
discovery frame with `findTag` of `common.c`, and the byte moves `insertBytes`,
`removeBytes` and `addTag` of `relay.c`.

Session numbers are the 16 bits of the frame as they stand; `length` is the value
of the length field and `payload` the array behind the header, of which only the
first `length` bytes belong to the frame.
-/
namespace Fdgw.Pppoe

abbrev Byte := BitVec 8

abbrev SessionNumber := BitVec 16

/-- `ETH_DATA_LEN` -/
def ethDataLen : Nat := 1500

/-- `HDR_SIZE`, `TAG_HDR_SIZE` and `MAX_PPPOE_PAYLOAD` -/
def hdrSize : Nat := 20
def tagHdrSize : Nat := 4
def maxPppoePayload : Nat := ethDataLen - 6

def codePadi : Byte := 0x09
def codePado : Byte := 0x07
def codePadr : Byte := 0x19
def codePads : Byte := 0x65
def codePadt : Byte := 0xA7
def codeSess : Byte := 0x00

def tagEndOfList : Nat := 0x0000
def tagHostUniq : Nat := 0x0103
def tagRelaySessionId : Nat := 0x0110
def tagGenericError : Nat := 0x0203

/-- An Ethernet address. -/
structure Mac where
  b0 : Byte
  b1 : Byte
  b2 : Byte
  b3 : Byte
  b4 : Byte
  b5 : Byte
  deriving DecidableEq, Repr

def Mac.bytes (m : Mac) : List Byte := [m.b0, m.b1, m.b2, m.b3, m.b4, m.b5]

/-- The address at the start of `bytes`. -/
def Mac.read (bytes : List Byte) : Mac :=
  ⟨bytes.getD 0 0, bytes.getD 1 0, bytes.getD 2 0, bytes.getD 3 0, bytes.getD 4 0, bytes.getD 5 0⟩

/-- `NOT_UNICAST` -/
def Mac.notUnicast (m : Mac) : Bool := m.b0 &&& 0x01 ≠ 0

/-- `NOT_BROADCAST` -/
def Mac.notBroadcast (m : Mac) : Bool :=
  m.b0 &&& m.b1 &&& m.b2 &&& m.b3 &&& m.b4 &&& m.b5 ≠ 0xFF

structure Packet where
  dest : Mac
  source : Mac
  ver : BitVec 4
  type : BitVec 4
  code : Byte
  session : SessionNumber
  length : Nat
  payload : List Byte
  deriving DecidableEq, Repr

/-- The bytes that belong to the frame. -/
def Packet.data (p : Packet) : List Byte := p.payload.take p.length

def Packet.byteAt (p : Packet) (i : Nat) : Nat := (p.payload.getD i 0).toNat

/-! ## Tags -/

def Packet.tagType (p : Packet) (cur : Nat) : Nat := p.byteAt cur * 256 + p.byteAt (cur + 1)

def Packet.tagLen (p : Packet) (cur : Nat) : Nat := p.byteAt (cur + 2) * 256 + p.byteAt (cur + 3)

/-- What follows the header of the tag at `loc`. -/
def Packet.tagPayload (p : Packet) (loc : Nat) : List Byte :=
  (p.payload.drop (loc + tagHdrSize)).take (p.tagLen loc)

/-- The loop of `findTag`. It moves on by at least `TAG_HDR_SIZE`. -/
def findTagLoop (p : Packet) (kind : Nat) : Nat → Nat → Option Nat
  | 0, _ => none
  | fuel + 1, cur =>
    if cur < p.length then
      if p.tagType cur = tagEndOfList then none
      else if p.length < cur + p.tagLen cur + tagHdrSize then none
      else if p.tagType cur = kind then some cur
      else findTagLoop p kind fuel (cur + tagHdrSize + p.tagLen cur)
    else none

/-- `findTag`: the place of the first tag of this type. -/
def findTag (p : Packet) (kind : Nat) : Option Nat :=
  if p.ver ≠ 1 then none
  else if p.type ≠ 1 then none
  else if ethDataLen - 6 < p.length then none
  else findTagLoop p kind p.length 0

/-- The four bytes in front of a tag's payload. -/
def tagHeader (kind len : Nat) : List Byte :=
  [BitVec.ofNat 8 (kind / 256), BitVec.ofNat 8 kind, BitVec.ofNat 8 (len / 256), BitVec.ofNat 8 len]

/-- `insertBytes` at `payload + loc` -/
def insertBytes (p : Packet) (loc : Nat) (bytes : List Byte) : Option Packet :=
  if p.length < loc ∨ maxPppoePayload < bytes.length + p.length then none
  else
    let moved := (p.payload.drop loc).take (p.length - loc)
    some { p with
      payload := p.payload.take loc ++ bytes ++ moved ++ p.payload.drop (p.length + bytes.length)
      length := p.length + bytes.length }

/-- `removeBytes` at `payload + loc` -/
def removeBytes (p : Packet) (loc len : Nat) : Option Packet :=
  if p.length < len ∨ p.length < loc + len then none
  else
    let moved := (p.payload.drop (loc + len)).take (p.length - loc - len)
    some { p with
      payload := p.payload.take loc ++ moved ++ p.payload.drop (p.length - len)
      length := p.length - len }

/-- `addTag`: the tag becomes the first. -/
def addTag (p : Packet) (kind : Nat) (bytes : List Byte) : Option Packet :=
  insertBytes p 0 (tagHeader kind bytes.length ++ bytes)

/-- `memcpy(payload + loc, bytes, ..)` -/
def Packet.store (p : Packet) (loc : Nat) (bytes : List Byte) : Packet :=
  { p with payload := p.payload.take loc ++ bytes ++ p.payload.drop (loc + bytes.length) }

/-! ## Finding a tag -/

section Find

variable {p q : Packet} {kind loc cur fuel : Nat}

/-- Where the loop stops it has found a tag of the kind, inside the frame. -/
theorem findTagLoop_spec (found : findTagLoop p kind fuel cur = some loc) :
    cur ≤ loc ∧ p.tagType loc = kind ∧ loc + p.tagLen loc + tagHdrSize ≤ p.length := by
  induction fuel generalizing cur with
  | zero => cases found
  | succ fuel ih =>
    rw [findTagLoop] at found
    split at found
    · split at found
      · cases found
      split at found
      · cases found
      split at found
      · next inside same =>
        cases found
        exact ⟨Nat.le_refl _, same, Nat.not_lt.mp inside⟩
      · obtain ⟨further, rest⟩ := ih found
        exact ⟨by omega, rest⟩
    · cases found

theorem findTag_spec (found : findTag p kind = some loc) :
    p.ver = 1 ∧ p.type = 1 ∧ p.length ≤ maxPppoePayload ∧ p.tagType loc = kind ∧
      loc + p.tagLen loc + tagHdrSize ≤ p.length := by
  unfold findTag at found
  split at found
  · cases found
  split at found
  · cases found
  split at found
  · cases found
  next ver type short => 
  exact ⟨not_not.mp ver, not_not.mp type, Nat.not_lt.mp short, (findTagLoop_spec found).2⟩

end Find

/-! ## Changing tags -/

section Edit

variable {p q : Packet} {kind loc len i : Nat} {bytes : List Byte}

end Edit

end Fdgw.Pppoe
