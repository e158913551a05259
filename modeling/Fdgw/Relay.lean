import Fdgw.Runs
import Fdgw.Links
import Fdgw.Pppoe

/-!
The PPPoE relay of `src/gnu/rp-pppoe/src/relay.c`. Discovery frames are passed
between interfaces with a Relay-Session-Id tag that says where they came from;
a PADS opens a session, and session frames are then passed on by a hash table
that knows a session by the address and number of either end.

Sessions and hash entries are indices into `AllSessions` and `AllHashes`, and a
null pointer is `none`. A function that would follow a null pointer returns
`none` as a whole. What goes to syslog is left out.
-/
namespace Fdgw.Relay
open Pppoe Links

/-! ## Data -/

/-- `PPPoEInterface` -/
structure Interface where
  clientOK : Bool
  acOK : Bool
  mac : Mac
  deriving DecidableEq, Repr

/-- `PPPoESession` without its links -/
structure Session where
  acHash : Option Nat
  clientHash : Option Nat
  epoch : BitVec 32
  sesNum : SessionNumber
  deriving DecidableEq, Repr

/-- `SessionHash` without its links -/
structure SessionHash where
  peer : Option Nat
  interface : Nat
  peerMac : Mac
  sesNum : SessionNumber
  ses : Option Nat
  deriving DecidableEq, Repr

/-- The tables. `sessionLink` and `hashLink` are the `next` and `prev` fields. -/
structure Table where
  session : Nat → Session
  sessionLink : Nat → Link Nat
  hash : Nat → SessionHash
  hashLink : Nat → Link Nat
  activeSessions : Option Nat
  freeSessions : Option Nat
  freeHashes : Option Nat
  buckets : Nat → Option Nat
  numSessions : Nat
  maxSessions : Nat

/-- A byte order swap, as on the machines the floppies are built for. -/
def htons (x : BitVec 16) : BitVec 16 := x <<< 8 ||| x >>> 8

/-- `HASHTAB_SIZE` -/
def hashtabSize : Nat := 18917

/-- `hash` -/
def hashOf (mac : Mac) (sesNum : SessionNumber) : BitVec 32 :=
  let ans1 := mac.b0.setWidth 32 ||| mac.b1.setWidth 32 <<< 8 ||| mac.b2.setWidth 32 <<< 16 |||
    mac.b3.setWidth 32 <<< 24
  let ans2 := sesNum.setWidth 32 ||| mac.b4.setWidth 32 <<< 16 ||| mac.b5.setWidth 32 <<< 24
  ans1 ^^^ ans2

def bucket (mac : Mac) (sesNum : SessionNumber) : Nat := (hashOf mac sesNum).toNat % hashtabSize

/-! ## The session table -/

/-- `calloc` zeroes the entries; the links make two lists of everything. -/
def initRelay (nsess : Nat) : Table where
  session i := ⟨none, none, 0, htons (BitVec.ofNat 16 (i + 1))⟩
  sessionLink i := ⟨if i + 1 < nsess then some (i + 1) else none, if 0 < i then some (i - 1) else none⟩
  hash _ := ⟨none, 0, ⟨0, 0, 0, 0, 0, 0⟩, 0, none⟩
  hashLink i := ⟨if i + 1 < 2 * nsess then some (i + 1) else none, if 0 < i then some (i - 1) else none⟩
  activeSessions := none
  freeSessions := some 0
  freeHashes := some 0
  buckets _ := none
  numSessions := 0
  maxSessions := nsess

def addHash (t : Table) (sh : Nat) : Table :=
  let b := bucket (t.hash sh).peerMac (t.hash sh).sesNum
  { t with
    hashLink := pushFront t.hashLink (t.buckets b) sh
    buckets := Function.update t.buckets b (some sh) }

def unhash (t : Table) (sh : Nat) : Table :=
  let b := bucket (t.hash sh).peerMac (t.hash sh).sesNum
  let buckets := match (t.hashLink sh).prev with
    | some _ => t.buckets
    | none => Function.update t.buckets b (t.hashLink sh).next
  { t with
    buckets := buckets
    hashLink := pushStack (detach t.hashLink sh) t.freeHashes sh
    freeHashes := some sh }

def findSession (t : Table) (mac : Mac) (sesNum : SessionNumber) : Option Nat :=
  search t.hashLink (fun sh => mac = (t.hash sh).peerMac && sesNum = (t.hash sh).sesNum)
    (2 * t.maxSessions) (t.buckets (bucket mac sesNum))

/-- The session, or `none` when the table is full. -/
def createSession (t : Table) (epoch : BitVec 32) (ac cli : Nat) (acMac cliMac : Mac)
    (acSes : SessionNumber) : Option (Option Nat × Table) :=
  if t.maxSessions ≤ t.numSessions then some (none, t)
  else do
    -- FreeSessions = sess->next, acHash = FreeHashes, cliHash = acHash->next
    let sess ← t.freeSessions
    let acHash ← t.freeHashes
    let cliHash ← (t.hashLink acHash).next
    let t := { t with
      freeSessions := (t.sessionLink sess).next
      numSessions := t.numSessions + 1
      sessionLink := pushFront t.sessionLink t.activeSessions sess
      activeSessions := some sess
      freeHashes := (t.hashLink cliHash).next
      session := Function.update t.session sess
        { t.session sess with acHash := some acHash, clientHash := some cliHash, epoch := epoch }
      hash := Function.update (Function.update t.hash acHash ⟨some cliHash, ac, acMac, acSes, some sess⟩)
        cliHash ⟨some acHash, cli, cliMac, (t.session sess).sesNum, some sess⟩ }
    some (some sess, addHash (addHash t acHash) cliHash)

def freeSession (t : Table) (ses : Nat) : Option Table := do
  let acHash ← (t.session ses).acHash
  let clientHash ← (t.session ses).clientHash
  let t := { t with
    activeSessions := headWithout t.sessionLink t.activeSessions ses
    sessionLink := pushStack (detach t.sessionLink ses) t.freeSessions ses
    freeSessions := some ses }
  let t := unhash (unhash t acHash) clientHash
  some { t with numSessions := t.numSessions - 1 }

/-! ## Frames -/

inductive Socket where
  | discovery
  | session
  deriving DecidableEq, Repr

/-- One `sendPacket`. -/
structure Sent where
  interface : Nat
  socket : Socket
  packet : Packet
  size : Nat
  deriving DecidableEq, Repr

/-- The bytes that leave behind the PPPoE header. -/
def Sent.data (s : Sent) : List Byte := s.packet.payload.take (s.size - hdrSize)

/-- What `receivePacket` delivers: the whole array and the number of bytes read. -/
structure Frame where
  packet : Packet
  size : Nat
  full : packet.payload.length = ethDataLen

/-- `MY_RELAY_TAG_LEN`, with `sizeof(int)` 4 -/
def myRelayTagLen : Nat := 10

/-- The tag's payload: the index of an interface and an address. -/
def relayTag (index : Nat) (mac : Mac) : List Byte :=
  [BitVec.ofNat 8 index, BitVec.ofNat 8 (index / 256), BitVec.ofNat 8 (index / 65536),
    BitVec.ofNat 8 (index / 16777216)] ++ mac.bytes

/-- The `int` at the start of a relay tag. -/
def tagIndex (bytes : List Byte) : Int :=
  (bytes.getD 3 0 ++ bytes.getD 2 0 ++ bytes.getD 1 0 ++ bytes.getD 0 0 : BitVec 32).toInt

def tagMac (bytes : List Byte) : Mac := Mac.read (bytes.drop 4)

structure State where
  interfaces : List Interface
  table : Table
  epoch : BitVec 32
  idleTimeout : BitVec 32
  cleanPeriod : BitVec 32
  cleanCounter : BitVec 32
  pipe : Nat

/-- `relaySendError` with the text of the message. -/
def relaySendError (interfaces : List Interface) (code : Byte) (session : SessionNumber) (iface : Nat)
    (mac : Mac) (hostUniq : Option (List Byte)) (errMsg : List Byte) : List Sent :=
  match interfaces[iface]? with
  | none => []
  | some i =>
    let packet : Packet := ⟨mac, i.mac, 1, 1, code, session, 0, []⟩
    let tagged := match hostUniq with
      | some tag => addTag packet tagHostUniq tag
      | none => some packet
    match tagged.bind fun packet => addTag packet tagGenericError errMsg with
    | none => []
    | some packet =>
      [⟨iface, if code = codePadt then .discovery else .session, packet, packet.length + hdrSize⟩]

def ascii (text : String) : List Byte := text.toList.map fun c => BitVec.ofNat 8 c.toNat

def unableToAllocate : List Byte := ascii "RP-PPPoE: Relay: Unable to allocate session"

def idleExceeded : List Byte := ascii "RP-PPPoE: Relay: Session exceeded idle timeout"

/-! ## Handlers -/

/-- The frame readdressed to the other end of a session. -/
def readdress (interfaces : List Interface) (h : SessionHash) (p : Packet) : Option Packet :=
  interfaces[h.interface]?.map fun i =>
    { p with session := h.sesNum, source := i.mac, dest := h.peerMac }

def relayGotSessionPacket (r : State) (iface : Nat) (f : Frame) : Option (State × List Sent) := do
  let i ← r.interfaces[iface]?
  let p := f.packet
  if p.ver ≠ 1 ∨ p.type ≠ 1 then some (r, [])
  else if p.code ≠ codeSess then some (r, [])
  else if p.dest ≠ i.mac then some (r, [])
  else if f.size < p.length + hdrSize then some (r, [])
  else match findSession r.table p.source p.session with
    | none => some (r, [])
    | some sh =>
      let ses ← (r.table.hash sh).ses
      let peer ← (r.table.hash sh).peer
      let table := { r.table with
        session := Function.update r.table.session ses { r.table.session ses with epoch := r.epoch } }
      let h := table.hash peer
      let p ← readdress r.interfaces h p
      some ({ r with table := table }, [⟨h.interface, .session, p, f.size⟩])

/-- The PADT goes out on the session socket. -/
def relayHandlePADT (r : State) (p : Packet) (size : Nat) : Option (State × List Sent) :=
  match findSession r.table p.source p.session with
  | none => some (r, [])
  | some sh => do
    let peer ← (r.table.hash sh).peer
    let h := r.table.hash peer
    let ses ← h.ses
    let p ← readdress r.interfaces h p
    let table ← freeSession r.table ses
    some ({ r with table := table }, [⟨h.interface, .session, p, size⟩])

def relayHandlePADI (interfaces : List Interface) (iface : Nat) (i : Interface) (p : Packet)
    (size : Nat) : List Sent :=
  if !i.clientOK then []
  else if p.source.notUnicast then []
  else if p.dest.notBroadcast then []
  else match findTag p tagRelaySessionId with
    | some _ => []
    | none => match addTag p tagRelaySessionId (relayTag iface p.source) with
      | none => []
      | some p =>
        let size := size + (tagHdrSize + myRelayTagLen)
        interfaces.zipIdx.filterMap fun (other, index) =>
          if iface = index then none
          else if !other.acOK then none
          else some ⟨index, .discovery, { p with source := other.mac }, size⟩

/-- What PADO, PADR and PADS have in common: the place of the relay tag, and the
interface and the address in it. -/
def relayTarget (interfaces : List Interface) (iface : Nat) (i : Interface) (allowed : Bool)
    (targetOK : Interface → Bool) (p : Packet) : Option (Nat × Nat × Interface × Mac) :=
  if !allowed then none
  else if p.source.notUnicast then none
  else if p.dest ≠ i.mac then none
  else match findTag p tagRelaySessionId with
    | none => none
    | some loc =>
      if p.tagLen loc ≠ myRelayTagLen then none
      else
        let tag := p.tagPayload loc
        let ifIndex := tagIndex tag
        if ifIndex < 0 then none
        else match interfaces[ifIndex.toNat]? with
          | none => none
          | some target =>
            if !targetOK target || iface = ifIndex.toNat then none
            else some (loc, ifIndex.toNat, target, tagMac tag)

/-- The relay tag is turned round and the frame goes to the address that was in it. -/
def turnRound (iface : Nat) (p : Packet) (size : Nat) :
    Option (Nat × Nat × Interface × Mac) → List Sent
  | none => []
  | some (loc, index, target, mac) =>
    let p := p.store (loc + tagHdrSize) (relayTag iface p.source)
    [⟨index, .discovery, { p with dest := mac, source := target.mac }, size⟩]

def relayHandlePADO (interfaces : List Interface) (iface : Nat) (i : Interface) (p : Packet)
    (size : Nat) : List Sent :=
  turnRound iface p size (relayTarget interfaces iface i i.acOK Interface.clientOK p)

def relayHandlePADR (interfaces : List Interface) (iface : Nat) (i : Interface) (p : Packet)
    (size : Nat) : List Sent :=
  turnRound iface p size (relayTarget interfaces iface i i.clientOK Interface.acOK p)

/-- The last part of `relayHandlePADS`: the relay tag comes off. -/
def sendPads (p : Packet) (size loc index : Nat) (target : Interface) (mac : Mac) : Sent :=
  let p := (removeBytes p loc (myRelayTagLen + tagHdrSize)).getD p
  ⟨index, .discovery, { p with dest := mac, source := target.mac }, size - (myRelayTagLen + tagHdrSize)⟩

def relayHandlePADS (r : State) (iface : Nat) (i : Interface) (p : Packet) (size : Nat) :
    Option (State × List Sent) :=
  match relayTarget r.interfaces iface i i.acOK Interface.clientOK p with
  | none => some (r, [])
  | some (loc, index, target, mac) =>
    if p.session = htons 0 then some (r, [sendPads p size loc index target mac])
    else match findSession r.table p.source p.session with
      | some sh => do
        let ses ← (r.table.hash sh).ses
        let p := { p with session := (r.table.session ses).sesNum }
        some (r, [sendPads p size loc index target mac])
      | none => do
        let (ses, table) ← createSession r.table r.epoch iface index p.source mac p.session
        match ses with
        | some ses =>
          let p := { p with session := (table.session ses).sesNum }
          some ({ r with table := table }, [sendPads p size loc index target mac])
        | none =>
          let hostUniq := (findTag p tagHostUniq).map p.tagPayload
          some (r, relaySendError r.interfaces codePads (htons 0) index mac hostUniq unableToAllocate ++
            relaySendError r.interfaces codePadt p.session iface p.source none unableToAllocate)

def relayGotDiscoveryPacket (r : State) (iface : Nat) (f : Frame) : Option (State × List Sent) := do
  let i ← r.interfaces[iface]?
  let p := f.packet
  if p.ver ≠ 1 ∨ p.type ≠ 1 then some (r, [])
  else if f.size < p.length + hdrSize then some (r, [])
  else
    -- Ethernet padding is dropped
    let size := p.length + hdrSize
    if p.code = codePadt then relayHandlePADT r p size
    else if p.code = codePadi then some (r, relayHandlePADI r.interfaces iface i p size)
    else if p.code = codePado then some (r, relayHandlePADO r.interfaces iface i p size)
    else if p.code = codePadr then some (r, relayHandlePADR r.interfaces iface i p size)
    else if p.code = codePads then relayHandlePADS r iface i p size
    else some (r, [])

/-! ## Cleaning -/

/-- The loop of `cleanSessions`; `next` is read before the session is freed. -/
def cleanLoop (interfaces : List Interface) (now idle : BitVec 32) :
    Nat → Option Nat → Table → Option (Table × List Sent)
  | 0, _, t => some (t, [])
  | _, none, t => some (t, [])
  | fuel + 1, some cur, t =>
    let next := (t.sessionLink cur).next
    if idle < now - (t.session cur).epoch then do
      let acHash ← (t.session cur).acHash
      let clientHash ← (t.session cur).clientHash
      let ac := t.hash acHash
      let cli := t.hash clientHash
      let sent := relaySendError interfaces codePadt ac.sesNum ac.interface ac.peerMac none idleExceeded ++
        relaySendError interfaces codePadt cli.sesNum cli.interface cli.peerMac none idleExceeded
      let t ← freeSession t cur
      let (t, later) ← cleanLoop interfaces now idle fuel next t
      some (t, sent ++ later)
    else cleanLoop interfaces now idle fuel next t

def cleanSessions (r : State) : Option (State × List Sent) := do
  let (table, sent) ← cleanLoop r.interfaces r.epoch r.idleTimeout r.table.maxSessions
    r.table.activeSessions r.table
  some ({ r with table := table }, sent)

/-- `alarmHandler` -/
def alarmHandler (r : State) : State :=
  let counter := r.cleanCounter + 1
  { r with
    epoch := r.epoch + 1
    cleanCounter := counter
    pipe := if counter = r.cleanPeriod then r.pipe + 1 else r.pipe }

/-! ## Runs -/

inductive Event where
  | session (iface : Nat) (frame : Frame)
  | discovery (iface : Nat) (frame : Frame)
  | clean
  | alarm

/-- One thing `relayLoop` handles, or a tick of the clock. The pipe makes `select`
return for cleaning. -/
def handle (r : State) : Event → Option (State × List Sent)
  | .session iface f => relayGotSessionPacket r iface f
  | .discovery iface f => relayGotDiscoveryPacket r iface f
  | .clean =>
    if r.pipe = 0 then some (r, [])
    else
      let r := { r with cleanCounter := 0, pipe := r.pipe - 1 }
      if r.idleTimeout ≠ 0 then cleanSessions r else some (r, [])
  | .alarm => if r.idleTimeout = 0 then some (r, []) else some (alarmHandler r, [])

/-- The relay with all it has sent. -/
def step (s : State × List Sent) (e : Event) : Option (State × List Sent) :=
  (handle s.1 e).map fun (r, sent) => (r, s.2 ++ sent)

/-- What `main` accepts. -/
structure Config where
  interfaces : List Interface
  nsess : Nat
  idleTimeout : BitVec 32
  two : 2 ≤ interfaces.length
  few : interfaces.length ≤ 8
  some : 1 ≤ nsess
  most : nsess ≤ 65534

/-- A twentieth of the idle timeout, but not less than `MIN_CLEAN_PERIOD`. -/
def cleanPeriod (idleTimeout : BitVec 32) : BitVec 32 :=
  if idleTimeout / 20 < 30 then 30 else idleTimeout / 20

def started (c : Config) : State where
  interfaces := c.interfaces
  table := initRelay c.nsess
  epoch := 0
  idleTimeout := c.idleTimeout
  cleanPeriod := cleanPeriod c.idleTimeout
  cleanCounter := 0
  pipe := 0

end Fdgw.Relay
