import Fdgw.Runs
import Fdgw.Base64
import Mathlib.Logic.Function.Basic

/-!
The data path of `src/gnu/stone/stone.c`: the two `Pair` records of one TCP
connection, `scanPairs`, `asyncRead`, `asyncWrite`, `doread`, `dowrite`,
`doclose` and `scanClose`, for listeners in plain or `/base` mode (no command,
no HTTP header), as the proxy image builds it.

Bytes received on one half are stored in the buffer of the other, and the select
sets decide who may touch a buffer. The timer runs inside `doread`, `dowrite` and
`doconnect`, so the `SIGALRM` handler can start a whole `repeater` pass at any
point between their statements; such a pass works on the same two records.
Statements that belong to one system call form one step, and the points between
the steps are where a pass can begin. Other connections share nothing with the
pair but the stack; their calls are `other` frames.

`received` and `sent` are history variables: what `recv` delivered, call by call,
and what `send` accepted. No step reads them.
-/
namespace Fdgw.Stream
open Base64

/-- `BUFMAX` -/
def bufMax : Nat := 2048

/-- The half accepted from the client and the half connected to the server. -/
inductive Side where
  | src
  | dst
  deriving DecidableEq, Repr

def Side.peer : Side → Side
  | .src => .dst
  | .dst => .src

/-- One `Pair`. `sd` says its socket is open, `pair` that it still points to the
other half, `listed` that it is in the list of pairs; `rin`, `win` and `ein` are
its descriptor's bits in the select sets and `base` its `proto_base` bit. -/
structure Half where
  listed : Bool
  sd : Bool
  pair : Bool
  base : Bool
  firstR : Bool
  firstW : Bool
  readyR : Bool
  readyW : Bool
  close : Bool
  shutdown : Bool
  count : Int
  start : Nat
  len : Nat
  buf : List Byte
  rin : Bool
  win : Bool
  ein : Bool
  deriving DecidableEq, Repr

/-- What `recv` answers. -/
inductive Recv where
  | data (bytes : List Byte)
  | eof
  | eintr
  | failed
  deriving DecidableEq, Repr

/-- What `send` answers. -/
inductive Send where
  | wrote (n : Nat)
  | eintr
  | failed
  deriving DecidableEq, Repr

/-- Where `doread` stands: before its `recv`, after it with the local `start`, or
returning a value. -/
inductive ReadPoint where
  | entered
  | received (start : Nat) (answer : Recv)
  | returned (value : Int)
  deriving DecidableEq, Repr

inductive WritePoint where
  | entered
  | sent (answer : Send)
  | returned (value : Int)
  deriving DecidableEq, Repr

/-- An activation; `asyncRead` and `asyncWrite` keep the `p` they started with. -/
inductive Frame where
  | repeater
  | read (h : Side) (p : Bool) (point : ReadPoint)
  | write (h : Side) (p : Bool) (point : WritePoint)
  | connect
  | other
  deriving DecidableEq, Repr

/-- The `Conn` of the pair. -/
inductive Conn where
  | queued
  | locked
  | finished
  deriving DecidableEq, Repr

structure State where
  half : Side → Half
  conn : Conn
  stack : List Frame
  received : Side → List (List Byte)
  sent : Side → List Byte

def State.modify (s : State) (h : Side) (f : Half → Half) : State :=
  { s with half := Function.update s.half h (f (s.half h)) }

/-- A half as `doaccept` leaves it; the contents of the buffer are whatever
`malloc` returned. -/
def accepted (base : Bool) (count : Int) (garbage : List Byte) : Half where
  listed := true
  sd := true
  pair := true
  base := base
  firstR := true
  firstW := true
  readyR := false
  readyW := false
  close := false
  shutdown := false
  count := count
  start := 0
  len := 0
  buf := garbage.takeD bufMax 0
  rin := false
  win := false
  ein := false

/-- After `asyncAccept`: the request to connect is queued and counted. -/
def initial (base : Side → Bool) (garbage : Side → List Byte) : State where
  half
    | .src => accepted (base .src) 0 (garbage .src)
    | .dst => accepted (base .dst) 1 (garbage .dst)
  conn := .queued
  stack := [.repeater]
  received _ := []
  sent _ := []

/-! ## Buffers -/

/-- `bytes` stored at `&buf[i]`. -/
def overwrite (buf : List Byte) (i : Nat) (bytes : List Byte) : List Byte :=
  buf.take i ++ bytes ++ buf.drop (i + bytes.length)

/-- The characters `baseDecode` left behind `rest = &buf[BUFMAX-1]`. -/
def carried (buf : List Byte) : List Byte :=
  let n := (buf.getD (bufMax - 1) 0).toNat
  ((buf.drop (bufMax - 1 - n)).take n).reverse

/-- `*rest = j; *(rest-1-i) = o[i]` -/
def carry (buf : List Byte) (held : List Byte) : List Byte :=
  overwrite buf (bufMax - 1 - held.length) (held.reverse ++ [BitVec.ofNat 8 held.length])

/-- `buf[start..start+len)` -/
def Half.pending (x : Half) : List Byte := (x.buf.drop x.start).take x.len

/-! ## Select sets -/

/-- `proto &= ~proto_ready_r; FD_SET_RIN` -/
def Half.setRin (x : Half) : Half := { x with readyR := false, rin := true }

/-- `proto &= ~proto_ready_w; FD_SET_WIN` -/
def Half.setWin (x : Half) : Half := { x with readyW := false, win := true }

/-- Both, undone; the exception bit goes too. -/
def Half.unset (x : Half) : Half :=
  { x with readyR := false, rin := false, readyW := false, win := false, ein := false }

/-- `scanPairs` before `asyncRead`: the write bit is put aside. -/
def Half.enterRead (x : Half) : Half :=
  { x with ein := false, readyR := false, rin := false, readyW := x.win, win := false }

/-- `scanPairs` before `asyncWrite`: the read bit is put aside. -/
def Half.enterWrite (x : Half) : Half :=
  { x with ein := false, readyW := false, win := false, readyR := x.rin, rin := false }

/-- `asyncRead` puts the write bit back. -/
def Half.leaveRead (x : Half) : Half :=
  { x with ein := true, readyW := false, win := x.win || x.readyW }

/-- `asyncWrite` puts the read bit back. -/
def Half.leaveWrite (x : Half) : Half :=
  { x with ein := true, readyR := false, rin := x.rin || x.readyR }

/-! ## Closing -/

/-- `doclose` -/
def doclose (s : State) (h : Side) : State :=
  let pair := s.half h
  if pair.close then s
  else if pair.sd then
    let s := s.modify h fun x => { x.unset with close := true }
    if pair.pair && !(s.half h.peer).close then
      s.modify h.peer fun p => { p with shutdown := true }
    else s
  else s.modify h fun x => { x with close := true }

/-- `scanClose` comes to one half. -/
def scanClose (s : State) (h : Side) : Option State :=
  let x := s.half h
  match s.stack with
  | .repeater :: _ =>
    if !x.listed then none
    else if !x.sd then
      let s := if x.pair then
          doclose (s.modify h.peer fun p => { p with pair := false }) h.peer
        else s
      some (s.modify h fun x => { x with listed := false })
    else if x.close then
      if !x.rin && !x.win && !x.ein && x.count ≤ 0 then
        some (s.modify h fun x => { x with sd := false })
      else some (s.modify h Half.unset)
    else if x.shutdown && x.len = 0 then
      some (s.modify h fun x => { x with shutdown := false })
    else some s
  | _ => none

/-! ## Connecting -/

/-- `scanConns` locks the request and calls `asyncConn`, which enters `doconnect`. -/
def asyncConn (s : State) : Option State :=
  match s.stack, s.conn with
  | .repeater :: _, .queued =>
    if (s.half .dst).close || (s.half .src).close || !(s.half .dst).pair then none
    else some { s with conn := .locked, stack := .connect :: s.stack }
  | _, _ => none

/-- `scanConns` removes the request of a pair that is gone or closing; the
reference it held is not given up. -/
def dropConn (s : State) : Option State :=
  match s.stack with
  | .repeater :: _ =>
    if s.conn ≠ .finished ∧ ((s.half .dst).close || (s.half .src).close || !(s.half .dst).pair) then
      some { s with conn := .finished }
    else none
  | _ => none

/-- `doconnect` was interrupted and `CONN_TIMEOUT` has not passed. -/
def retryConn (s : State) : Option State :=
  match s.stack with
  | .connect :: rest => some { s with conn := .queued, stack := rest }
  | _ => none

/-- The rest of `asyncConn`: `p1` is the destination half, `p2` the source half. -/
def finishConn (s : State) (success : Bool) : Option State :=
  match s.stack with
  | .connect :: rest =>
    let s := { s with stack := rest, conn := .finished }
    let s := if !success || (s.half .dst).close || (s.half .src).close then
        doclose (doclose s .src) .dst
      else
        let s := if 0 < (s.half .dst).len then
            s.modify .dst Half.setWin
          else s.modify .src Half.setRin
        let s := s.modify .dst fun p1 => { p1.setRin with ein := true }
        s.modify .src fun p2 => { p2 with ein := true }
    some (s.modify .dst fun p1 => { p1 with count := p1.count - 1 })
  | _ => none

/-! ## scanPairs -/

/-- The test at the head of the loop of `scanPairs`. -/
def visited (s : State) (h : Side) : Bool :=
  s.stack.head? = some .repeater && (s.half h).listed && (s.half h).sd && !(s.half h).close

/-- `pair->count++; if (pair->pair) pair->pair->count++;` -/
def hold (s : State) (h : Side) : State :=
  let s := s.modify h fun x => { x with count := x.count + 1 }
  if (s.half h).pair then s.modify h.peer fun p => { p with count := p.count + 1 } else s

/-- `pair->count--; if (p) p->count--;` -/
def release (s : State) (h : Side) (p : Bool) : State :=
  let s := s.modify h fun x => { x with count := x.count - 1 }
  if p then s.modify h.peer fun p => { p with count := p.count - 1 } else s

def exception (s : State) (h : Side) : Option State :=
  if visited s h && (s.half h).ein then some (doclose s h) else none

/-- The half is readable: `asyncRead` is entered. -/
def readable (s : State) (h : Side) : Option State :=
  if visited s h && (s.half h).rin then
    let s := hold (s.modify h Half.enterRead) h
    some { s with stack := .read h (s.half h).pair .entered :: s.stack }
  else none

/-- The half is writable: `asyncWrite` is entered. -/
def writable (s : State) (h : Side) : Option State :=
  if visited s h && (s.half h).win then
    let s := hold (s.modify h Half.enterWrite) h
    some { s with stack := .write h (s.half h).pair .entered :: s.stack }
  else none

/-- `idle time exceeds`: a reference is given up. -/
def idle (s : State) (h : Side) : Option State :=
  if visited s h then
    some (s.modify h fun x => { x with count := if 0 < x.count then x.count - 1 else x.count })
  else none

/-! ## Reading -/

/-- The part of `doread` before `recv`: the buffer of `p`, the index `start` to
read at and the number of bytes asked for. -/
def prepare (x p : Half) : List Byte × Nat × Nat :=
  let room := bufMax - p.start
  if p.base then (p.buf, p.start, (room - 1) / 4 * 3)
  else if x.base then
    let kept := if x.firstR then [] else carried p.buf
    let buf := overwrite p.buf p.start kept
    (overwrite buf (bufMax - 1) [0], p.start + kept.length, room - kept.length - 5)
  else (p.buf, p.start, room)

/-- The reads an answer adds to the history. -/
def Recv.reads : Recv → List (List Byte)
  | .data bytes => [bytes]
  | _ => []

/-- What `recv` can answer on an open or closed descriptor when it is asked for
`limit` bytes. -/
def Recv.possible (sd : Bool) (limit : Nat) : Recv → Bool
  | .data bytes => sd && bytes ≠ [] && bytes.length ≤ limit
  | .failed => true
  | _ => sd

/-- `recv` returns to `doread`. A half without a partner throws away what it
reads. -/
def recv (s : State) (answer : Recv) : Option State :=
  match s.stack with
  | .read h p .entered :: rest =>
    let x := s.half h
    let place := prepare x (s.half h.peer)
    if answer.possible x.sd (if x.pair then place.2.2 else bufMax) then
      let s := { s with received := Function.update s.received h (s.received h ++ answer.reads) }
      let s := s.modify h fun x => { x with rin := false }
      if x.pair then
        let s := s.modify h.peer fun p =>
          { p with buf := overwrite place.1 place.2.1 answer.reads.flatten }
        some { s with stack := .read h p (.received place.2.1 answer) :: rest }
      else some { s with stack := .read h p (.returned (-1)) :: rest }
    else none
  | _ => none

/-- What `doread` makes of the buffer of `p` when `recv` has filled it up to `stop`. -/
def convert (x : Half) (stop : Nat) (p : Half) : Half :=
  let p := { p with len := stop - p.start }
  let text := p.pending
  if p.base then
    { p with buf := overwrite p.buf p.start (baseEncode text), len := (baseEncode text).length }
  else if x.base then
    let d := baseDecode text
    { p with buf := carry (overwrite p.buf p.start d.out) d.held, len := d.out.length }
  else p

/-- The part of `doread` after `recv`. -/
def doread (s : State) : Option State :=
  match s.stack with
  | .read h p (.received start answer) :: rest =>
    let x := s.half h
    let finish (s : State) (value : Int) : State :=
      { s with stack := .read h p (.returned value) :: rest }
    if x.close then some (finish s (-1))
    else match answer with
      | .eintr => some (finish s 0)
      | .failed => some (finish (doclose s h.peer) (-1))
      | .eof => some (finish s (-1))
      | .data bytes =>
        let s := s.modify h.peer (convert x (start + bytes.length))
        some (finish s (s.half h.peer).len)
  | _ => none

/-- `first_read` without a command or a header to remove. -/
def firstRead (s : State) (h : Side) : State × Int :=
  if (s.half h).pair then
    let len := (s.half h.peer).len
    let s := s.modify h fun x => { x with firstR := false }
    if len = 0 && !(s.half h).close then
      (s.modify h Half.setRin, len)
    else (s, len)
  else (s, -1)

/-- The rest of `asyncRead`, with the timer off. -/
def asyncRead (s : State) : Option State :=
  match s.stack with
  | .read h p (.returned value) :: rest =>
    let s := release { s with stack := rest } h p
    if value < 0 || (s.half h).close || !p then some (doclose s h)
    else
      let s := s.modify h Half.leaveRead
      if 0 < value then
        let (s, len) := if (s.half h).firstR then firstRead s h else (s, value)
        if 0 < len && (s.half h.peer).sd && !(s.half h).close then
          some (s.modify h.peer Half.setWin)
        else some s
      else some (s.modify h Half.setRin)
  | _ => none

/-! ## Writing -/

/-- `send` returns to `dowrite`. -/
def send (s : State) (answer : Send) : Option State :=
  match s.stack with
  | .write h p .entered :: rest =>
    let x := s.half h
    match answer with
    | .wrote n =>
      if x.sd && n ≤ x.len then
        let s := s.modify h fun x => { x with win := false }
        some { s with
          sent := Function.update s.sent h (s.sent h ++ x.pending.take n)
          stack := .write h p (.sent answer) :: rest }
      else none
    | _ =>
      let s := s.modify h fun x => { x with win := false }
      some { s with stack := .write h p (.sent answer) :: rest }
  | _ => none

/-- The part of `dowrite` after `send`. -/
def dowrite (s : State) : Option State :=
  match s.stack with
  | .write h p (.sent answer) :: rest =>
    let finish (s : State) (value : Int) : State :=
      { s with stack := .write h p (.returned value) :: rest }
    if (s.half h).close then some (finish s (-1))
    else match answer with
      | .eintr => some (finish s 0)
      | .failed => some (finish s (-1))
      | .wrote n =>
        let s := s.modify h fun x => { x with
          start := if x.len ≤ n then 0 else x.start + n, len := x.len - n }
        some (finish s n)
  | _ => none

/-- The rest of `asyncWrite`, with the timer off. -/
def asyncWrite (s : State) : Option State :=
  match s.stack with
  | .write h p (.returned value) :: rest =>
    let s := release { s with stack := rest } h p
    if value < 0 || (s.half h).close then
      let s := if p then doclose s h.peer else s
      some (doclose s h)
    else
      let s := s.modify h Half.leaveWrite
      if (s.half h).len = 0 then
        let s := s.modify h fun x => { x with firstW := false }
        if p && (s.half h.peer).sd && !(s.half h).close then
          some (s.modify h.peer Half.setRin)
        else some s
      else some (s.modify h Half.setWin)
  | _ => none

/-! ## Runs -/

/-- `SIGALRM` while a call is in progress: a nested `repeater`. -/
def sigalrm (s : State) : Option State :=
  match s.stack with
  | [] => none
  | .repeater :: _ => none
  | _ => some { s with stack := .repeater :: s.stack }

/-- A nested `repeater` returns to the call it interrupted. -/
def done (s : State) : Option State :=
  match s.stack with
  | .repeater :: frame :: rest => some { s with stack := frame :: rest }
  | _ => none

/-- A call for another connection begins. -/
def beginOther (s : State) : Option State :=
  match s.stack with
  | .repeater :: _ => some { s with stack := .other :: s.stack }
  | _ => none

def endOther (s : State) : Option State :=
  match s.stack with
  | .other :: rest => some { s with stack := rest }
  | _ => none

inductive Event where
  | asyncConn
  | dropConn
  | retryConn
  | finishConn (success : Bool)
  | exception (h : Side)
  | readable (h : Side)
  | recv (answer : Recv)
  | doread
  | asyncRead
  | writable (h : Side)
  | send (answer : Send)
  | dowrite
  | asyncWrite
  | idle (h : Side)
  | scanClose (h : Side)
  | beginOther
  | endOther
  | sigalrm
  | done
  deriving DecidableEq, Repr

def step (s : State) : Event → Option State
  | .asyncConn => asyncConn s
  | .dropConn => dropConn s
  | .retryConn => retryConn s
  | .finishConn success => finishConn s success
  | .exception h => exception s h
  | .readable h => readable s h
  | .recv answer => recv s answer
  | .doread => doread s
  | .asyncRead => asyncRead s
  | .writable h => writable s h
  | .send answer => send s answer
  | .dowrite => dowrite s
  | .asyncWrite => asyncWrite s
  | .idle h => idle s h
  | .scanClose h => scanClose s h
  | .beginOther => beginOther s
  | .endOther => endOther s
  | .sigalrm => sigalrm s
  | .done => done s

end Fdgw.Stream
