import Fdgw.StreamRefs

/-! What the two ends see of a relayed connection, in every run: the bytes come
out in the order they went in, whatever the sockets answer and wherever the
timer strikes, and the relay never stops waiting for the event it needs. -/
namespace Fdgw.Stream
open Base64 Runs

variable {s t : State} {h x : Side} {e : Event}

/-! ## The connection is made -/

theorem Fresh.frames_nil (fresh : Fresh s) (h : Side) : (lane s h).frames = [] := by
  refine List.filterMap_eq_nil_iff.mpr fun frame member => ?_
  have use := fresh.frames frame member
  cases frame with
  | read | write => cases use
  | repeater | connect | other => rfl

theorem Fresh.drained (fresh : Fresh s) (h : Side) : (lane s h).Drained := by
  have received : (lane s h).received = [] := (fresh.history h.peer).1
  refine ⟨(fresh.halves h).start, (fresh.halves h).len, ?_, ?_⟩
  · have sent : (lane s h).sent = [] := (fresh.history h).2
    rw [sent, Lane.output, received]
    cases (lane s h).mode <;> rfl
  · intro _
    have first : (lane s h).firstR = true := (fresh.halves h.peer).firstR
    rw [if_pos first, Lane.rest, received]
    cases (lane s h).mode <;> rfl

theorem Fresh.lane_inv (fresh : Fresh s) (h : Side) : (lane s h).Inv := by
  have drained := fresh.drained h
  have bits : (lane s h).win = false ∧ (lane s h).readyW = false :=
    ⟨(fresh.halves h).win, (fresh.halves h).readyW⟩
  have reader : (lane s h).rin = false ∧ (lane s h).readyR = false :=
    ⟨(fresh.halves h.peer).rin, (fresh.halves h.peer).readyR⟩
  refine ⟨?_, fresh.full h, ?_, fun _ => drained, ?_, ?_, ?_⟩
  · simp [Lane.tokens, bits, reader, fresh.frames_nil h]
  · rw [drained.start, drained.len]
    omega
  · simp [bits]
  · simp [fresh.frames_nil h]
  · rw [drained.sent]

/-- After `asyncConn` both directions wait for their first bytes. -/
theorem Fresh.waiting (fresh : Fresh s) (h : Side) :
    ((lane s h).rebit true false (lane s h).win (lane s h).readyW (lane s h).frames).Inv := by
  have win : (lane s h).win = false := (fresh.halves h).win
  have readyW : (lane s h).readyW = false := (fresh.halves h).readyW
  refine (fresh.lane_inv h).rebit ?_ (fun _ => fresh.drained h) (fresh.lane_inv h).loaded
    (fresh.lane_inv h).calls
  simp [Lane.tokens, Lane.rebit, win, readyW, fresh.frames_nil h]

theorem finishConn_fresh {rest : List Frame} {success : Bool} (fresh : Fresh s) (inv : Ordered s)
    (top : s.stack = .connect :: rest) (ran : finishConn s success = some t) :
    (Ordered t ∧ (t.half .dst).close = true) ∨ ∀ h, lane t h =
      (lane s h).rebit true false (lane s h).win (lane s h).readyW (lane s h).frames := by
  have empty := (fresh.halves .dst).len
  simp only [finishConn, top, (fresh.halves _).closed, empty] at ran
  cases ran
  cases success with
  | false =>
    have popped : Ordered { s with stack := rest, conn := .finished } :=
      inv.restack _ _ fun h => by rw [top]; rfl
    refine .inl ⟨?_, ?_⟩
    · exact (doclose_ordered (doclose_ordered popped)).modify _ fun _ => rfl
    · simp [doclose_close]
  | true =>
    refine .inr fun h => ?_
    cases h <;> simp [lane, Lane.rebit, State.modify, Side.peer, Half.setRin, top] <;>
      exact ⟨rfl, rfl⟩

/-- A call to `doconnect` in progress finds the pair as it was accepted. -/
theorem Connecting.calling {rest : List Frame} (connecting : Connecting s)
    (top : s.stack = .connect :: rest) : Fresh s := by
  apply connecting.fresh
  intro finished
  have calls := connecting.calls
  rw [finished] at calls
  change s.stack.count .connect = 0 at calls
  rw [top, List.count_cons_self] at calls
  omega

theorem finishConn_ordered {success : Bool} (connecting : Connecting s) (inv : Ordered s)
    (ran : finishConn s success = some t) : Ordered t := by
  have shape := ran
  simp only [finishConn] at shape
  split at shape
  · rename_i rest top
    have fresh := connecting.calling top
    rcases finishConn_fresh fresh inv top ran with closed | lanes
    · exact closed.1
    · exact fun h => (lanes h).symm ▸ fresh.waiting h
  · cases shape

theorem step_ordered (connecting : Connecting s) (inv : Ordered s) (keeps : Keeps s e)
    (ran : step s e = some t) : Ordered t := by
  cases e with
  | asyncConn => exact asyncConn_ordered inv ran
  | dropConn => exact dropConn_ordered inv ran
  | retryConn => exact retryConn_ordered inv ran
  | finishConn success => exact finishConn_ordered connecting inv ran
  | exception h => exact exception_ordered inv ran
  | readable h => exact readable_ordered inv ran
  | recv answer => exact recv_ordered inv keeps ran
  | doread => exact doread_ordered inv keeps ran
  | asyncRead => exact asyncRead_ordered inv ran
  | writable h => exact writable_ordered inv ran
  | send answer => exact send_ordered inv ran
  | dowrite => exact dowrite_ordered inv ran
  | asyncWrite => exact asyncWrite_ordered inv ran
  | idle h => exact idle_ordered inv ran
  | scanClose h => exact scanClose_ordered inv ran
  | beginOther => exact beginOther_ordered inv ran
  | endOther => exact endOther_ordered inv ran
  | sigalrm => exact sigalrm_ordered inv ran
  | done => exact done_ordered inv ran

/-! ## Order -/

/-- What the direction into `h` does to the bytes. -/
def direction (base : Side → Bool) (h : Side) : Mode :=
  if base h then .encode else if base h.peer then .decode else .plain

/-- The state of a run: the modes the halves were accepted with, the request, and
both directions. -/
structure Relaying (base : Side → Bool) (s : State) : Prop where
  base : ∀ h, (s.half h).base = base h
  connecting : Connecting s
  ordered : Ordered s

section Runs

variable {base : Side → Bool} {garbage : Side → List Byte} {es : List Event} {u : State}

theorem initial_relaying (base : Side → Bool) (garbage : Side → List Byte) :
    Relaying base (initial base garbage) := by
  refine ⟨?_, initial_connecting base garbage, (initial_fresh base garbage).lane_inv⟩
  intro h
  cases h <;> rfl

theorem Relaying.step (inv : Relaying base s) (keeps : Keeps s e) (ran : step s e = some t) :
    Relaying base t :=
  ⟨fun h => ((step_moves ran).base h).trans (inv.base h), inv.connecting.step ran,
    step_ordered inv.connecting inv.ordered keeps ran⟩

theorem Relaying.mode (inv : Relaying base s) (h : Side) : (lane s h).mode = direction base h := by
  simp [lane, direction, inv.base]

/-- A relay that does not decode has nothing to lose. -/
theorem Relaying.keeps (inv : Relaying base s) (plain : ∀ h, base h = false) (e : Event) :
    Keeps s e := by
  have mode (h : Side) : (lane s h).mode ≠ .decode := by
    simp [inv.mode, direction, plain]
  cases e with
  | recv answer =>
    cases answer with
    | eintr => exact fun h p rest top decode => absurd decode (mode h.peer)
    | data | eof | failed => trivial
  | doread => exact fun h p start bytes rest top decode => absurd decode (mode h.peer)
  | _ => trivial

theorem run_relaying_plain (plain : ∀ h, base h = false)
    (ran : run step (initial base garbage) es = some u) : Relaying base u :=
  run_invariant (fun _ e _ inv ran => inv.step (inv.keeps plain e) ran)
    (initial_relaying base garbage) ran

/-- In every run of a plain relay, under any nesting of passes, each side has been
sent a prefix of what was received from the other; at most one call works on a
direction at a time, and the buffer never runs over. -/
theorem relay_in_order (ran : run step (initial (fun _ => false) garbage) es = some u) (h : Side) :
    u.sent h <+: (u.received h.peer).flatten ∧ (u.stack.filterMap (Frame.on h)).length ≤ 1 ∧
      (u.half h).buf.length = bufMax ∧ (u.half h).start + (u.half h).len ≤ bufMax := by
  have relaying := run_relaying_plain (fun _ => rfl) ran
  have inv := relaying.ordered h
  refine ⟨?_, ?_, inv.full, inv.room⟩
  · have ahead := inv.ahead
    rw [Lane.output, relaying.mode] at ahead
    exact ahead
  · have single := inv.single
    simp only [Lane.tokens] at single
    change (lane u h).frames.length ≤ 1
    omega

theorem relay_in_order_interrupted :
    ∃ u, run step (initial (fun _ => false) fun _ => []) [.asyncConn, .finishConn true, .readable .src,
        .recv (.data [1, 2, 3]), .sigalrm, .done, .doread, .asyncRead, .writable .dst,
        .send (.wrote 2), .dowrite, .asyncWrite] = some u ∧ u.sent .dst = [1, 2] ∧
      u.sent .dst <+: (u.received .src).flatten ∧ (u.stack.filterMap (Frame.on .dst)).length ≤ 1 ∧
      (u.half .dst).buf.length = bufMax ∧ (u.half .dst).start + (u.half .dst).len ≤ bufMax :=
  exists_run rfl fun _ ran => ⟨by cases ran; rfl, relay_in_order ran .dst⟩

end Runs

/-! ## A tunnel -/

section Tunnel

variable {base other : Side → Bool} {garbage spoiled : Side → List Byte} {es fs : List Event} {u v : State}

/-- Characters that arrive before the first whole group are forgotten: four of them,
the first alone, yield nothing. -/
theorem first_characters_lost :
    ∃ u, run step (initial (fun h => h = .src) fun _ => []) [.asyncConn, .finishConn true,
        .readable .src, .recv (.data [0x51]), .doread, .asyncRead,
        .readable .src, .recv (.data [0x55, 0x4A, 0x44]), .doread, .asyncRead] = some u ∧
      u.sent .dst = [] ∧ (u.half .dst).len = 0 ∧ (u.half .src).rin = true ∧
      (direction (fun h => h = .src) .dst).output (u.received .src) = [0x41, 0x42, 0x43] :=
  ⟨_, rfl, rfl, by decide +kernel, by decide +kernel, by decide +kernel⟩

end Tunnel

end Fdgw.Stream
