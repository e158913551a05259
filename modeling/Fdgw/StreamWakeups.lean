import Fdgw.StreamRuns

/-!
No direction of an open connection is ever forgotten: its token is always
somewhere. A bit that is put aside in `proto_ready_r` or `proto_ready_w` belongs
to a call in progress on the same half and is put back when that call ends, so a
pass that finds no call in progress waits in `select` for exactly the events that
move the bytes on.
-/
namespace Fdgw.Stream
open Base64 Runs

variable {s t : State} {h x y : Side} {e : Event} {p : Bool}

/-! ## Closing is final -/

/-- What was closed stays closed. -/
def Closes (s t : State) : Prop := ∀ h, (s.half h).close = true → (t.half h).close = true

theorem Closes.refl (s : State) : Closes s s := fun _ closed => closed

theorem Closes.modify {f : Half → Half} (before : Closes s t)
    (keep : ∀ y : Half, y.close = true → (f y).close = true) : Closes s (t.modify x f) := by
  intro h closed
  have still := before h closed
  rcases Side.eq_or_peer x h with rfl | rfl
  · rw [modify_half_self]
    exact keep _ still
  · rwa [modify_half_peer]

theorem Closes.doclose (before : Closes s t) : Closes s (doclose t x) := by
  simp only [Stream.doclose]
  split
  · exact before
  · split
    · split
      · exact (before.modify fun _ _ => rfl).modify fun _ closed => closed
      · exact before.modify fun _ _ => rfl
    · exact before.modify fun _ _ => rfl

theorem Closes.hold (before : Closes s t) : Closes s (hold t x) := by
  simp only [Stream.hold]
  split
  · refine Closes.modify (Closes.modify before ?_) ?_ <;> exact fun _ closed => closed
  · exact before.modify fun _ closed => closed

theorem Closes.release (before : Closes s t) : Closes s (release t x p) := by
  simp only [Stream.release]
  split
  · refine Closes.modify (Closes.modify before ?_) ?_ <;> exact fun _ closed => closed
  · exact before.modify fun _ closed => closed

theorem Closes.firstRead (before : Closes s t) : Closes s (firstRead t x).1 := by
  simp only [Stream.firstRead]
  split
  · have first : Closes s (t.modify x fun y => { y with firstR := false }) :=
      before.modify fun _ closed => closed
    split
    · exact first.modify fun _ closed => closed
    · exact first
  · exact before

theorem convert_close (x : Half) (stop : Nat) (p : Half) : (convert x stop p).close = p.close := by
  simp only [convert]
  split
  · rfl
  · split <;> rfl

theorem asyncRead_closes (ran : asyncRead s = some t) : Closes s t := by
  simp only [asyncRead] at ran
  split at ran
  · rename_i x p value rest top
    have released : Closes s (release { s with stack := rest } x p) :=
      (show Closes s { s with stack := rest } from fun _ closed => closed).release
    generalize Stream.release { s with stack := rest } x p = s' at *
    split at ran
    · cases ran
      exact released.doclose
    · have left : Closes s (s'.modify x Half.leaveRead) := released.modify fun _ closed => closed
      split at ran
      · have either : Closes s (if ((s'.modify x Half.leaveRead).half x).firstR then
            firstRead (s'.modify x Half.leaveRead) x
            else (s'.modify x Half.leaveRead, value)).1 := by
          split
          · exact left.firstRead
          · exact left
        generalize (if ((s'.modify x Half.leaveRead).half x).firstR then
            firstRead (s'.modify x Half.leaveRead) x
            else (s'.modify x Half.leaveRead, value)) = next at *
        split at ran
        · cases ran
          exact either.modify fun _ closed => closed
        · cases ran
          exact either
      · cases ran
        exact left.modify fun _ closed => closed
  · cases ran

theorem asyncWrite_closes (ran : asyncWrite s = some t) : Closes s t := by
  simp only [asyncWrite] at ran
  split at ran
  · rename_i x p value rest top
    have released : Closes s (release { s with stack := rest } x p) :=
      (show Closes s { s with stack := rest } from fun _ closed => closed).release
    generalize Stream.release { s with stack := rest } x p = s' at *
    split at ran
    · cases ran
      split
      · exact released.doclose.doclose
      · exact released.doclose
    · have left : Closes s (s'.modify x Half.leaveWrite) := released.modify fun _ closed => closed
      split at ran
      · have first : Closes s ((s'.modify x Half.leaveWrite).modify x fun y =>
            { y with firstW := false }) := left.modify fun _ closed => closed
        split at ran
        · cases ran
          exact first.modify fun _ closed => closed
        · cases ran
          exact first
      · cases ran
        exact left.modify fun _ closed => closed
  · cases ran

theorem step_closes (ran : step s e = some t) : Closes s t := by
  have same (stack : List Frame) (conn : Conn) :
      Closes s { s with stack := stack, conn := conn } := fun _ closed => closed
  cases e with
  | asyncConn =>
    simp only [step, asyncConn] at ran
    split at ran
    · split at ran <;> cases ran
      exact same _ _
    · cases ran
  | dropConn =>
    simp only [step, dropConn] at ran
    split at ran
    · split at ran <;> cases ran
      exact same _ _
    · cases ran
  | retryConn =>
    simp only [step, retryConn] at ran
    split at ran <;> cases ran
    exact same _ _
  | finishConn success =>
    simp only [step, finishConn] at ran
    split at ran
    · cases ran
      refine Closes.modify ?_ fun _ closed => closed
      split
      · exact (same _ _).doclose.doclose
      · refine Closes.modify (Closes.modify ?_ ?_) ?_
        · split
          · exact (same _ _).modify fun _ closed => closed
          · exact (same _ _).modify fun _ closed => closed
        · exact fun _ closed => closed
        · exact fun _ closed => closed
    · cases ran
  | exception h =>
    simp only [step, exception] at ran
    split at ran <;> cases ran
    exact (Closes.refl s).doclose
  | readable h =>
    simp only [step, readable] at ran
    split at ran <;> cases ran
    exact ((Closes.refl s).modify (f := Half.enterRead) fun _ closed => closed).hold
  | writable h =>
    simp only [step, writable] at ran
    split at ran <;> cases ran
    exact ((Closes.refl s).modify (f := Half.enterWrite) fun _ closed => closed).hold
  | recv answer =>
    simp only [step, recv] at ran
    split at ran
    · rename_i x p rest top
      by_cases partner : (s.half x).pair = true
      · simp only [if_pos partner] at ran
        split at ran <;> cases ran
        intro y closed
        rcases Side.eq_or_peer x y with rfl | rfl <;> simpa using closed
      · simp only [if_neg partner] at ran
        split at ran <;> cases ran
        intro y closed
        rcases Side.eq_or_peer x y with rfl | rfl <;> simpa using closed
    · cases ran
  | doread =>
    simp only [step, doread] at ran
    split at ran
    · split at ran
      · cases ran
        exact same _ _
      · split at ran
        · cases ran
          exact same _ _
        · cases ran
          exact (Closes.refl s).doclose
        · cases ran
          exact same _ _
        · cases ran
          exact (Closes.refl s).modify fun y closed => (convert_close _ _ y).trans closed
    · cases ran
  | asyncRead => exact asyncRead_closes ran
  | send answer =>
    simp only [step, send] at ran
    split at ran
    · split at ran
      · split at ran <;> cases ran
        exact (Closes.refl s).modify (f := fun y => { y with win := false }) fun _ closed => closed
      · cases ran
        exact (Closes.refl s).modify (f := fun y => { y with win := false }) fun _ closed => closed
    · cases ran
  | dowrite =>
    simp only [step, dowrite] at ran
    split at ran
    · rename_i x p answer rest top
      split at ran
      · cases ran
        exact same _ _
      · split at ran
        · cases ran
          exact same _ _
        · cases ran
          exact same _ _
        · cases ran
          intro y closed
          rcases Side.eq_or_peer x y with rfl | rfl <;> simpa using closed
    · cases ran
  | asyncWrite => exact asyncWrite_closes ran
  | idle h =>
    simp only [step, idle] at ran
    split at ran <;> cases ran
    exact (Closes.refl s).modify fun _ closed => closed
  | scanClose h =>
    simp only [step, scanClose] at ran
    split at ran
    · split at ran
      · cases ran
      · split at ran
        · cases ran
          refine Closes.modify ?_ fun _ closed => closed
          split
          · refine Closes.doclose (Closes.modify (Closes.refl s) ?_)
            exact fun _ closed => closed
          · exact .refl s
        · split at ran
          · split at ran <;> cases ran
            · exact (Closes.refl s).modify fun _ closed => closed
            · exact (Closes.refl s).modify fun _ closed => closed
          · split at ran <;> cases ran
            · exact (Closes.refl s).modify fun _ closed => closed
            · exact .refl s
    · cases ran
  | beginOther =>
    simp only [step, beginOther] at ran
    split at ran <;> cases ran
    exact same _ _
  | endOther =>
    simp only [step, endOther] at ran
    split at ran <;> cases ran
    exact same _ _
  | sigalrm =>
    simp only [step, sigalrm] at ran
    split at ran <;> cases ran
    exact same _ _
  | done =>
    simp only [step, done] at ran
    split at ran <;> cases ran
    exact same _ _

/-! ## Open halves -/

/-- Only `scanClose` takes a socket or a partner away. -/
theorem Moves.sockets {r r' : Refs} (moves : Moves r e r') (other : ∀ x, e ≠ .scanClose x) (h : Side) :
    (r'.shell h).sd = (r.shell h).sd ∧ (r'.shell h).pair = (r.shell h).pair := by
  have modified (r : Refs) (x : Side) (f : Shell → Shell)
      (same : ∀ y : Shell, (f y).sd = y.sd ∧ (f y).pair = y.pair) :
      ((r.modify x f).shell h).sd = (r.shell h).sd ∧
        ((r.modify x f).shell h).pair = (r.shell h).pair := by
    rcases Side.eq_or_peer x h with rfl | rfl
    · simp [same]
    · simp
  cases moves with
  | still | connects | drops | retries => exact ⟨rfl, rfl⟩
  | begins e x | ends e x => simp [Refs.shift_shell]
  | idle x => exact modified _ _ _ fun _ => ⟨rfl, rfl⟩
  | closes x => exact absurd rfl (other x)
  | frees x => exact absurd rfl (other x)
  | connected => exact modified _ _ _ fun _ => ⟨rfl, rfl⟩

/-- A half that is not closed has its socket and its partner. -/
def Opened (s : State) : Prop :=
  ∀ h, (s.half h).close = false → (s.half h).sd = true ∧ (s.half h).pair = true

theorem Opened.modify {f : Half → Half} (opened : Opened s)
    (keep : (f (s.half x)).close = false → (f (s.half x)).sd = true ∧ (f (s.half x)).pair = true) :
    Opened (s.modify x f) := by
  intro h
  rcases Side.eq_or_peer x h with rfl | rfl
  · rw [modify_half_self]
    exact keep
  · rw [modify_half_peer]
    exact opened x.peer

theorem scanClose_opened (opened : Opened s) (ran : scanClose s x = some t) : Opened t := by
  have closes : Closes s t := step_closes (e := .scanClose x) ran
  simp only [scanClose] at ran
  split at ran
  · split at ran
    · cases ran
    · split at ran
      · rename_i closed
        have gone : (s.half x).close = true := by
          by_contra still
          have kept := (opened x (by simpa using still)).1
          simp [kept] at closed
        cases ran
        intro h live
        rcases Side.eq_or_peer x h with rfl | rfl
        · rw [closes h gone] at live
          cases live
        · split at live
          · rw [modify_half_peer, doclose_close] at live
            cases live
          · rename_i alone
            rw [if_neg alone, modify_half_peer]
            rw [modify_half_peer] at live
            exact opened x.peer live
      · split at ran
        · rename_i gone
          split at ran
          · cases ran
            refine opened.modify fun live => ?_
            simp [gone] at live
          · cases ran
            exact opened.modify (opened x)
        · split at ran
          · cases ran
            exact opened.modify (opened x)
          · cases ran
            exact opened
  · cases ran

theorem step_opened (opened : Opened s) (ran : step s e = some t) : Opened t := by
  by_cases other : ∃ x, e = .scanClose x
  · obtain ⟨x, rfl⟩ := other
    exact scanClose_opened opened ran
  · intro h live
    have before : (s.half h).close = false := by
      by_contra closed
      rw [step_closes ran h (by simpa using closed)] at live
      cases live
    obtain ⟨sd, pair⟩ := (step_moves ran).sockets (fun x same => other ⟨x, same⟩) h
    have kept := opened h before
    exact ⟨sd.trans kept.1, pair.trans kept.2⟩

/-- Every call knows the partner it began with. -/
def Partnered (s : State) : Prop := ∀ use ∈ (refs s).uses, use.2 = true

theorem step_partnered (opened : Opened s) (partnered : Partnered s) (ran : step s e = some t) :
    Partnered t := by
  have visits (x : Side) (which : e = .readable x ∨ e = .writable x) : (s.half x).close = false := by
    rcases which with rfl | rfl
    · simp only [step, readable] at ran
      split at ran
      · rename_i chosen
        simp only [visited, Bool.and_eq_true, Bool.not_eq_true'] at chosen
        exact chosen.1.2
      · cases ran
    · simp only [step, writable] at ran
      split at ran
      · rename_i chosen
        simp only [visited, Bool.and_eq_true, Bool.not_eq_true'] at chosen
        exact chosen.1.2
      · cases ran
  have moves := step_moves ran
  unfold Partnered
  generalize refs t = r' at moves
  cases moves with
  | still | idle | closes | connects | drops | retries | connected => exact partnered
  | begins e x which =>
    intro use member
    rcases List.mem_cons.mp member with rfl | member
    · exact (opened x (visits x which)).2
    · exact partnered use member
  | ends e x p rest top =>
    exact fun use member => partnered use (top ▸ List.mem_cons_of_mem _ member)
  | frees =>
    split
    · exact partnered
    · exact partnered

/-! ## Tokens -/

/-- A read on `h` is in progress. -/
def Reading (s : State) (h : Side) : Prop := ∃ p point, .read h p point ∈ s.stack

def Writing (s : State) (h : Side) : Prop := ∃ p point, .write h p point ∈ s.stack

/-- The token of the direction into `h` is somewhere. -/
inductive Waits (s : State) (h : Side) : Prop
  | rin (bit : (s.half h.peer).rin)
  | readyR (bit : (s.half h.peer).readyR)
  | win (bit : (s.half h).win)
  | readyW (bit : (s.half h).readyW)
  | reading (call : Reading s h.peer)
  | writing (call : Writing s h)

structure Watched (s : State) : Prop where
  parkedR : ∀ h, (s.half h).readyR → Writing s h
  parkedW : ∀ h, (s.half h).readyW → Reading s h
  token : s.conn = .finished → ∀ h, Waits s h

/-- The bits of a half. -/
def Half.watch (x : Half) : Bool × Bool × Bool × Bool := (x.rin, x.readyR, x.win, x.readyW)

theorem watch_iff {y z : Half} : y.watch = z.watch ↔
    y.rin = z.rin ∧ y.readyR = z.readyR ∧ y.win = z.win ∧ y.readyW = z.readyW := by
  simp [Half.watch]

@[simp] theorem hold_watch : ((hold s x).half h).watch = (s.half h).watch := by
  simp only [hold]
  split
  · rcases Side.eq_or_peer x h with rfl | rfl <;> simp [Half.watch]
  · rcases Side.eq_or_peer x h with rfl | rfl <;> simp [Half.watch]

@[simp] theorem release_watch : ((release s x p).half h).watch = (s.half h).watch := by
  simp only [release]
  split
  · rcases Side.eq_or_peer x h with rfl | rfl <;> simp [Half.watch]
  · rcases Side.eq_or_peer x h with rfl | rfl <;> simp [Half.watch]

/-- A step that moves no token. -/
theorem Watched.congr (watched : Watched s) (bits : ∀ h, (t.half h).watch = (s.half h).watch)
    (reads : ∀ h, Reading s h → Reading t h) (writes : ∀ h, Writing s h → Writing t h)
    (conn : t.conn = s.conn) : Watched t := by
  have same (h : Side) := watch_iff.mp (bits h)
  refine ⟨fun h bit => ?_, fun h bit => ?_, fun connected h => ?_⟩
  · rw [(same h).2.1] at bit
    exact writes h (watched.parkedR h bit)
  · rw [(same h).2.2.2] at bit
    exact reads h (watched.parkedW h bit)
  · cases watched.token (conn ▸ connected) h with
    | rin bit => exact .rin ((same h.peer).1 ▸ bit)
    | readyR bit => exact .readyR ((same h.peer).2.1 ▸ bit)
    | win bit => exact .win ((same h).2.2.1 ▸ bit)
    | readyW bit => exact .readyW ((same h).2.2.2 ▸ bit)
    | reading call => exact .reading (reads h.peer call)
    | writing call => exact .writing (writes h call)

theorem Reading.mem_frames (reading : Reading s x) : (lane s x.peer).frames ≠ [] := by
  obtain ⟨p, point, member⟩ := reading
  exact List.ne_nil_of_mem (List.mem_filterMap.mpr ⟨_, member, on_read_peer point⟩)

theorem Writing.mem_frames (writing : Writing s x) : (lane s x).frames ≠ [] := by
  obtain ⟨p, point, member⟩ := writing
  exact List.ne_nil_of_mem (List.mem_filterMap.mpr ⟨_, member, on_write_self point⟩)

/-- A half that waits to read is not being read. -/
theorem Ordered.not_reading (inv : Ordered s) (bit : (s.half x).rin = true) : ¬Reading s x := by
  intro reading
  have some := List.length_pos_iff.mpr reading.mem_frames
  have single := (inv x.peer).single
  simp only [Lane.tokens, lane_peer_rin, bit, Bool.toNat_true] at single
  omega

theorem Ordered.not_writing (inv : Ordered s) (bit : (s.half x).win = true) : ¬Writing s x := by
  intro writing
  have some := List.length_pos_iff.mpr writing.mem_frames
  have single := (inv x).single
  have held : (lane s x).win = true := bit
  simp only [Lane.tokens, held, Bool.toNat_true] at single
  omega

section Frames

variable {frame : Frame} {rest : List Frame}

theorem Reading.push (stack : t.stack = frame :: s.stack) (reading : Reading s h) : Reading t h := by
  obtain ⟨p, point, member⟩ := reading
  exact ⟨p, point, stack ▸ List.mem_cons_of_mem _ member⟩

theorem Writing.push (stack : t.stack = frame :: s.stack) (writing : Writing s h) : Writing t h := by
  obtain ⟨p, point, member⟩ := writing
  exact ⟨p, point, stack ▸ List.mem_cons_of_mem _ member⟩

/-- A call that is not a read on `h` ends. -/
theorem Reading.pop (top : s.stack = frame :: rest) (stack : t.stack = rest)
    (other : ∀ p point, frame ≠ .read h p point) (reading : Reading s h) : Reading t h := by
  obtain ⟨p, point, member⟩ := reading
  rw [top] at member
  rcases List.mem_cons.mp member with same | member
  · exact absurd same.symm (other p point)
  · exact ⟨p, point, stack ▸ member⟩

theorem Writing.pop (top : s.stack = frame :: rest) (stack : t.stack = rest)
    (other : ∀ p point, frame ≠ .write h p point) (writing : Writing s h) : Writing t h := by
  obtain ⟨p, point, member⟩ := writing
  rw [top] at member
  rcases List.mem_cons.mp member with same | member
  · exact absurd same.symm (other p point)
  · exact ⟨p, point, stack ▸ member⟩

end Frames

/-- A read begins: the write bit is put aside, the read bit is now the call. -/
theorem Watched.begin_read {point : ReadPoint} (watched : Watched s) (free : ¬Reading s x)
    (here : (t.half x).watch = (false, false, false, (s.half x).win))
    (there : (t.half x.peer).watch = (s.half x.peer).watch)
    (stack : t.stack = .read x p point :: s.stack) (conn : t.conn = s.conn) : Watched t := by
  have begun : Reading t x := ⟨p, point, stack ▸ List.mem_cons_self⟩
  have unparked : ¬(s.half x).readyW := fun bit => free (watched.parkedW x bit)
  simp only [Half.watch, Prod.mk.injEq] at here there
  refine ⟨fun h bit => ?_, fun h bit => ?_, fun connected h => ?_⟩
  · rcases Side.eq_or_peer x h with rfl | rfl
    · simp [here] at bit
    · rw [there.2.1] at bit
      exact (watched.parkedR x.peer bit).push stack
  · rcases Side.eq_or_peer x h with rfl | rfl
    · exact begun
    · rw [there.2.2.2] at bit
      exact (watched.parkedW x.peer bit).push stack
  · rcases Side.eq_or_peer x h with rfl | rfl
    · cases watched.token (conn ▸ connected) h with
      | rin bit => exact .rin (there.1 ▸ bit)
      | readyR bit => exact .readyR (there.2.1 ▸ bit)
      | win bit => exact .readyW (here.2.2.2 ▸ bit)
      | readyW bit => exact absurd bit unparked
      | reading call => exact .reading (call.push stack)
      | writing call => exact .writing (call.push stack)
    · exact .reading ((Side.peer_peer x).symm ▸ begun)

theorem Watched.begin_write {point : WritePoint} (watched : Watched s) (free : ¬Writing s x)
    (here : (t.half x).watch = (false, (s.half x).rin, false, false))
    (there : (t.half x.peer).watch = (s.half x.peer).watch)
    (stack : t.stack = .write x p point :: s.stack) (conn : t.conn = s.conn) : Watched t := by
  have begun : Writing t x := ⟨p, point, stack ▸ List.mem_cons_self⟩
  have unparked : ¬(s.half x).readyR := fun bit => free (watched.parkedR x bit)
  simp only [Half.watch, Prod.mk.injEq] at here there
  refine ⟨fun h bit => ?_, fun h bit => ?_, fun connected h => ?_⟩
  · rcases Side.eq_or_peer x h with rfl | rfl
    · exact begun
    · rw [there.2.1] at bit
      exact (watched.parkedR x.peer bit).push stack
  · rcases Side.eq_or_peer x h with rfl | rfl
    · simp [here] at bit
    · rw [there.2.2.2] at bit
      exact (watched.parkedW x.peer bit).push stack
  · rcases Side.eq_or_peer x h with rfl | rfl
    · exact .writing begun
    · cases watched.token (conn ▸ connected) x.peer with
      | rin bit => exact .readyR (by rw [Side.peer_peer] at bit ⊢; exact here.2.1 ▸ bit)
      | readyR bit => exact absurd (Side.peer_peer x ▸ bit) unparked
      | win bit => exact .win (there.2.2.1 ▸ bit)
      | readyW bit => exact .readyW (there.2.2.2 ▸ bit)
      | reading call => exact .reading (call.push stack)
      | writing call => exact .writing (call.push stack)

theorem hold_conn : (hold s x).conn = s.conn :=
  (congrArg Refs.conn refs_hold).trans (Refs.shift_conn 1)

theorem readable_watched (inv : Ordered s) (watched : Watched s) (ran : readable s x = some t) :
    Watched t := by
  simp only [readable] at ran
  split at ran
  · rename_i chosen
    cases ran
    have bit : (s.half x).rin = true := (Bool.and_eq_true_iff.mp chosen).2
    refine watched.begin_read (inv.not_reading bit) (hold_watch.trans ?_) (hold_watch.trans ?_)
      (congrArg (List.cons _) hold_stack) hold_conn
    · rw [modify_half_self]
      rfl
    · rw [modify_half_peer]
  · cases ran

theorem writable_watched (inv : Ordered s) (watched : Watched s) (ran : writable s x = some t) :
    Watched t := by
  simp only [writable] at ran
  split at ran
  · rename_i chosen
    cases ran
    have bit : (s.half x).win = true := (Bool.and_eq_true_iff.mp chosen).2
    refine watched.begin_write (inv.not_writing bit) (hold_watch.trans ?_) (hold_watch.trans ?_)
      (congrArg (List.cons _) hold_stack) hold_conn
    · rw [modify_half_self]
      rfl
    · rw [modify_half_peer]
  · cases ran

/-- A read moves on; its own read bit does not matter meanwhile. -/
theorem Watched.repoint_read {point next : ReadPoint} {rest : List Frame} (watched : Watched s)
    (top : s.stack = .read x p point :: rest) (stack : t.stack = .read x p next :: rest)
    (here : (t.half x).readyR = (s.half x).readyR ∧ (t.half x).win = (s.half x).win ∧
      (t.half x).readyW = (s.half x).readyW)
    (there : (t.half x.peer).watch = (s.half x.peer).watch) (conn : t.conn = s.conn) : Watched t := by
  have still : Reading t x := ⟨p, next, stack ▸ List.mem_cons_self⟩
  have tail : ∀ frame, (∀ q point, frame ≠ .read x q point) → frame ∈ s.stack → frame ∈ t.stack := by
    intro frame other member
    rw [top] at member
    rcases List.mem_cons.mp member with rfl | member
    · exact absurd rfl (other p point)
    · exact stack ▸ List.mem_cons_of_mem _ member
  have reads (h : Side) (reading : Reading s h) : Reading t h := by
    rcases Side.eq_or_peer x h with rfl | rfl
    · exact still
    · obtain ⟨q, point, member⟩ := reading
      exact ⟨q, point, tail _ (by simp) member⟩
  have writes (h : Side) (writing : Writing s h) : Writing t h := by
    obtain ⟨q, point, member⟩ := writing
    exact ⟨q, point, tail _ (by simp) member⟩
  simp only [Half.watch, Prod.mk.injEq] at there
  refine ⟨fun h bit => ?_, fun h bit => ?_, fun connected h => ?_⟩
  · rcases Side.eq_or_peer x h with rfl | rfl
    · exact writes h (watched.parkedR h (here.1 ▸ bit))
    · exact writes x.peer (watched.parkedR x.peer (there.2.1 ▸ bit))
  · rcases Side.eq_or_peer x h with rfl | rfl
    · exact still
    · exact reads x.peer (watched.parkedW x.peer (there.2.2.2 ▸ bit))
  · rcases Side.eq_or_peer x h with rfl | rfl
    · cases watched.token (conn ▸ connected) h with
      | rin bit => exact .rin (there.1 ▸ bit)
      | readyR bit => exact .readyR (there.2.1 ▸ bit)
      | win bit => exact .win (here.2.1 ▸ bit)
      | readyW bit => exact .readyW (here.2.2 ▸ bit)
      | reading call => exact .reading (reads h.peer call)
      | writing call => exact .writing (writes h call)
    · exact .reading ((Side.peer_peer x).symm ▸ still)

theorem Watched.repoint_write {point next : WritePoint} {rest : List Frame} (watched : Watched s)
    (top : s.stack = .write x p point :: rest) (stack : t.stack = .write x p next :: rest)
    (here : (t.half x).rin = (s.half x).rin ∧ (t.half x).readyR = (s.half x).readyR ∧
      (t.half x).readyW = (s.half x).readyW)
    (there : (t.half x.peer).watch = (s.half x.peer).watch) (conn : t.conn = s.conn) : Watched t := by
  have still : Writing t x := ⟨p, next, stack ▸ List.mem_cons_self⟩
  have tail : ∀ frame, (∀ q point, frame ≠ .write x q point) → frame ∈ s.stack → frame ∈ t.stack := by
    intro frame other member
    rw [top] at member
    rcases List.mem_cons.mp member with rfl | member
    · exact absurd rfl (other p point)
    · exact stack ▸ List.mem_cons_of_mem _ member
  have reads (h : Side) (reading : Reading s h) : Reading t h := by
    obtain ⟨q, point, member⟩ := reading
    exact ⟨q, point, tail _ (by simp) member⟩
  have writes (h : Side) (writing : Writing s h) : Writing t h := by
    rcases Side.eq_or_peer x h with rfl | rfl
    · exact still
    · obtain ⟨q, point, member⟩ := writing
      exact ⟨q, point, tail _ (by simp) member⟩
  simp only [Half.watch, Prod.mk.injEq] at there
  refine ⟨fun h bit => ?_, fun h bit => ?_, fun connected h => ?_⟩
  · rcases Side.eq_or_peer x h with rfl | rfl
    · exact still
    · exact writes x.peer (watched.parkedR x.peer (there.2.1 ▸ bit))
  · rcases Side.eq_or_peer x h with rfl | rfl
    · exact reads h (watched.parkedW h (here.2.2 ▸ bit))
    · exact reads x.peer (watched.parkedW x.peer (there.2.2.2 ▸ bit))
  · rcases Side.eq_or_peer x h with rfl | rfl
    · exact .writing still
    · cases watched.token (conn ▸ connected) x.peer with
      | rin bit => exact .rin (by rw [Side.peer_peer] at bit ⊢; exact here.1 ▸ bit)
      | readyR bit => exact .readyR (by rw [Side.peer_peer] at bit ⊢; exact here.2.1 ▸ bit)
      | win bit => exact .win (there.2.2.1 ▸ bit)
      | readyW bit => exact .readyW (there.2.2.2 ▸ bit)
      | reading call => exact .reading (reads _ call)
      | writing call => exact .writing (writes _ call)

theorem recv_watched {answer : Recv} (watched : Watched s) (ran : recv s answer = some t) :
    Watched t := by
  simp only [recv] at ran
  split at ran
  · rename_i x p rest top
    by_cases partner : (s.half x).pair = true
    · simp only [if_pos partner] at ran
      split at ran
      · cases ran
        exact watched.repoint_read top rfl (by simp) (by simp [Half.watch]) rfl
      · cases ran
    · simp only [if_neg partner] at ran
      split at ran
      · cases ran
        exact watched.repoint_read top rfl (by simp) (by simp [Half.watch]) rfl
      · cases ran
  · cases ran

theorem convert_watch (x : Half) (stop : Nat) (p : Half) : (convert x stop p).watch = p.watch := by
  simp only [convert]
  split
  · rfl
  · split <;> rfl

theorem doread_watched (watched : Watched s) (live : ∀ h, (t.half h).close = false)
    (ran : doread s = some t) : Watched t := by
  simp only [doread] at ran
  split at ran
  · rename_i x p start answer rest top
    split at ran
    · cases ran
      exact watched.repoint_read top rfl ⟨rfl, rfl, rfl⟩ rfl rfl
    · split at ran
      · cases ran
        exact watched.repoint_read top rfl ⟨rfl, rfl, rfl⟩ rfl rfl
      · cases ran
        have closed := (doclose_close (s := s) (x := x.peer)).symm.trans (live x.peer)
        cases closed
      · cases ran
        exact watched.repoint_read top rfl ⟨rfl, rfl, rfl⟩ rfl rfl
      · cases ran
        exact watched.repoint_read top rfl (by simp) (by simp [convert_watch]) rfl
  · cases ran

theorem send_watched {answer : Send} (watched : Watched s) (ran : send s answer = some t) :
    Watched t := by
  simp only [send] at ran
  split at ran
  · rename_i x p rest top
    split at ran
    · split at ran
      · cases ran
        exact watched.repoint_write top rfl (by simp) (by simp [Half.watch]) rfl
      · cases ran
    · cases ran
      exact watched.repoint_write top rfl (by simp) (by simp [Half.watch]) rfl
  · cases ran

theorem dowrite_watched (watched : Watched s) (ran : dowrite s = some t) : Watched t := by
  simp only [dowrite] at ran
  split at ran
  · rename_i x p answer rest top
    split at ran
    · cases ran
      exact watched.repoint_write top rfl ⟨rfl, rfl, rfl⟩ rfl rfl
    · split at ran
      · cases ran
        exact watched.repoint_write top rfl ⟨rfl, rfl, rfl⟩ rfl rfl
      · cases ran
        exact watched.repoint_write top rfl ⟨rfl, rfl, rfl⟩ rfl rfl
      · cases ran
        exact watched.repoint_write top rfl (by simp) (by simp [Half.watch]) rfl
  · cases ran

/-! ## A call ends -/

/-- A read ends: the write bit is back, and the read bit or the partner's write bit
takes the place of the call. -/
theorem Watched.end_read {point : ReadPoint} {rest : List Frame} (watched : Watched s)
    (top : s.stack = .read x p point :: rest) (stack : t.stack = rest)
    (parkedR : (t.half x).readyR → (s.half x).readyR) (parkedW : (t.half x).readyW = false)
    (back : (s.half x).win ∨ (s.half x).readyW → (t.half x).win)
    (peerR : (t.half x.peer).rin = (s.half x.peer).rin ∧ (t.half x.peer).readyR = (s.half x.peer).readyR)
    (peerW : (t.half x.peer).readyW → (s.half x.peer).readyW)
    (passed : (t.half x).rin ∨ (t.half x.peer).win) (conn : t.conn = s.conn) : Watched t := by
  have reads (reading : Reading s x.peer) : Reading t x.peer :=
    reading.pop top stack fun q point same => by cases x <;> cases same
  have writes (h : Side) (writing : Writing s h) : Writing t h :=
    writing.pop top stack (by simp)
  refine ⟨fun h bit => ?_, fun h bit => ?_, fun connected h => ?_⟩
  · rcases Side.eq_or_peer x h with rfl | rfl
    · exact writes h (watched.parkedR h (parkedR bit))
    · exact writes x.peer (watched.parkedR x.peer (peerR.2 ▸ bit))
  · rcases Side.eq_or_peer x h with rfl | rfl
    · rw [parkedW] at bit
      cases bit
    · exact reads (watched.parkedW x.peer (peerW bit))
  · rcases Side.eq_or_peer x h with rfl | rfl
    · cases watched.token (conn ▸ connected) h with
      | rin bit => exact .rin (peerR.1 ▸ bit)
      | readyR bit => exact .readyR (peerR.2 ▸ bit)
      | win bit => exact .win (back (.inl bit))
      | readyW bit => exact .win (back (.inr bit))
      | reading call => exact .reading (reads call)
      | writing call => exact .writing (writes h call)
    · rcases passed with bit | bit
      · exact .rin ((Side.peer_peer x).symm ▸ bit)
      · exact .win bit

theorem Watched.end_write {point : WritePoint} {rest : List Frame} (watched : Watched s)
    (top : s.stack = .write x p point :: rest) (stack : t.stack = rest)
    (parkedR : (t.half x).readyR = false) (parkedW : (t.half x).readyW → (s.half x).readyW)
    (back : (s.half x).rin ∨ (s.half x).readyR → (t.half x).rin)
    (peerR : (t.half x.peer).readyR → (s.half x.peer).readyR)
    (peerW : (t.half x.peer).win = (s.half x.peer).win ∧ (t.half x.peer).readyW = (s.half x.peer).readyW)
    (passed : (t.half x).win ∨ (t.half x.peer).rin) (conn : t.conn = s.conn) : Watched t := by
  have reads (h : Side) (reading : Reading s h) : Reading t h := reading.pop top stack (by simp)
  have writes (writing : Writing s x.peer) : Writing t x.peer :=
    writing.pop top stack fun q point same => by cases x <;> cases same
  refine ⟨fun h bit => ?_, fun h bit => ?_, fun connected h => ?_⟩
  · rcases Side.eq_or_peer x h with rfl | rfl
    · rw [parkedR] at bit
      cases bit
    · exact writes (watched.parkedR x.peer (peerR bit))
  · rcases Side.eq_or_peer x h with rfl | rfl
    · exact reads h (watched.parkedW h (parkedW bit))
    · exact reads x.peer (watched.parkedW x.peer (peerW.2 ▸ bit))
  · rcases Side.eq_or_peer x h with rfl | rfl
    · rcases passed with bit | bit
      · exact .win bit
      · exact .rin bit
    · cases watched.token (conn ▸ connected) x.peer with
      | rin bit => exact .rin (by rw [Side.peer_peer] at bit ⊢; exact back (.inl bit))
      | readyR bit => exact .rin (by rw [Side.peer_peer] at bit ⊢; exact back (.inr bit))
      | win bit => exact .win (peerW.1 ▸ bit)
      | readyW bit => exact .readyW (peerW.2 ▸ bit)
      | reading call => exact .reading (reads _ call)
      | writing call => exact .writing (writes call)

theorem release_half : ∃ c, (release s x p).half h = { s.half h with count := c } := by
  simp only [release]
  split
  · rcases Side.eq_or_peer x h with rfl | rfl
    · exact ⟨(s.half h).count - 1, by simp⟩
    · exact ⟨(s.half x.peer).count - 1, by simp⟩
  · rcases Side.eq_or_peer x h with rfl | rfl
    · exact ⟨(s.half h).count - 1, by simp⟩
    · exact ⟨(s.half x.peer).count, by simp⟩

theorem firstRead_open (pair : (s.half x).pair = true) (some : 0 < (s.half x.peer).len) :
    firstRead s x = (s.modify x fun y => { y with firstR := false }, ((s.half x.peer).len : Int)) := by
  have nonempty : ¬(s.half x.peer).len = 0 := by omega
  simp [firstRead, pair, nonempty]

/-- A read that brought bytes hands the token to the partner. -/
theorem Watched.read_passed {u : State} {point : ReadPoint} {rest : List Frame} (watched : Watched s)
    (top : s.stack = .read x p point :: rest) (stack : u.stack = rest) (conn : u.conn = s.conn)
    (here : (u.half x).watch = ((s.half x).rin, (s.half x).readyR,
      (s.half x).win || (s.half x).readyW, false))
    (there : (u.half x.peer).watch = (s.half x.peer).watch) :
    Watched (u.modify x.peer Half.setWin) := by
  simp only [Half.watch, Prod.mk.injEq] at here there
  refine watched.end_read top stack ?_ ?_ ?_ ?_ ?_ (.inr ?_) conn
  · simp [here]
  · simp [here]
  · simp [here]
  · simp [there, Half.setWin]
  · simp [Half.setWin]
  · simp [Half.setWin]

theorem asyncRead_watched (inv : Ordered s) (opened : Opened s) (watched : Watched s)
    (before : ∀ h, (s.half h).close = false) (live : ∀ h, (t.half h).close = false)
    (ran : asyncRead s = some t) : Watched t := by
  simp only [asyncRead] at ran
  split at ran
  · rename_i x p value rest top
    obtain ⟨frames, -⟩ := inv.reading top
    obtain ⟨c, here⟩ := release_half (s := { s with stack := rest }) (x := x) (p := p) (h := x)
    obtain ⟨d, there⟩ := release_half (s := { s with stack := rest }) (x := x) (p := p) (h := x.peer)
    have stack : (release { s with stack := rest } x p).stack = rest := release_stack
    have conn : (release { s with stack := rest } x p).conn = s.conn :=
      (congrArg Refs.conn refs_release).trans (Refs.shift_conn (-1))
    generalize release { s with stack := rest } x p = s' at *
    split at ran
    · cases ran
      have closed := doclose_close.symm.trans (live x)
      cases closed
    · have shut : (s'.half x).close = false := by
        rw [here]
        exact before x
      have socket : (s'.half x.peer).sd = true := by
        rw [there]
        exact (opened x.peer (before x.peer)).1
      split at ran
      · rename_i positive
        have ok : (lane s x.peer).FrameOk (.reading (.returned value)) :=
          (inv x.peer).calls _ (by simp [frames])
        have some : 0 < ((s'.modify x Half.leaveRead).half x.peer).len := by
          rw [modify_half_peer, there]
          exact (ok.2 positive).2.2.1
        have pair : ((s'.modify x Half.leaveRead).half x).pair = true := by
          rw [modify_half_self, here]
          exact (opened x (before x)).2
        rw [firstRead_open pair some] at ran
        split at ran
        · rw [if_pos (by simp [socket, shut, Half.leaveRead] at some ⊢; exact some)] at ran
          cases ran
          exact watched.read_passed top stack conn (by simp [Half.watch, Half.leaveRead, here])
            (by simp [Half.watch, there])
        · rw [if_pos (by simp [socket, shut, Half.leaveRead, positive])] at ran
          cases ran
          exact watched.read_passed top stack conn (by simp [Half.watch, Half.leaveRead, here])
            (by simp [Half.watch, there])
      · cases ran
        exact watched.end_read top stack (by simp [Half.setRin]) (by simp [Half.setRin, Half.leaveRead])
          (by simp [Half.setRin, Half.leaveRead, here]) (by simp [there]) (by simp [there])
          (.inl (by simp [Half.setRin])) conn
  · cases ran

theorem asyncWrite_watched (opened : Opened s) (partnered : Partnered s) (watched : Watched s)
    (before : ∀ h, (s.half h).close = false) (live : ∀ h, (t.half h).close = false)
    (ran : asyncWrite s = some t) : Watched t := by
  simp only [asyncWrite] at ran
  split at ran
  · rename_i x p value rest top
    have partner : p = true := partnered (x, p) (by simp [refs, top, Frame.use])
    obtain ⟨c, here⟩ := release_half (s := { s with stack := rest }) (x := x) (p := p) (h := x)
    obtain ⟨d, there⟩ := release_half (s := { s with stack := rest }) (x := x) (p := p) (h := x.peer)
    have stack : (release { s with stack := rest } x p).stack = rest := release_stack
    have conn : (release { s with stack := rest } x p).conn = s.conn :=
      (congrArg Refs.conn refs_release).trans (Refs.shift_conn (-1))
    generalize release { s with stack := rest } x p = s' at *
    split at ran
    · cases ran
      have closed := doclose_close.symm.trans (live x)
      cases closed
    · have shut : (s'.half x).close = false := by
        rw [here]
        exact before x
      have socket : (s'.half x.peer).sd = true := by
        rw [there]
        exact (opened x.peer (before x.peer)).1
      split at ran
      · rw [if_pos (by simp [partner, socket, shut, Half.leaveWrite])] at ran
        cases ran
        exact watched.end_write top stack (by simp [Half.leaveWrite])
          (by simp [Half.leaveWrite, here]) (by simp [Half.leaveWrite, here])
          (by simp [Half.setRin]) (by simp [Half.setRin, there]) (.inr (by simp [Half.setRin])) conn
      · cases ran
        exact watched.end_write top stack (by simp [Half.setWin, Half.leaveWrite])
          (by simp [Half.setWin]) (by simp [Half.setWin, Half.leaveWrite, here]) (by simp [there])
          (by simp [there]) (.inl (by simp [Half.setWin])) conn
  · cases ran

/-! ## Every step -/

theorem Watched.modify {f : Half → Half} (watched : Watched s)
    (same : ∀ y : Half, (f y).watch = y.watch) : Watched (s.modify x f) := by
  refine watched.congr (fun h => ?_) (fun _ reading => reading) (fun _ writing => writing) rfl
  rcases Side.eq_or_peer x h with rfl | rfl
  · rw [modify_half_self, same]
  · rw [modify_half_peer]

theorem scanClose_watched (opened : Opened s) (watched : Watched s)
    (before : ∀ h, (s.half h).close = false) (ran : scanClose s x = some t) : Watched t := by
  simp only [scanClose, before x, (opened x (before x)).1] at ran
  split at ran
  · split at ran
    · cases ran
    · simp only [Bool.not_true, Bool.false_eq_true, if_false] at ran
      split at ran
      · cases ran
        exact watched.modify fun _ => rfl
      · cases ran
        exact watched
  · cases ran

/-- Before the connection no bit is set; afterwards both halves wait to read. -/
theorem finishConn_watched {success : Bool} (connecting : Connecting s)
    (live : ∀ h, (t.half h).close = false) (ran : finishConn s success = some t) : Watched t := by
  simp only [finishConn] at ran
  split at ran
  · rename_i rest top
    have fresh := connecting.calling top
    simp only [(fresh.halves _).closed, (fresh.halves _).len] at ran
    cases ran
    cases success with
    | false =>
      have closed := live .dst
      simp [doclose_close] at closed
    | true =>
      refine ⟨fun h bit => ?_, fun h bit => ?_, fun _ h => .rin ?_⟩
      · cases h <;> simp [State.modify, Half.setRin] at bit
      · cases h <;> simp [State.modify, Half.setRin, (fresh.halves _).readyW] at bit
      · cases h <;> simp [State.modify, Half.setRin, Side.peer]
  · cases ran

/-- The same halves and at least the same calls. -/
theorem Watched.restack {stack : List Frame} (watched : Watched s)
    (reads : ∀ frame ∈ s.stack, frame.use ≠ none → frame ∈ stack) :
    Watched { s with stack := stack } := by
  refine watched.congr (fun _ => rfl) (fun h reading => ?_) (fun h writing => ?_) rfl
  · obtain ⟨p, point, member⟩ := reading
    exact ⟨p, point, reads _ member (by simp [Frame.use])⟩
  · obtain ⟨p, point, member⟩ := writing
    exact ⟨p, point, reads _ member (by simp [Frame.use])⟩

theorem Watched.pop {frame : Frame} {rest : List Frame} (watched : Watched s)
    (top : s.stack = frame :: rest) (other : frame.use = none) :
    Watched { s with stack := rest } := by
  refine watched.restack fun f member used => ?_
  rw [top] at member
  rcases List.mem_cons.mp member with rfl | member
  · exact absurd other used
  · exact member

/-- While the request is pending nothing is put aside. -/
theorem Fresh.watched (fresh : Fresh s) (pending : s.conn ≠ .finished) : Watched s := by
  refine ⟨fun h bit => ?_, fun h bit => ?_, fun connected => absurd connected pending⟩
  · simp [(fresh.halves h).readyR] at bit
  · simp [(fresh.halves h).readyW] at bit

theorem step_watched (inv : Ordered s) (connecting : Connecting s) (opened : Opened s)
    (partnered : Partnered s) (watched : Watched s) (before : ∀ h, (s.half h).close = false)
    (live : ∀ h, (t.half h).close = false) (ran : step s e = some t) : Watched t := by
  by_cases pending : t.conn ≠ .finished
  · exact ((connecting.step ran).fresh pending).watched pending
  cases e with
  | asyncConn =>
    simp only [step, asyncConn] at ran
    split at ran
    · split at ran
      · cases ran
      · cases ran
        exact absurd (by simp) pending
    · cases ran
  | dropConn => exact absurd rfl (connecting.kept ran)
  | retryConn =>
    simp only [step, retryConn] at ran
    split at ran
    · cases ran
      exact absurd (by simp) pending
    · cases ran
  | finishConn success => exact finishConn_watched connecting live ran
  | exception h =>
    simp only [step, exception] at ran
    split at ran
    · cases ran
      have closed := doclose_close.symm.trans (live h)
      cases closed
    · cases ran
  | readable h => exact readable_watched inv watched ran
  | recv answer => exact recv_watched watched ran
  | doread => exact doread_watched watched live ran
  | asyncRead => exact asyncRead_watched inv opened watched before live ran
  | writable h => exact writable_watched inv watched ran
  | send answer => exact send_watched watched ran
  | dowrite => exact dowrite_watched watched ran
  | asyncWrite => exact asyncWrite_watched opened partnered watched before live ran
  | idle h =>
    simp only [step, idle] at ran
    split at ran
    · cases ran
      exact watched.modify fun _ => rfl
    · cases ran
  | scanClose h => exact scanClose_watched opened watched before ran
  | beginOther =>
    simp only [step, beginOther] at ran
    split at ran
    · cases ran
      exact watched.restack fun _ member _ => List.mem_cons_of_mem _ member
    · cases ran
  | endOther =>
    simp only [step, endOther] at ran
    split at ran
    · rename_i top
      cases ran
      exact watched.pop top rfl
    · cases ran
  | sigalrm =>
    simp only [step, sigalrm] at ran
    split at ran
    · cases ran
    · cases ran
    · cases ran
      exact watched.restack fun _ member _ => List.mem_cons_of_mem _ member
  | done =>
    simp only [step, done] at ran
    split at ran
    · rename_i top
      cases ran
      exact watched.pop top rfl
    · cases ran

/-! ## Runs -/

/-- What a plain relay keeps. -/
structure Awake (s : State) : Prop where
  relaying : Relaying (fun _ => false) s
  opened : Opened s
  partnered : Partnered s
  watched : (∀ h, (s.half h).close = false) → Watched s

theorem initial_awake (garbage : Side → List Byte) : Awake (initial (fun _ => false) garbage) := by
  refine ⟨initial_relaying _ _, fun h _ => ?_, fun use member => ?_, fun _ => ?_⟩
  · cases h <;> exact ⟨rfl, rfl⟩
  · cases member
  · exact (initial_fresh _ _).watched (by simp [initial])

theorem Awake.step (inv : Awake s) (ran : step s e = some t) : Awake t := by
  refine ⟨inv.relaying.step (inv.relaying.keeps (fun _ => rfl) e) ran, step_opened inv.opened ran,
    step_partnered inv.opened inv.partnered ran, fun live => ?_⟩
  have before (h : Side) : (s.half h).close = false := by
    by_contra closed
    have later := step_closes ran h (by simpa using closed)
    rw [live h] at later
    cases later
  exact step_watched inv.relaying.ordered inv.relaying.connecting inv.opened inv.partnered
    (inv.watched before) before live ran

/-- A plain relay never stalls: whenever the daemon is back in its main loop with the
connection made and both halves open, each direction has either sent all it has
received and waits to read, or waits to write the rest. -/
theorem relay_never_stalls {garbage : Side → List Byte} {es : List Event} {u : State}
    (ran : run step (initial (fun _ => false) garbage) es = some u) (loop : u.stack = [.repeater])
    (connected : u.conn = .finished) (live : ∀ h, (u.half h).close = false) (h : Side) :
    (u.half h.peer).rin ∧ (u.half h).len = 0 ∧ u.sent h = (u.received h.peer).flatten ∨
      (u.half h).win ∧ u.sent h ++ (u.half h).pending = (u.received h.peer).flatten := by
  have inv : Awake u := run_invariant (fun _ _ _ inv ran => inv.step ran) (initial_awake garbage) ran
  have watched := inv.watched live
  have noReads (x : Side) : ¬Reading u x := by
    rintro ⟨p, point, member⟩
    simp [loop] at member
  have noWrites (x : Side) : ¬Writing u x := by
    rintro ⟨p, point, member⟩
    simp [loop] at member
  have output : (lane u h).output = (u.received h.peer).flatten := by
    rw [Lane.output, inv.relaying.mode]
    rfl
  cases watched.token connected h with
  | rin bit =>
    have drained : (lane u h).Drained := (inv.relaying.ordered h).waiting (.inl bit)
    exact .inl ⟨bit, drained.len, drained.sent.trans output⟩
  | readyR bit => exact absurd (watched.parkedR h.peer bit) (noWrites h.peer)
  | win bit =>
    have loaded : (lane u h).Loaded := (inv.relaying.ordered h).loaded (.inl bit)
    exact .inr ⟨bit, loaded.sent.trans output⟩
  | readyW bit => exact absurd (watched.parkedW h bit) (noReads h)
  | reading call => exact absurd call (noReads h.peer)
  | writing call => exact absurd call (noWrites h)

theorem relay_never_stalls_half_written :
    ∃ u, run step (initial (fun _ => false) fun _ => []) [.asyncConn, .finishConn true, .readable .src,
        .recv (.data [1, 2, 3]), .doread, .sigalrm, .readable .dst, .recv .eintr, .doread, .asyncRead,
        .done, .asyncRead, .writable .dst, .send (.wrote 2), .dowrite, .asyncWrite] = some u ∧
      ((u.half .src).rin ∧ (u.half .dst).len = 0 ∧ u.sent .dst = (u.received .src).flatten ∨
        (u.half .dst).win ∧ u.sent .dst ++ (u.half .dst).pending = (u.received .src).flatten) :=
  exists_run rfl fun _ ran => relay_never_stalls ran (by cases ran; rfl) (by cases ran; rfl)
    (by cases ran; intro h; cases h <;> rfl) .dst

end Fdgw.Stream
