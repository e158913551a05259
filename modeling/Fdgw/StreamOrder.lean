import Fdgw.StreamLanes

/-! Every step keeps both directions in order. For each step there is a lemma on
the lane whose token it moves and one on the lane it leaves alone. -/
namespace Fdgw.Stream
open Base64 Runs

variable {s t : State} {h x : Side} {l : Lane}

@[simp] theorem Side.peer_peer (h : Side) : h.peer.peer = h := by cases h <;> rfl

@[simp] theorem Side.peer_ne (h : Side) : h.peer ≠ h := by cases h <;> simp [Side.peer]

@[simp] theorem Side.ne_peer (h : Side) : h ≠ h.peer := (Side.peer_ne h).symm

theorem Side.eq_or_peer (x h : Side) : h = x ∨ h = x.peer := by
  cases x <;> cases h <;> simp [Side.peer]

/-! ## States and lanes -/

@[simp] theorem modify_half_self (f : Half → Half) : (s.modify h f).half h = f (s.half h) := by
  simp [State.modify]

@[simp] theorem modify_half_peer (f : Half → Half) :
    (s.modify h f).half h.peer = s.half h.peer := by
  simp [State.modify]

@[simp] theorem modify_peer_half (f : Half → Half) : (s.modify h.peer f).half h = s.half h := by
  simp [State.modify]

@[simp] theorem modify_stack (f : Half → Half) : (s.modify h f).stack = s.stack := rfl

@[simp] theorem modify_received (f : Half → Half) : (s.modify h f).received = s.received := rfl

@[simp] theorem modify_sent (f : Half → Half) : (s.modify h f).sent = s.sent := rfl

@[simp] theorem modify_conn (f : Half → Half) : (s.modify h f).conn = s.conn := rfl

/-- The fields of a half that no lane depends on are blanked out. -/
def Half.core (x : Half) : Half :=
  { x with listed := true, sd := true, pair := true, firstW := true, close := true,
           shutdown := true, count := 0, ein := true }

/-- Two states with the same lanes. -/
theorem lane_congr (halves : ∀ y, (t.half y).core = (s.half y).core) (stack : t.stack = s.stack)
    (received : t.received = s.received) (sent : t.sent = s.sent) (h : Side) :
    lane t h = lane s h := by
  have here := halves h
  have there := halves h.peer
  simp only [Half.core, Half.mk.injEq, true_and] at here there
  simp [lane, here, there, stack, received, sent]

theorem lane_modify (f : Half → Half) (same : ∀ y : Half, (f y).core = y.core) (x h : Side) :
    lane (s.modify x f) h = lane s h := by
  refine lane_congr ?_ (modify_stack f) (modify_received f) (modify_sent f) h
  intro y
  rcases Side.eq_or_peer x y with rfl | rfl
  · simp [same]
  · simp

theorem lane_hold : lane (hold s x) h = lane s h := by
  simp only [hold]
  split
  · rw [lane_modify, lane_modify] <;> exact fun _ => rfl
  · rw [lane_modify]
    exact fun _ => rfl

theorem lane_release (p : Bool) : lane (release s x p) h = lane s h := by
  simp only [release]
  split
  · rw [lane_modify, lane_modify] <;> exact fun _ => rfl
  · rw [lane_modify]
    exact fun _ => rfl

/-- Both directions keep their invariant. -/
def Ordered (s : State) : Prop := ∀ h, (lane s h).Inv

theorem Ordered.of_lanes (inv : Ordered s) (same : ∀ h, lane t h = lane s h) : Ordered t :=
  fun h => (same h).symm ▸ inv h

/-- It is enough to look at the direction into a half and at the one out of it. -/
theorem Ordered.of_sides (x : Side) (into : (lane t x).Inv) (out : (lane t x.peer).Inv) :
    Ordered t := by
  intro h
  rcases Side.eq_or_peer x h with rfl | rfl
  · exact into
  · exact out

theorem Ordered.modify (inv : Ordered s) (f : Half → Half) (same : ∀ y : Half, (f y).core = y.core) :
    Ordered (s.modify x f) :=
  inv.of_lanes fun h => lane_modify f same x h

/-- The fields of a half a change of its bits leaves alone. -/
def Half.content (x : Half) : Bool × Bool × Nat × Nat × List Byte :=
  (x.base, x.firstR, x.start, x.len, x.buf)

theorem lane_into (f : Half → Half) (same : ∀ y : Half, (f y).content = y.content) :
    lane (s.modify x f) x = (lane s x).rebit (lane s x).rin (lane s x).readyR
      (f (s.half x)).win (f (s.half x)).readyW (lane s x).frames := by
  have here := same (s.half x)
  simp only [Half.content, Prod.mk.injEq] at here
  simp [lane, Lane.rebit, here]

theorem lane_out (f : Half → Half) (same : ∀ y : Half, (f y).content = y.content) :
    lane (s.modify x f) x.peer = (lane s x.peer).rebit (f (s.half x)).rin (f (s.half x)).readyR
      (lane s x.peer).win (lane s x.peer).readyW (lane s x.peer).frames := by
  have here := same (s.half x)
  simp only [Half.content, Prod.mk.injEq] at here
  simp [lane, Lane.rebit, here]

theorem lane_peer_rin : (lane s x.peer).rin = (s.half x).rin := by simp [lane]

theorem lane_peer_readyR : (lane s x.peer).readyR = (s.half x).readyR := by simp [lane]

/-! ## Closing -/

/-- Taking bits away from a half. -/
theorem Ordered.clear (inv : Ordered s) (f : Half → Half)
    (same : ∀ y : Half, (f y).content = y.content)
    (bits : ∀ y : Half, (f y).rin = false ∧ (f y).readyR = false ∧ (f y).win = false ∧
      (f y).readyW = false) : Ordered (s.modify x f) := by
  refine .of_sides x ?_ ?_
  · rw [lane_into f same]
    exact (inv x).fewer id id (by simp [bits]) (by simp [bits]) (List.Sublist.refl _)
  · rw [lane_out f same]
    exact (inv x.peer).fewer (by simp [bits]) (by simp [bits]) id id (List.Sublist.refl _)

theorem doclose_ordered (inv : Ordered s) : Ordered (doclose s x) := by
  simp only [doclose]
  split
  · exact inv
  · split
    · have cleared := inv.clear (x := x) (fun y => { y.unset with close := true })
        (fun _ => rfl) (fun _ => ⟨rfl, rfl, rfl, rfl⟩)
      split
      · exact cleared.modify _ fun _ => rfl
      · exact cleared
    · exact inv.modify _ fun _ => rfl

theorem scanClose_ordered (inv : Ordered s) (ran : scanClose s x = some t) : Ordered t := by
  simp only [scanClose] at ran
  split at ran
  · split at ran
    · cases ran
    · split at ran
      · cases ran
        split
        · have parted := inv.modify (x := x.peer) (fun p => { p with pair := false }) fun _ => rfl
          exact (doclose_ordered parted).modify _ fun _ => rfl
        · exact inv.modify _ fun _ => rfl
      · split at ran
        · split at ran
          · cases ran
            exact inv.modify _ fun _ => rfl
          · cases ran
            exact inv.clear _ (fun _ => rfl) fun _ => ⟨rfl, rfl, rfl, rfl⟩
        · split at ran
          · cases ran
            exact inv.modify _ fun _ => rfl
          · cases ran
            exact inv
  · cases ran

theorem exception_ordered (inv : Ordered s) (ran : exception s x = some t) : Ordered t := by
  simp only [exception] at ran
  split at ran
  · cases ran
    exact doclose_ordered inv
  · cases ran

theorem idle_ordered (inv : Ordered s) (ran : idle s x = some t) : Ordered t := by
  simp only [idle] at ran
  split at ran
  · cases ran
    exact inv.modify _ fun _ => rfl
  · cases ran

/-! ## Calls on the stack -/

section Frames

variable {p : Bool} {rest : List Frame}

@[simp] theorem on_read_self (point : ReadPoint) : Frame.on x (.read x p point) = none := by
  simp [Frame.on]

@[simp] theorem on_read_peer (point : ReadPoint) :
    Frame.on x.peer (.read x p point) = some (.reading point) := by
  simp [Frame.on]

@[simp] theorem on_write_self (point : WritePoint) :
    Frame.on x (.write x p point) = some (.writing point) := by
  simp [Frame.on]

@[simp] theorem on_write_peer (point : WritePoint) : Frame.on x.peer (.write x p point) = none := by
  simp [Frame.on]

@[simp] theorem on_repeater : Frame.on h .repeater = none := rfl

@[simp] theorem on_connect : Frame.on h .connect = none := rfl

@[simp] theorem on_other : Frame.on h .other = none := rfl

/-- The lane with other calls. -/
theorem lane_stack (stack : List Frame) :
    lane { s with stack := stack } h = (lane s h).rebit (lane s h).rin (lane s h).readyR
      (lane s h).win (lane s h).readyW (stack.filterMap (Frame.on h)) := rfl

/-- A frame that belongs to no direction comes or goes. -/
theorem Ordered.restack (inv : Ordered s) (stack : List Frame) (conn : Conn)
    (same : ∀ h, stack.filterMap (Frame.on h) = s.stack.filterMap (Frame.on h)) :
    Ordered { s with stack := stack, conn := conn } := by
  refine inv.of_lanes fun h => ?_
  simp [lane, same]

theorem asyncConn_ordered (inv : Ordered s) (ran : asyncConn s = some t) : Ordered t := by
  simp only [asyncConn] at ran
  split at ran
  · split at ran
    · cases ran
    · cases ran
      exact inv.restack _ _ fun h => rfl
  · cases ran

theorem dropConn_ordered (inv : Ordered s) (ran : dropConn s = some t) : Ordered t := by
  simp only [dropConn] at ran
  split at ran
  · split at ran
    · cases ran
      exact inv.restack _ _ fun h => rfl
    · cases ran
  · cases ran

theorem retryConn_ordered (inv : Ordered s) (ran : retryConn s = some t) : Ordered t := by
  simp only [retryConn] at ran
  split at ran
  · rename_i top
    cases ran
    exact inv.restack _ _ fun h => by rw [top]; rfl
  · cases ran

theorem sigalrm_ordered (inv : Ordered s) (ran : sigalrm s = some t) : Ordered t := by
  simp only [sigalrm] at ran
  split at ran
  · cases ran
  · cases ran
  · cases ran
    exact inv.restack _ _ fun h => rfl

theorem done_ordered (inv : Ordered s) (ran : done s = some t) : Ordered t := by
  simp only [done] at ran
  split at ran
  · rename_i top
    cases ran
    exact inv.restack _ _ fun h => by rw [top]; rfl
  · cases ran

theorem beginOther_ordered (inv : Ordered s) (ran : beginOther s = some t) : Ordered t := by
  simp only [beginOther] at ran
  split at ran
  · cases ran
    exact inv.restack _ _ fun h => rfl
  · cases ran

theorem endOther_ordered (inv : Ordered s) (ran : endOther s = some t) : Ordered t := by
  simp only [endOther] at ran
  split at ran
  · rename_i top
    cases ran
    exact inv.restack _ _ fun h => by rw [top]; rfl
  · cases ran

/-! ## A call begins -/

@[simp] theorem hold_stack : (hold s x).stack = s.stack := by
  simp only [hold]
  split <;> rfl

theorem readable_ordered (inv : Ordered s) (ran : readable s x = some t) : Ordered t := by
  simp only [readable] at ran
  split at ran
  · rename_i chosen
    cases ran
    have bit : (lane s x.peer).rin = true := by
      simpa [lane] using (Bool.and_eq_true_iff.mp chosen).2
    refine .of_sides x ?_ ?_
    · rw [lane_stack, lane_hold, hold_stack, lane_into Half.enterRead fun _ => rfl,
        List.filterMap_cons_none (on_read_self _)]
      exact (inv x).park_write
    · rw [lane_stack, lane_hold, hold_stack, lane_out Half.enterRead fun _ => rfl,
        List.filterMap_cons_some (on_read_peer _)]
      exact (inv x.peer).begin_read bit
  · cases ran

theorem writable_ordered (inv : Ordered s) (ran : writable s x = some t) : Ordered t := by
  simp only [writable] at ran
  split at ran
  · rename_i chosen
    cases ran
    have bit : (lane s x).win = true := (Bool.and_eq_true_iff.mp chosen).2
    refine .of_sides x ?_ ?_
    · rw [lane_stack, lane_hold, hold_stack, lane_into Half.enterWrite fun _ => rfl,
        List.filterMap_cons_some (on_write_self _)]
      exact (inv x).begin_write bit
    · rw [lane_stack, lane_hold, hold_stack, lane_out Half.enterWrite fun _ => rfl,
        List.filterMap_cons_none (on_write_peer _)]
      have parked := (inv x.peer).park_read
      rw [lane_peer_rin] at parked
      exact parked
  · cases ran

/-! ## Receiving -/

/-- Characters of an unfinished group survive the event: no `recv` is interrupted
while some are kept, and as long as the first bytes are awaited no read leaves
some behind without yielding bytes. Only a direction that decodes is concerned. -/
def Keeps (s : State) : Event → Prop
  | .recv .eintr => ∀ h p rest, s.stack = .read h p .entered :: rest →
      (lane s h.peer).mode = .decode → (lane s h.peer).rest = []
  | .doread => ∀ h p start bytes rest, s.stack = .read h p (.received start (.data bytes)) :: rest →
      (lane s h.peer).mode = .decode → (lane s h.peer).firstR →
        (lane s h.peer).sent = (lane s h.peer).output → (lane s h.peer).rest = []
  | _ => True

/-- A read in progress is the only call in its direction. -/
theorem Ordered.reading (inv : Ordered s) (top : s.stack = .read x p point :: rest) :
    (lane s x.peer).frames = [.reading point] ∧ rest.filterMap (Frame.on x.peer) = [] ∧
      (lane s x).frames = rest.filterMap (Frame.on x) := by
  have out : (lane s x.peer).frames = .reading point :: rest.filterMap (Frame.on x.peer) := by
    change s.stack.filterMap _ = _
    rw [top, List.filterMap_cons_some (on_read_peer point)]
  have alone := ((inv x.peer).alone out).1
  refine ⟨by rw [out, alone], alone, ?_⟩
  change s.stack.filterMap _ = _
  rw [top, List.filterMap_cons_none (on_read_self point)]

theorem prepare_lane (s : State) (x : Side) :
    prepare (s.half x) (s.half x.peer) = (lane s x.peer).prepare := by
  simp only [prepare, Lane.prepare, lane, Side.peer_peer]
  cases (s.half x.peer).base <;> cases (s.half x).base <;> rfl

theorem recv_ordered (inv : Ordered s) (keeps : Keeps s (.recv answer))
    (ran : recv s answer = some t) : Ordered t := by
  simp only [recv] at ran
  split at ran
  · rename_i x p rest top
    obtain ⟨frames, others, into⟩ := inv.reading top
    have drained : (lane s x.peer).Drained := (inv x.peer).calls (.reading .entered) (by simp [frames])
    have prepared := drained.prepared (inv x.peer).full
    rw [← prepare_lane] at prepared
    generalize prepare (s.half x) (s.half x.peer) = place at *
    by_cases partner : (s.half x).pair = true
    · by_cases possible : answer.possible (s.half x).sd place.2.2 = true
      · rw [if_pos partner, if_pos partner, if_pos possible] at ran
        cases ran
        refine .of_sides x ?_ ?_
        · refine (congrArg Lane.Inv ?_).mpr (inv x)
          simp [lane, top]
        · cases answer with
          | data bytes =>
            simp only [Recv.possible, Bool.and_eq_true, decide_eq_true_eq] at possible
            refine (congrArg Lane.Inv ?_).mpr
              ((inv x.peer).recv_data frames possible.1.2 prepared possible.2)
            simp [lane, others, Recv.reads]
          | eof =>
            refine (congrArg Lane.Inv ?_).mpr
              ((inv x.peer).recv_nothing .eof frames prepared (by simp) (by simp))
            simp [lane, others, Recv.reads, overwrite]
          | failed =>
            refine (congrArg Lane.Inv ?_).mpr
              ((inv x.peer).recv_nothing .failed frames prepared (by simp) (by simp))
            simp [lane, others, Recv.reads, overwrite]
          | eintr =>
            refine (congrArg Lane.Inv ?_).mpr
              ((inv x.peer).recv_nothing .eintr frames prepared (by simp)
                (fun _ => keeps x p rest top))
            simp [lane, others, Recv.reads, overwrite]
      · rw [if_pos partner, if_neg possible] at ran
        cases ran
    · by_cases possible : answer.possible (s.half x).sd bufMax = true
      · rw [if_neg partner, if_neg partner, if_pos possible] at ran
        cases ran
        refine .of_sides x ?_ ?_
        · refine (congrArg Lane.Inv ?_).mpr (inv x)
          simp [lane, top]
        · refine (congrArg Lane.Inv ?_).mpr ((inv x.peer).recv_dropped frames
            ((lane s x.peer).received ++ answer.reads) ?_)
          · simp [lane, others]
          · cases answer <;> simp [Recv.reads]
      · rw [if_neg partner, if_neg possible] at ran
        cases ran
  · cases ran

/-- The read in progress goes on to a point its direction allows. -/
theorem Ordered.repoint_read (inv : Ordered s) (top : s.stack = .read x p point :: rest)
    (next : ReadPoint) (ok : (lane s x.peer).FrameOk (.reading next)) :
    Ordered { s with stack := .read x p next :: rest } := by
  obtain ⟨frames, others, into⟩ := inv.reading top
  obtain ⟨-, rin, readyR, win, readyW⟩ := (inv x.peer).alone frames
  refine .of_sides x ?_ ?_
  · refine (congrArg Lane.Inv ?_).mpr (inv x)
    simp [lane, top]
  · rw [lane_stack, List.filterMap_cons_some (on_read_peer next), others]
    exact (inv x.peer).rebit (by simp [Lane.tokens, Lane.rebit, rin, readyR, win, readyW])
      (inv x.peer).waiting (inv x.peer).loaded (by simpa using ok)

@[simp] theorem doclose_stack : (doclose s x).stack = s.stack := by
  simp only [doclose]
  repeat' split
  all_goals rfl

/-- What `doread` converts is the text `recv` has completed in the buffer. -/
theorem convert_lane {start : Nat} {bytes : List Byte} {earlier : List (List Byte)}
    (filled : (lane s x.peer).Filled start bytes earlier) :
    lane (s.modify x.peer (convert (s.half x) (start + bytes.length))) x.peer =
      { lane s x.peer with
        buf := (lane s x.peer).converted ((lane s x.peer).mode.rest earlier ++ bytes)
        len := ((lane s x.peer).mode.produce ((lane s x.peer).mode.rest earlier ++ bytes)).length } := by
  obtain ⟨stored, length⟩ := filled.text
  have empty : (s.half x.peer).start = 0 := filled.empty.1
  have buffer : (lane s x.peer).buf = (s.half x.peer).buf := rfl
  rw [buffer] at stored
  simp only [← stored]
  have taken : ((s.half x.peer).buf.take (start + bytes.length)).length = start + bytes.length := by
    rw [stored, length]
  cases encodes : (s.half x.peer).base <;> cases decodes : (s.half x).base <;>
    simp [lane, convert, Half.pending, Lane.converted, Mode.produce, empty, encodes, decodes, taken]

theorem convert_bits (y z : Half) (stop : Nat) :
    (convert y stop z).base = z.base ∧ (convert y stop z).rin = z.rin ∧
      (convert y stop z).readyR = z.readyR ∧ (convert y stop z).firstR = z.firstR := by
  simp only [convert]
  repeat' split
  all_goals exact ⟨rfl, rfl, rfl, rfl⟩

theorem doread_ordered (inv : Ordered s) (keeps : Keeps s .doread) (ran : doread s = some t) :
    Ordered t := by
  simp only [doread] at ran
  split at ran
  · rename_i x p start answer rest top
    obtain ⟨frames, others, into⟩ := inv.reading top
    have ok := (inv x.peer).calls _ (frames ▸ List.mem_singleton_self _)
    by_cases closed : (s.half x).close = true
    · rw [if_pos closed] at ran
      cases ran
      exact inv.repoint_read top _ ⟨by simp, by simp⟩
    · rw [if_neg closed] at ran
      cases answer with
      | eof =>
        cases ran
        exact inv.repoint_read top _ ⟨by simp, by simp⟩
      | failed =>
        cases ran
        exact (doclose_ordered inv).repoint_read (doclose_stack.trans top) _ ⟨by simp, by simp⟩
      | eintr =>
        cases ran
        exact inv.repoint_read top _ ⟨fun _ => ok, by simp⟩
      | data bytes =>
        cases ran
        obtain ⟨earlier, filled⟩ := ok
        refine .of_sides x ?_ ?_
        · refine (congrArg Lane.Inv ?_).mpr (inv x)
          simp [lane, top, convert_bits]
        · have stored := convert_lane filled
          have value : ((s.modify x.peer (convert (s.half x) (start + bytes.length))).half x.peer).len =
              ((lane s x.peer).mode.produce ((lane s x.peer).mode.rest earlier ++ bytes)).length :=
            congrArg Lane.len stored
          rw [lane_stack, List.filterMap_cons_some (on_read_peer _), others, stored, value]
          refine (inv x.peer).doread filled frames ?_
          intro mode first nothing
          have same : (lane s x.peer).rest =
              (lane s x.peer).mode.keep ((lane s x.peer).mode.rest earlier ++ bytes) := by
            rw [Lane.rest, filled.received, Mode.rest_concat]
          have output : (lane s x.peer).output = (lane s x.peer).sent := by
            rw [Lane.output, filled.received, Mode.output_concat, filled.sent]
            rw [mode] at nothing ⊢
            simp only [Mode.produce, nothing, List.append_nil]
          have none := keeps x p start bytes rest top mode first output.symm
          rw [same, mode] at none
          rw [mode]
          exact none
  · cases ran

@[simp] theorem release_stack : (release s x p).stack = s.stack := by
  simp only [release]
  split <;> rfl

/-- The read in progress ends and its token is given up for now. -/
theorem Ordered.pop_read (inv : Ordered s) (top : s.stack = .read x p point :: rest) :
    Ordered (release { s with stack := rest } x p) := by
  obtain ⟨frames, others, into⟩ := inv.reading top
  refine .of_sides x ?_ ?_
  · rw [lane_release, lane_stack, ← into]
    exact inv x
  · rw [lane_release, lane_stack, others]
    exact (inv x.peer).fewer id id id id (List.nil_sublist _)

theorem lane_unpark_write : lane (s.modify x Half.leaveRead) x =
    (lane s x).rebit (lane s x).rin (lane s x).readyR ((lane s x).win || (lane s x).readyW) false
      (lane s x).frames :=
  lane_into Half.leaveRead fun _ => rfl

theorem lane_leaveRead_out : lane (s.modify x Half.leaveRead) x.peer = lane s x.peer := by
  simp [lane, Half.leaveRead]

theorem lane_setRin_into : lane (s.modify x Half.setRin) x = lane s x := by
  simp [lane, Half.setRin]

theorem lane_setRin_out : lane (s.modify x Half.setRin) x.peer =
    (lane s x.peer).rebit true false (lane s x.peer).win (lane s x.peer).readyW
      (lane s x.peer).frames :=
  lane_out Half.setRin fun _ => rfl

theorem lane_setWin_into : lane (s.modify x Half.setWin) x =
    (lane s x).rebit (lane s x).rin (lane s x).readyR true false (lane s x).frames :=
  lane_into Half.setWin fun _ => rfl

theorem lane_setWin_out : lane (s.modify x Half.setWin) x.peer = lane s x.peer := by
  simp [lane, Half.setWin]

theorem lane_firstR_into : lane (s.modify x fun y => { y with firstR := false }) x = lane s x := by
  simp [lane]

theorem lane_firstR_out : lane (s.modify x fun y => { y with firstR := false }) x.peer =
    { lane s x.peer with firstR := false } := by
  simp [lane]

theorem firstRead_cases (some : 0 < (s.half x.peer).len) :
    firstRead s x = (s.modify x fun y => { y with firstR := false }, ((s.half x.peer).len : Int)) ∨
      firstRead s x = (s, -1) := by
  have nonempty : ¬ (s.half x.peer).len = 0 := by omega
  simp only [firstRead]
  split
  · exact .inl (by simp [nonempty])
  · exact .inr rfl

/-- The end of a read that brought bytes, with or without `first_read` before it. -/
theorem passes_ordered {value len : Int} {u : State} (unparked : Ordered u)
    (before : (lane s x.peer).Inv) (frames : (lane s x.peer).frames = [.reading (.returned value)])
    (positive : 0 < value)
    (out : lane u x.peer = { lane s x.peer with firstR := false, frames := [] })
    (ran : (if 0 < len && (u.half x.peer).sd && !(u.half x).close then
      some (u.modify x.peer Half.setWin) else some u) = some t) : Ordered t := by
  split at ran
  · cases ran
    refine .of_sides x ?_ ?_
    · have same := lane_setWin_out (s := u) (x := x.peer)
      rw [Side.peer_peer] at same
      rw [same]
      exact unparked x
    · rw [lane_setWin_into, out]
      exact before.read_passes frames positive
  · cases ran
    exact unparked

theorem asyncRead_ordered (inv : Ordered s) (ran : asyncRead s = some t) : Ordered t := by
  simp only [asyncRead] at ran
  split at ran
  · rename_i x p value rest top
    obtain ⟨frames, others, into⟩ := inv.reading top
    obtain ⟨-, -, -, -, readyW⟩ := (inv x.peer).alone frames
    have popped := inv.pop_read top
    have laneOut : lane (release { s with stack := rest } x p) x.peer =
        (lane s x.peer).rebit (lane s x.peer).rin (lane s x.peer).readyR (lane s x.peer).win
          (lane s x.peer).readyW [] := by
      rw [lane_release, lane_stack, others]
    generalize release { s with stack := rest } x p = s' at *
    split at ran
    · cases ran
      exact doclose_ordered popped
    · rename_i fine
      have unparked : Ordered (s'.modify x Half.leaveRead) := by
        refine .of_sides x ?_ ?_
        · rw [lane_unpark_write]
          exact (popped x).unpark_write
        · rw [lane_leaveRead_out]
          exact popped x.peer
      have out : lane (s'.modify x Half.leaveRead) x.peer = { lane s x.peer with frames := [] } := by
        rw [lane_leaveRead_out, laneOut]
        rfl
      split at ran
      · rename_i positive
        have ok : (lane s x.peer).FrameOk (.reading (.returned value)) :=
          (inv x.peer).calls _ (by simp [frames])
        obtain ⟨-, -, some, -⟩ := ok.2 positive
        have len : (lane s x.peer).len = ((s'.modify x Half.leaveRead).half x.peer).len :=
          (congrArg Lane.len out).symm
        rw [len] at some
        split at ran
        · rcases firstRead_cases some with first | first
          · rw [first] at ran
            refine passes_ordered (.of_sides x ?_ ?_) (inv x.peer) frames positive ?_ ran
            · rw [lane_firstR_into]
              exact unparked x
            · rw [lane_firstR_out, out]
              have passed := (inv x.peer).read_passes frames positive
              exact passed.fewer id id (fun _ => rfl) (by simp [readyW]) (List.nil_sublist _)
            · rw [lane_firstR_out, out]
          · rw [first] at ran
            have same : s'.modify x Half.leaveRead = t := by simpa using ran
            exact same ▸ unparked
        · rename_i later
          refine passes_ordered unparked (inv x.peer) frames positive ?_ ran
          have same := congrArg Lane.firstR out
          have still : (lane s x.peer).firstR = false := by
            simp only [lane, Side.peer_peer] at same ⊢
            rw [← same]
            simpa using later
          rw [out, ← still]
      · rename_i nothing
        cases ran
        refine .of_sides x ?_ ?_
        · rw [lane_setRin_into]
          exact unparked x
        · rw [lane_setRin_out, out]
          simp only [Bool.or_eq_true, decide_eq_true_eq, not_or] at fine
          have zero : value = 0 := by omega
          subst zero
          exact (inv x.peer).read_again frames
  · cases ran

/-! ## Sending -/

/-- A write in progress is the only call in its direction. -/
theorem Ordered.writing {point : WritePoint} (inv : Ordered s)
    (top : s.stack = .write x p point :: rest) :
    (lane s x).frames = [.writing point] ∧ rest.filterMap (Frame.on x) = [] ∧
      (lane s x.peer).frames = rest.filterMap (Frame.on x.peer) := by
  have into : (lane s x).frames = .writing point :: rest.filterMap (Frame.on x) := by
    change s.stack.filterMap _ = _
    rw [top, List.filterMap_cons_some (on_write_self point)]
  have alone := ((inv x).alone into).1
  refine ⟨by rw [into, alone], alone, ?_⟩
  change s.stack.filterMap _ = _
  rw [top, List.filterMap_cons_none (on_write_peer point)]

theorem Ordered.repoint_write {point : WritePoint} (inv : Ordered s)
    (top : s.stack = .write x p point :: rest) (next : WritePoint)
    (ok : (lane s x).FrameOk (.writing next)) :
    Ordered { s with stack := .write x p next :: rest } := by
  obtain ⟨frames, others, out⟩ := inv.writing top
  obtain ⟨-, rin, readyR, win, readyW⟩ := (inv x).alone frames
  refine .of_sides x ?_ ?_
  · rw [lane_stack, List.filterMap_cons_some (on_write_self next), others]
    exact (inv x).rebit (by simp [Lane.tokens, Lane.rebit, rin, readyR, win, readyW])
      (inv x).waiting (inv x).loaded (by simpa using ok)
  · refine (congrArg Lane.Inv ?_).mpr (inv x.peer)
    simp [lane, top]

theorem send_ordered {answer : Send} (inv : Ordered s) (ran : send s answer = some t) :
    Ordered t := by
  simp only [send] at ran
  split at ran
  · rename_i x p rest top
    obtain ⟨frames, others, out⟩ := inv.writing top
    cases answer with
    | wrote n =>
      simp only at ran
      split at ran
      · rename_i possible
        cases ran
        simp only [Bool.and_eq_true, decide_eq_true_eq] at possible
        refine .of_sides x ?_ ?_
        · refine (congrArg Lane.Inv ?_).mpr ((inv x).send_wrote frames possible.2)
          simp [lane, others, Half.pending, Lane.pending]
        · refine (congrArg Lane.Inv ?_).mpr (inv x.peer)
          simp [lane, top]
      · cases ran
    | eintr =>
      cases ran
      refine .of_sides x ?_ ?_
      · refine (congrArg Lane.Inv ?_).mpr ((inv x).send_nothing .eintr frames (by simp))
        simp [lane, Lane.rebit, others]
      · refine (congrArg Lane.Inv ?_).mpr (inv x.peer)
        simp [lane, top]
    | failed =>
      cases ran
      refine .of_sides x ?_ ?_
      · refine (congrArg Lane.Inv ?_).mpr ((inv x).send_nothing .failed frames (by simp))
        simp [lane, Lane.rebit, others]
      · refine (congrArg Lane.Inv ?_).mpr (inv x.peer)
        simp [lane, top]
  · cases ran

theorem dowrite_ordered (inv : Ordered s) (ran : dowrite s = some t) : Ordered t := by
  simp only [dowrite] at ran
  split at ran
  · rename_i x p answer rest top
    obtain ⟨frames, others, out⟩ := inv.writing top
    have ok := (inv x).calls _ (frames ▸ List.mem_singleton_self _)
    by_cases closed : (s.half x).close = true
    · rw [if_pos closed] at ran
      cases ran
      exact inv.repoint_write top _ (by simp [Lane.FrameOk])
    · rw [if_neg closed] at ran
      cases answer with
      | eintr =>
        cases ran
        exact inv.repoint_write top _ fun _ => ok
      | failed =>
        cases ran
        exact inv.repoint_write top _ (by simp [Lane.FrameOk])
      | wrote n =>
        cases ran
        refine .of_sides x ?_ ?_
        · refine (congrArg Lane.Inv ?_).mpr ((inv x).dowrite frames)
          simp only [lane, modify_half_self, modify_half_peer]
          rw [List.filterMap_cons_some (on_write_self _), others]
          rfl
        · refine (congrArg Lane.Inv ?_).mpr (inv x.peer)
          simp [lane, top]
  · cases ran

theorem Ordered.pop_write {point : WritePoint} (inv : Ordered s)
    (top : s.stack = .write x p point :: rest) : Ordered (release { s with stack := rest } x p) := by
  obtain ⟨frames, others, out⟩ := inv.writing top
  refine .of_sides x ?_ ?_
  · rw [lane_release, lane_stack, others]
    exact (inv x).fewer id id id id (List.nil_sublist _)
  · rw [lane_release, lane_stack, ← out]
    exact inv x.peer

theorem lane_leaveWrite_into : lane (s.modify x Half.leaveWrite) x = lane s x := by
  simp [lane, Half.leaveWrite]

theorem lane_unpark_read : lane (s.modify x Half.leaveWrite) x.peer =
    (lane s x.peer).rebit ((lane s x.peer).rin || (lane s x.peer).readyR) false
      (lane s x.peer).win (lane s x.peer).readyW (lane s x.peer).frames := by
  rw [lane_peer_rin, lane_peer_readyR]
  exact lane_out Half.leaveWrite fun _ => rfl

theorem lane_firstW : lane (s.modify x fun y => { y with firstW := false }) h = lane s h := by
  rw [lane_modify]
  exact fun _ => rfl

theorem asyncWrite_ordered (inv : Ordered s) (ran : asyncWrite s = some t) : Ordered t := by
  simp only [asyncWrite] at ran
  split at ran
  · rename_i x p value rest top
    obtain ⟨frames, others, out⟩ := inv.writing top
    have popped := inv.pop_write top
    have laneInto : lane (release { s with stack := rest } x p) x = { lane s x with frames := [] } := by
      rw [lane_release, lane_stack, others]
      rfl
    generalize release { s with stack := rest } x p = s' at *
    split at ran
    · cases ran
      split
      · exact doclose_ordered (doclose_ordered popped)
      · exact doclose_ordered popped
    · rename_i fine
      simp only [Bool.or_eq_true, decide_eq_true_eq, not_or] at fine
      have unparked : Ordered (s'.modify x Half.leaveWrite) := by
        refine .of_sides x ?_ ?_
        · rw [lane_leaveWrite_into]
          exact popped x
        · rw [lane_unpark_read]
          exact (popped x.peer).unpark_read
      have into : lane (s'.modify x Half.leaveWrite) x = { lane s x with frames := [] } := by
        rw [lane_leaveWrite_into, laneInto]
      split at ran
      · rename_i empty
        have none : (lane s x).len = 0 := (congrArg Lane.len into).symm.trans empty
        have passed := unparked.modify (x := x) (fun y => { y with firstW := false }) fun _ => rfl
        split at ran
        · cases ran
          refine .of_sides x ?_ ?_
          · have same := lane_setRin_out (s := (s'.modify x Half.leaveWrite).modify x fun y =>
              { y with firstW := false }) (x := x.peer)
            rw [Side.peer_peer, lane_firstW, into] at same
            rw [same]
            exact (inv x).write_passes frames (by omega) none
          · rw [lane_setRin_into]
            exact passed x.peer
        · cases ran
          exact passed
      · cases ran
        refine .of_sides x ?_ ?_
        · rw [lane_setWin_into, into]
          exact (inv x).write_again frames (by omega)
        · rw [lane_setWin_out]
          exact unparked x.peer
  · cases ran

end Frames

end Fdgw.Stream
