import Fdgw.Stream
import Mathlib.Data.List.GetD

/-!
One direction of a relayed connection: what is received on one half waits in the
buffer of the other half and is sent from there. The right to touch the buffer
is a token that is in one place at a time: the reader's bit in the read set, the
reader's saved bit, an `asyncRead` in progress, the writer's bit in the write
set, its saved bit, or an `asyncWrite` in progress. Nested passes of `repeater`
hand the token on but never copy it, and that keeps the bytes in order.
-/
namespace Fdgw.Stream
open Base64

/-! ## What a direction does to the bytes -/

inductive Mode where
  | plain
  | encode
  | decode
  deriving DecidableEq, Repr

/-- What one read makes of the kept characters and the new bytes. -/
def Mode.produce : Mode → List Byte → List Byte
  | .plain, text => text
  | .encode, text => baseEncode text
  | .decode, text => (baseDecode text).out

/-- What it keeps for the next read. -/
def Mode.keep : Mode → List Byte → List Byte
  | .decode, text => (baseDecode text).held
  | _, _ => []

/-- The characters kept after all these reads. -/
def Mode.rest : Mode → List (List Byte) → List Byte
  | .decode, reads => (baseDecode reads.flatten).held
  | _, _ => []

/-- The bytes to be sent for all these reads. -/
def Mode.output : Mode → List (List Byte) → List Byte
  | .plain, reads => reads.flatten
  | .encode, reads => reads.flatMap baseEncode
  | .decode, reads => (baseDecode reads.flatten).out

theorem Mode.output_concat (m : Mode) (reads : List (List Byte)) (bytes : List Byte) :
    m.output (reads ++ [bytes]) = m.output reads ++ m.produce (m.rest reads ++ bytes) := by
  cases m with
  | plain => simp [Mode.output, Mode.produce, Mode.rest]
  | encode => simp [Mode.output, Mode.produce, Mode.rest]
  | decode =>
    simp only [Mode.output, Mode.produce, Mode.rest, List.flatten_append, List.flatten_singleton]
    rw [baseDecode_append]

theorem Mode.rest_concat (m : Mode) (reads : List (List Byte)) (bytes : List Byte) :
    m.rest (reads ++ [bytes]) = m.keep (m.rest reads ++ bytes) := by
  cases m with
  | plain => rfl
  | encode => rfl
  | decode =>
    simp only [Mode.rest, Mode.keep, List.flatten_append, List.flatten_singleton]
    rw [baseDecode_append]

theorem Mode.output_grows (m : Mode) (reads : List (List Byte)) (bytes : List Byte) :
    m.output reads <+: m.output (reads ++ [bytes]) := by
  rw [m.output_concat]
  exact List.prefix_append _ _

theorem Mode.rest_short (m : Mode) (reads : List (List Byte)) : (m.rest reads).length < 4 := by
  cases m with
  | plain => simp [Mode.rest]
  | encode => simp [Mode.rest]
  | decode => exact (baseDecode_unfinished _).1

/-- The bytes one read may leave in the buffer before they are converted. -/
def Mode.Fits : Mode → Nat → Prop
  | .plain, n => n ≤ bufMax
  | .encode, n => n ≤ (bufMax - 1) / 4 * 3
  | .decode, n => n + 5 ≤ bufMax

/-! ## Buffers -/

theorem overwrite_length {buf bytes : List Byte} {i : Nat} (fits : i + bytes.length ≤ buf.length) :
    (overwrite buf i bytes).length = buf.length := by
  simp only [overwrite, List.length_append, List.length_take, List.length_drop]
  omega

/-- Reading back what was stored, together with what stands in front of it. -/
theorem take_overwrite {buf bytes : List Byte} {i : Nat} (fits : i ≤ buf.length) :
    (overwrite buf i bytes).take (i + bytes.length) = buf.take i ++ bytes := by
  have front : (buf.take i ++ bytes).length = i + bytes.length := by
    rw [List.length_append, List.length_take, min_eq_left fits]
  rw [overwrite, ← front, List.take_left]

theorem take_overwrite_zero (buf bytes : List Byte) :
    (overwrite buf 0 bytes).take bytes.length = bytes := by
  simpa using take_overwrite (Nat.zero_le buf.length)

/-- What stands in front of the stored bytes is untouched. -/
theorem take_overwrite_front {buf bytes : List Byte} {i n : Nat} (fits : i ≤ buf.length)
    (front : n ≤ i) : (overwrite buf i bytes).take n = buf.take n := by
  rw [overwrite, List.append_assoc, List.take_append_of_le_length (by rw [List.length_take]; omega),
    List.take_take, min_eq_left front]

theorem carried_carry {buf held : List Byte} (full : buf.length = bufMax) (short : held.length < 4) :
    carried (carry buf held) = held := by
  have count : (BitVec.ofNat 8 held.length).toNat = held.length := by
    simp only [BitVec.toNat_ofNat]
    omega
  have fits : bufMax - 1 - held.length + (held.reverse ++ [BitVec.ofNat 8 held.length]).length =
      buf.length := by
    simp only [List.length_append, List.length_reverse, List.length_singleton, full, bufMax]
    omega
  have whole : carry buf held = buf.take (bufMax - 1 - held.length) ++
      (held.reverse ++ [BitVec.ofNat 8 held.length]) := by
    rw [carry, overwrite, fits, List.drop_length, List.append_nil]
  have front : (buf.take (bufMax - 1 - held.length)).length = bufMax - 1 - held.length := by
    rw [List.length_take, full]
    simp only [bufMax]
    omega
  have last : (carry buf held).getD (bufMax - 1) 0 = BitVec.ofNat 8 held.length := by
    rw [whole, List.getD_append_right _ _ _ _ (by rw [front]; omega), front,
      List.getD_append_right _ _ _ _ (by rw [List.length_reverse]; simp only [bufMax]; omega)]
    have zero : bufMax - 1 - (bufMax - 1 - held.length) - held.reverse.length = 0 := by
      rw [List.length_reverse]
      simp only [bufMax]
      omega
    rw [zero]
    rfl
  simp only [carried, last, count]
  rw [whole, List.drop_left' front, List.take_left' (List.length_reverse ..), List.reverse_reverse]

/-! ## Lanes -/

inductive LaneFrame where
  | reading (point : ReadPoint)
  | writing (point : WritePoint)
  deriving DecidableEq, Repr

def Frame.on (h : Side) : Frame → Option LaneFrame
  | .read r _ point => if r = h.peer then some (.reading point) else none
  | .write w _ point => if w = h then some (.writing point) else none
  | _ => none

/-- Everything the direction into `h` depends on: the reader's bits and the calls
in progress, the writer's bits, the buffer, and the history. -/
structure Lane where
  mode : Mode
  rin : Bool
  readyR : Bool
  firstR : Bool
  win : Bool
  readyW : Bool
  frames : List LaneFrame
  start : Nat
  len : Nat
  buf : List Byte
  received : List (List Byte)
  sent : List Byte

def lane (s : State) (h : Side) : Lane where
  mode := if (s.half h).base then .encode else if (s.half h.peer).base then .decode else .plain
  rin := (s.half h.peer).rin
  readyR := (s.half h.peer).readyR
  firstR := (s.half h.peer).firstR
  win := (s.half h).win
  readyW := (s.half h).readyW
  frames := s.stack.filterMap (Frame.on h)
  start := (s.half h).start
  len := (s.half h).len
  buf := (s.half h).buf
  received := s.received h.peer
  sent := s.sent h

namespace Lane

def tokens (l : Lane) : Nat :=
  l.rin.toNat + l.readyR.toNat + l.win.toNat + l.readyW.toNat + l.frames.length

def pending (l : Lane) : List Byte := (l.buf.drop l.start).take l.len

def output (l : Lane) : List Byte := l.mode.output l.received

def rest (l : Lane) : List Byte := l.mode.rest l.received

/-- A decoder finds the characters it left behind. -/
def Kept (l : Lane) : Prop :=
  l.mode = .decode → if l.firstR then l.rest = [] else carried l.buf = l.rest

/-- The buffer is empty and everything received has been sent. -/
structure Drained (l : Lane) : Prop where
  start : l.start = 0
  len : l.len = 0
  sent : l.sent = l.output
  kept : l.Kept

/-- The buffer holds what is still to be sent. -/
structure Loaded (l : Lane) : Prop where
  sent : l.sent ++ l.pending = l.output
  start : l.len = 0 → l.start = 0
  kept : l.Kept

/-- `recv` has filled the buffer behind the kept characters. -/
structure Filled (l : Lane) (start : Nat) (bytes : List Byte) (earlier : List (List Byte)) : Prop where
  received : l.received = earlier ++ [bytes]
  some : bytes ≠ []
  empty : l.start = 0 ∧ l.len = 0
  sent : l.sent = l.mode.output earlier
  behind : start = (l.mode.rest earlier).length
  stored : l.buf.take (start + bytes.length) = l.mode.rest earlier ++ bytes
  fits : l.mode.Fits (start + bytes.length)

def FrameOk (l : Lane) : LaneFrame → Prop
  | .reading .entered => l.Drained
  | .reading (.received start (.data bytes)) => ∃ earlier, l.Filled start bytes earlier
  | .reading (.received _ .eintr) => l.Drained
  | .reading (.received _ _) => True
  | .reading (.returned value) => (value = 0 → l.Drained) ∧ (0 < value →
      l.sent ++ l.pending = l.output ∧ l.start = 0 ∧ 0 < l.len ∧
        (l.mode = .decode → carried l.buf = l.rest))
  | .writing .entered => l.Loaded
  | .writing (.sent (.wrote n)) => n ≤ l.len ∧ l.sent ++ l.pending.drop n = l.output ∧ l.Kept ∧
      (l.len = 0 → l.start = 0)
  | .writing (.sent .eintr) => l.Loaded
  | .writing (.sent .failed) => True
  | .writing (.returned value) => 0 ≤ value → l.Loaded

structure Inv (l : Lane) : Prop where
  single : l.tokens ≤ 1
  full : l.buf.length = bufMax
  room : l.start + l.len ≤ bufMax
  waiting : l.rin ∨ l.readyR → l.Drained
  loaded : l.win ∨ l.readyW → l.Loaded
  calls : ∀ frame ∈ l.frames, l.FrameOk frame
  ahead : l.sent <+: l.output

/-! ## Moving the token -/

variable {l : Lane} {a b c d : Bool} {fs : List LaneFrame} {frame : LaneFrame}

/-- The lane with other bits and calls. -/
def rebit (l : Lane) (rin readyR win readyW : Bool) (frames : List LaneFrame) : Lane :=
  { l with rin := rin, readyR := readyR, win := win, readyW := readyW, frames := frames }

theorem Drained.rebit (drained : l.Drained) : (l.rebit a b c d fs).Drained :=
  ⟨drained.start, drained.len, drained.sent, drained.kept⟩

theorem Loaded.rebit (loaded : l.Loaded) : (l.rebit a b c d fs).Loaded :=
  ⟨loaded.sent, loaded.start, loaded.kept⟩

theorem FrameOk.rebit (ok : l.FrameOk frame) :
    (l.rebit a b c d fs).FrameOk frame := by
  rcases frame with (_ | ⟨start, answer⟩ | value) | (_ | answer | value)
  · exact Drained.rebit ok
  · cases answer with
    | data bytes =>
      obtain ⟨earlier, filled⟩ := ok
      exact ⟨earlier, filled.received, filled.some, filled.empty, filled.sent, filled.behind,
        filled.stored, filled.fits⟩
    | eof => trivial
    | eintr => exact Drained.rebit ok
    | failed => trivial
  · exact ⟨fun zero => (ok.1 zero).rebit, ok.2⟩
  · exact Loaded.rebit ok
  · cases answer with
    | wrote n => exact ok
    | eintr => exact Loaded.rebit ok
    | failed => trivial
  · exact fun some => (ok some).rebit

/-- Moving the token: the new place has to be justified by the contents. -/
theorem Inv.rebit (inv : l.Inv) (single : (l.rebit a b c d fs).tokens ≤ 1)
    (waiting : a ∨ b → l.Drained) (loaded : c ∨ d → l.Loaded)
    (calls : ∀ frame ∈ fs, l.FrameOk frame) : (l.rebit a b c d fs).Inv :=
  ⟨single, inv.full, inv.room, fun bit => (waiting bit).rebit, fun bit => (loaded bit).rebit,
    fun frame member => (calls frame member).rebit, inv.ahead⟩

/-- Losing bits is always fine. -/
theorem Inv.fewer (inv : l.Inv) (rin : a → l.rin) (readyR : b → l.readyR) (win : c → l.win)
    (readyW : d → l.readyW) (frames : fs.Sublist l.frames) : (l.rebit a b c d fs).Inv := by
  apply inv.rebit
  · have single := inv.single
    have fewer := frames.length_le
    have first := Bool.toNat_le_toNat (Bool.le_iff_imp.mpr rin)
    have second := Bool.toNat_le_toNat (Bool.le_iff_imp.mpr readyR)
    have third := Bool.toNat_le_toNat (Bool.le_iff_imp.mpr win)
    have fourth := Bool.toNat_le_toNat (Bool.le_iff_imp.mpr readyW)
    simp only [tokens, Lane.rebit] at single ⊢
    omega
  · exact fun bit => inv.waiting (bit.imp rin readyR)
  · exact fun bit => inv.loaded (bit.imp win readyW)
  · exact fun frame member => inv.calls frame (frames.subset member)

/-- The write bit is put aside; a bit put aside before is gone. -/
theorem Inv.park_write (inv : l.Inv) : (l.rebit l.rin l.readyR false l.win l.frames).Inv := by
  refine inv.rebit ?_ inv.waiting (fun bit => inv.loaded (.inl (by simpa using bit))) inv.calls
  have single := inv.single
  simp only [tokens, Lane.rebit, Bool.toNat_false] at single ⊢
  omega

theorem Inv.park_read (inv : l.Inv) : (l.rebit false l.rin l.win l.readyW l.frames).Inv := by
  refine inv.rebit ?_ (fun bit => inv.waiting (.inl (by simpa using bit))) inv.loaded inv.calls
  have single := inv.single
  simp only [tokens, Lane.rebit, Bool.toNat_false] at single ⊢
  omega

theorem Inv.begin_read (inv : l.Inv) (bit : l.rin = true) :
    (l.rebit false false l.win l.readyW (.reading .entered :: l.frames)).Inv := by
  refine inv.rebit ?_ (by simp) inv.loaded ?_
  · have single := inv.single
    simp only [tokens, Lane.rebit, bit, Bool.toNat_false, Bool.toNat_true,
      List.length_cons] at single ⊢
    omega
  · exact List.forall_mem_cons.mpr ⟨inv.waiting (.inl bit), inv.calls⟩

theorem Inv.begin_write (inv : l.Inv) (bit : l.win = true) :
    (l.rebit l.rin l.readyR false false (.writing .entered :: l.frames)).Inv := by
  refine inv.rebit ?_ inv.waiting (by simp) ?_
  · have single := inv.single
    simp only [tokens, Lane.rebit, bit, Bool.toNat_false, Bool.toNat_true,
      List.length_cons] at single ⊢
    omega
  · exact List.forall_mem_cons.mpr ⟨inv.loaded (.inl bit), inv.calls⟩

theorem Inv.unpark_write (inv : l.Inv) :
    (l.rebit l.rin l.readyR (l.win || l.readyW) false l.frames).Inv := by
  refine inv.rebit ?_ inv.waiting (fun bit => inv.loaded (by simpa using bit)) inv.calls
  have single := inv.single
  have either : (l.win || l.readyW).toNat ≤ l.win.toNat + l.readyW.toNat := by
    cases l.win <;> simp
  simp only [tokens, Lane.rebit, Bool.toNat_false] at single ⊢
  omega

theorem Inv.unpark_read (inv : l.Inv) :
    (l.rebit (l.rin || l.readyR) false l.win l.readyW l.frames).Inv := by
  refine inv.rebit ?_ (fun bit => inv.waiting (by simpa using bit)) inv.loaded inv.calls
  have single := inv.single
  have either : (l.rin || l.readyR).toNat ≤ l.rin.toNat + l.readyR.toNat := by
    cases l.rin <;> simp
  simp only [tokens, Lane.rebit, Bool.toNat_false] at single ⊢
  omega

/-- A call in progress is the only token. -/
theorem Inv.alone (inv : l.Inv) (top : l.frames = frame :: fs) :
    fs = [] ∧ l.rin = false ∧ l.readyR = false ∧ l.win = false ∧ l.readyW = false := by
  have single := inv.single
  simp only [tokens, top, List.length_cons] at single
  refine ⟨List.length_eq_zero_iff.mp (by omega), ?_, ?_, ?_, ?_⟩
  · cases bit : l.rin
    · rfl
    · simp only [bit, Bool.toNat_true] at single
      omega
  · cases bit : l.readyR
    · rfl
    · simp only [bit, Bool.toNat_true] at single
      omega
  · cases bit : l.win
    · rfl
    · simp only [bit, Bool.toNat_true] at single
      omega
  · cases bit : l.readyW
    · rfl
    · simp only [bit, Bool.toNat_true] at single
      omega

/-! ### Receiving -/

/-- The part of `doread` before `recv`, seen from the lane. -/
def prepare (l : Lane) : List Byte × Nat × Nat :=
  match l.mode with
  | .plain => (l.buf, l.start, bufMax - l.start)
  | .encode => (l.buf, l.start, (bufMax - l.start - 1) / 4 * 3)
  | .decode =>
    let kept := if l.firstR then [] else carried l.buf
    (overwrite (overwrite l.buf l.start kept) (bufMax - 1) [0], l.start + kept.length,
      bufMax - l.start - kept.length - 5)

theorem rest_plain (mode : l.mode = .plain) : l.rest = [] := by rw [rest, mode]; rfl

theorem rest_encode (mode : l.mode = .encode) : l.rest = [] := by rw [rest, mode]; rfl

/-- With an empty buffer the kept characters end up in front of the place `recv`
is given, and the room it is given fits. -/
structure Prepared (l : Lane) (buf : List Byte) (start room : Nat) : Prop where
  full : buf.length = bufMax
  behind : start = l.rest.length
  front : buf.take start = l.rest
  fits : ∀ n ≤ room, l.mode.Fits (start + n) ∧ start + n ≤ bufMax
  cleared : l.mode = .decode → carried buf = []

theorem Drained.prepared (drained : l.Drained) (full : l.buf.length = bufMax) :
    l.Prepared l.prepare.1 l.prepare.2.1 l.prepare.2.2 := by
  unfold prepare
  cases mode : l.mode with
  | plain =>
    simp only [drained.start]
    refine ⟨full, by simp [rest_plain mode], by simp [rest_plain mode], ?_, by simp [mode]⟩
    intro n small
    rw [mode]
    simp only [Mode.Fits]
    omega
  | encode =>
    simp only [drained.start]
    refine ⟨full, by simp [rest_encode mode], by simp [rest_encode mode], ?_, by simp [mode]⟩
    intro n small
    rw [mode]
    simp only [Mode.Fits, bufMax] at small ⊢
    omega
  | decode =>
    simp only [drained.start, Nat.zero_add, Nat.sub_zero]
    have kept : (if l.firstR then [] else carried l.buf) = l.rest := by
      have found := drained.kept mode
      split at found
      · rename_i first
        rw [if_pos first, found]
      · rename_i later
        rw [if_neg later, found]
    have short : l.rest.length < 4 := l.mode.rest_short l.received
    have inside : (overwrite l.buf 0 l.rest).length = bufMax := by
      rw [overwrite_length (by rw [full]; simp only [bufMax]; omega), full]
    rw [kept]
    refine ⟨?_, rfl, ?_, ?_, ?_⟩
    · rw [overwrite_length (by rw [inside]; simp [bufMax]), inside]
    · rw [take_overwrite_front (by rw [inside]; simp [bufMax]) (by simp only [bufMax]; omega)]
      exact take_overwrite_zero l.buf l.rest
    · intro n small
      rw [mode]
      simp only [Mode.Fits, bufMax] at small ⊢
      omega
    · intro _
      have zeroed : carried (carry (overwrite l.buf 0 l.rest) []) = [] :=
        carried_carry inside (by simp)
      simpa [carry] using zeroed

section Reading

variable {bytes buf : List Byte} {start room : Nat} {earlier : List (List Byte)}

/-- `recv` delivers bytes. -/
theorem Inv.recv_data (inv : l.Inv) (top : l.frames = [.reading .entered]) (some : bytes ≠ [])
    (prepared : l.Prepared buf start room) (small : bytes.length ≤ room) :
    Inv { l with
      rin := false, buf := overwrite buf start bytes, received := l.received ++ [bytes],
      frames := [.reading (.received start (.data bytes))] } := by
  obtain ⟨-, rin, readyR, win, readyW⟩ := inv.alone top
  have drained : l.Drained := inv.calls (.reading .entered) (by simp [top])
  have fits := (prepared.fits _ small).2
  have inside : start ≤ buf.length := by rw [prepared.full]; omega
  refine ⟨by simp [tokens, readyR, win, readyW], ?_, inv.room, by simp [readyR],
    by simp [win, readyW], ?_, inv.ahead.trans (l.mode.output_grows _ _)⟩
  · rw [← prepared.full]
    exact overwrite_length (by rw [prepared.full]; exact fits)
  · simp only [List.mem_singleton, forall_eq]
    refine ⟨l.received, rfl, some, ⟨drained.start, drained.len⟩, drained.sent, prepared.behind, ?_,
      (prepared.fits _ small).1⟩
    rw [take_overwrite inside, prepared.front]
    rfl

/-- `recv` delivers nothing; when it was interrupted, no kept characters may have
been in front of it. -/
theorem Inv.recv_nothing (answer : Recv) (inv : l.Inv) (top : l.frames = [.reading .entered])
    (prepared : l.Prepared buf start room) (nothing : ∀ bytes, answer ≠ .data bytes)
    (keeps : answer = .eintr → l.mode = .decode → l.rest = []) :
    Inv { l with rin := false, buf := buf, frames := [.reading (.received start answer)] } := by
  obtain ⟨-, rin, readyR, win, readyW⟩ := inv.alone top
  have drained : l.Drained := inv.calls (.reading .entered) (by simp [top])
  refine ⟨by simp [tokens, readyR, win, readyW], prepared.full, inv.room, by simp [readyR],
    by simp [win, readyW], ?_, inv.ahead⟩
  simp only [List.mem_singleton, forall_eq]
  cases answer with
  | data bytes => exact absurd rfl (nothing bytes)
  | eof => trivial
  | failed => trivial
  | eintr =>
    refine ⟨drained.start, drained.len, drained.sent, ?_⟩
    intro mode
    have none := keeps rfl mode
    split
    · exact none
    · exact (prepared.cleared mode).trans none.symm

/-- A half without a partner throws away what it reads. -/
theorem Inv.recv_dropped (inv : l.Inv) (top : l.frames = [.reading .entered])
    (reads : List (List Byte)) (more : reads = l.received ∨ ∃ bytes, reads = l.received ++ [bytes]) :
    Inv { l with rin := false, received := reads, frames := [.reading (.returned (-1))] } := by
  obtain ⟨-, rin, readyR, win, readyW⟩ := inv.alone top
  refine ⟨by simp [tokens, readyR, win, readyW], inv.full, inv.room, by simp [readyR],
    by simp [win, readyW], ?_, ?_⟩
  · simp only [List.mem_singleton, forall_eq]
    exact ⟨by simp, by simp⟩
  · rcases more with rfl | ⟨bytes, rfl⟩
    · exact inv.ahead
    · exact inv.ahead.trans (l.mode.output_grows _ _)

/-- The buffer after `doread` has converted `text`, seen from the lane. -/
def converted (l : Lane) (text : List Byte) : List Byte :=
  match l.mode with
  | .plain => l.buf
  | .encode => overwrite l.buf l.start (baseEncode text)
  | .decode => carry (overwrite l.buf l.start (baseDecode text).out) (baseDecode text).held

structure Converted (l : Lane) (text buf : List Byte) : Prop where
  full : buf.length = bufMax
  stored : buf.take (l.mode.produce text).length = l.mode.produce text
  fits : (l.mode.produce text).length ≤ bufMax
  kept : l.mode = .decode → carried buf = l.mode.keep text

theorem Filled.text (filled : l.Filled start bytes earlier) :
    l.buf.take (start + bytes.length) = l.mode.rest earlier ++ bytes ∧
      (l.mode.rest earlier ++ bytes).length = start + bytes.length :=
  ⟨filled.stored, by rw [List.length_append, filled.behind]⟩

theorem Filled.converted (filled : l.Filled start bytes earlier) (full : l.buf.length = bufMax) :
    l.Converted (l.mode.rest earlier ++ bytes) (l.converted (l.mode.rest earlier ++ bytes)) := by
  obtain ⟨stored, length⟩ := filled.text
  have fits := filled.fits
  have some : 0 < bytes.length := List.length_pos_iff.mpr filled.some
  generalize l.mode.rest earlier ++ bytes = text at *
  unfold Lane.converted
  cases mode : l.mode with
  | plain =>
    simp only [mode, Mode.Fits] at fits
    refine ⟨full, ?_, ?_, by simp [mode]⟩
    · simpa [mode, Mode.produce, length] using stored
    · simpa [mode, Mode.produce, length] using fits
  | encode =>
    simp only [mode, Mode.Fits] at fits
    have encoded : (baseEncode text).length ≤ bufMax :=
      baseEncode_fits (by omega) (by omega)
    simp only [filled.empty.1]
    refine ⟨?_, ?_, by simpa [mode, Mode.produce] using encoded, by simp [mode]⟩
    · rw [overwrite_length (by omega), full]
    · simpa [mode, Mode.produce] using take_overwrite_zero l.buf (baseEncode text)
  | decode =>
    simp only [mode, Mode.Fits] at fits
    have shrunk := baseDecode_length text
    have short := (baseDecode_unfinished text).1
    simp only [filled.empty.1]
    have inside : (overwrite l.buf 0 (baseDecode text).out).length = bufMax := by
      rw [overwrite_length (by omega), full]
    have behind : bufMax - 1 - (baseDecode text).held.length ≤
        (overwrite l.buf 0 (baseDecode text).out).length := by omega
    refine ⟨?_, ?_, ?_, fun _ => ?_⟩
    · rw [carry, overwrite_length, inside]
      simp only [List.length_append, List.length_reverse, List.length_singleton, inside]
      simp only [bufMax] at short ⊢
      omega
    · simp only [mode, Mode.produce]
      rw [carry, take_overwrite_front behind (by simp only [bufMax] at *; omega)]
      exact take_overwrite_zero l.buf (baseDecode text).out
    · simp only [mode, Mode.produce]
      omega
    · rw [mode]
      exact carried_carry inside short

/-- `doread` converts what `recv` delivered. While the first bytes are awaited, a
read that yields none may not leave characters behind. -/
theorem Inv.doread (inv : l.Inv) (filled : l.Filled start bytes earlier)
    (top : l.frames = [.reading (.received start (.data bytes))])
    (keeps : l.mode = .decode → l.firstR = true →
      (baseDecode (l.mode.rest earlier ++ bytes)).out = [] →
        (baseDecode (l.mode.rest earlier ++ bytes)).held = []) :
    Inv { l with
      buf := l.converted (l.mode.rest earlier ++ bytes),
      len := (l.mode.produce (l.mode.rest earlier ++ bytes)).length,
      frames := [.reading (.returned (l.mode.produce (l.mode.rest earlier ++ bytes)).length)] } := by
  obtain ⟨-, rin, readyR, win, readyW⟩ := inv.alone top
  have converted := filled.converted inv.full
  have output : l.output = l.sent ++ l.mode.produce (l.mode.rest earlier ++ bytes) := by
    rw [Lane.output, filled.received, l.mode.output_concat, filled.sent]
  have rest : l.rest = l.mode.keep (l.mode.rest earlier ++ bytes) := by
    rw [Lane.rest, filled.received, l.mode.rest_concat]
  refine ⟨by simp [tokens, rin, readyR, win, readyW], converted.full, ?_, by simp [rin, readyR],
    by simp [win, readyW], ?_, ?_⟩
  · rw [filled.empty.1, Nat.zero_add]
    exact converted.fits
  · simp only [List.mem_singleton, forall_eq]
    refine ⟨?_, ?_⟩
    · intro zero
      have none : l.mode.produce (l.mode.rest earlier ++ bytes) = [] := by
        simpa using zero
      refine ⟨filled.empty.1, by simp [none], ?_, ?_⟩
      · change l.sent = l.output
        rw [output, none, List.append_nil]
      · intro decode
        have mode : l.mode = .decode := decode
        change if l.firstR then l.rest = [] else carried _ = l.rest
        rw [rest]
        split
        · rename_i first
          rw [mode] at keeps none ⊢
          exact keeps rfl first none
        · exact converted.kept mode
    · intro positive
      refine ⟨?_, filled.empty.1, by simpa using positive, ?_⟩
      · change l.sent ++ ((l.converted _).drop l.start).take _ = l.output
        rw [filled.empty.1, List.drop_zero, converted.stored, output]
      · intro mode
        change carried _ = l.rest
        rw [rest]
        exact converted.kept mode
  · change l.sent <+: l.output
    rw [output]
    exact List.prefix_append _ _

/-- A read that brought nothing waits again. -/
theorem Inv.read_again (inv : l.Inv) (top : l.frames = [.reading (.returned 0)]) :
    (l.rebit true false l.win l.readyW []).Inv := by
  obtain ⟨-, -, -, win, readyW⟩ := inv.alone top
  have ok : l.FrameOk (.reading (.returned 0)) := inv.calls _ (by simp [top])
  exact inv.rebit (by simp [tokens, Lane.rebit, win, readyW]) (fun _ => ok.1 rfl) inv.loaded
    (by simp)

/-- A read that brought bytes passes the buffer on to the writer; the first one
also ends the wait for the first bytes. -/
theorem Inv.read_passes {value : Int} (inv : l.Inv) (top : l.frames = [.reading (.returned value)])
    (positive : 0 < value) :
    Inv { l with firstR := false, win := true, readyW := false, frames := [] } := by
  obtain ⟨-, rin, readyR, -, -⟩ := inv.alone top
  have ok : l.FrameOk (.reading (.returned value)) := inv.calls _ (by simp [top])
  obtain ⟨sent, start, some, kept⟩ := ok.2 positive
  refine ⟨by simp [tokens, rin, readyR], inv.full, inv.room, by simp [rin, readyR], ?_, by simp,
    inv.ahead⟩
  intro _
  refine ⟨sent, fun _ => start, fun mode => ?_⟩
  simp only [Bool.false_eq_true, if_false]
  exact kept mode

end Reading

/-! ### Sending -/

section Writing

variable {n : Nat}

theorem Inv.send_wrote (inv : l.Inv) (top : l.frames = [.writing .entered]) (small : n ≤ l.len) :
    Inv { l with
      win := false, sent := l.sent ++ l.pending.take n, frames := [.writing (.sent (.wrote n))] } := by
  obtain ⟨-, rin, readyR, win, readyW⟩ := inv.alone top
  have loaded : l.Loaded := inv.calls (.writing .entered) (by simp [top])
  have split : (l.sent ++ l.pending.take n) ++ l.pending.drop n = l.output := by
    rw [List.append_assoc, List.take_append_drop, loaded.sent]
  refine ⟨by simp [tokens, rin, readyR, readyW], inv.full, inv.room, by simp [rin, readyR],
    by simp [readyW], ?_, ⟨l.pending.drop n, split⟩⟩
  simp only [List.mem_singleton, forall_eq]
  exact ⟨small, split, loaded.kept, loaded.start⟩

theorem Inv.send_nothing (answer : Send) (inv : l.Inv) (top : l.frames = [.writing .entered])
    (nothing : ∀ n, answer ≠ .wrote n) :
    (l.rebit l.rin l.readyR false l.readyW [.writing (.sent answer)]).Inv := by
  obtain ⟨-, rin, readyR, win, readyW⟩ := inv.alone top
  have loaded : l.Loaded := inv.calls (.writing .entered) (by simp [top])
  refine inv.rebit (by simp [tokens, Lane.rebit, rin, readyR, readyW]) inv.waiting
    (fun _ => loaded) ?_
  simp only [List.mem_singleton, forall_eq]
  cases answer with
  | wrote n => exact absurd rfl (nothing n)
  | eintr => exact loaded
  | failed => trivial

/-- `dowrite` takes the accepted bytes off the buffer. -/
theorem Inv.dowrite (inv : l.Inv) (top : l.frames = [.writing (.sent (.wrote n))]) :
    Inv { l with
      start := if l.len ≤ n then 0 else l.start + n, len := l.len - n,
      frames := [.writing (.returned n)] } := by
  obtain ⟨-, rin, readyR, win, readyW⟩ := inv.alone top
  have ok : l.FrameOk (.writing (.sent (.wrote n))) := inv.calls _ (by simp [top])
  obtain ⟨small, sent, kept, -⟩ := ok
  have room := inv.room
  refine ⟨by simp [tokens, rin, readyR, win, readyW], inv.full, ?_, by simp [rin, readyR],
    by simp [win, readyW], ?_, inv.ahead⟩
  · simp only
    split <;> omega
  · simp only [List.mem_singleton, forall_eq]
    intro _
    refine ⟨?_, ?_, kept⟩
    · rw [Lane.pending, List.drop_take, List.drop_drop] at sent
      change l.sent ++ (l.buf.drop (if l.len ≤ n then 0 else l.start + n)).take (l.len - n) = l.output
      split
      · rename_i all
        have none : l.len - n = 0 := by omega
        simpa [none] using sent
      · exact sent
    · intro none
      simp only at none ⊢
      exact if_pos (by omega)

theorem Loaded.drained (loaded : l.Loaded) (empty : l.len = 0) : l.Drained := by
  refine ⟨loaded.start empty, empty, ?_, loaded.kept⟩
  have sent := loaded.sent
  rwa [Lane.pending, empty, List.take_zero, List.append_nil] at sent

/-- The buffer has been written out: the reader's turn. -/
theorem Inv.write_passes {value : Int} (inv : l.Inv) (top : l.frames = [.writing (.returned value)])
    (fine : 0 ≤ value) (empty : l.len = 0) : (l.rebit true false l.win l.readyW []).Inv := by
  obtain ⟨-, -, -, win, readyW⟩ := inv.alone top
  have ok : l.FrameOk (.writing (.returned value)) := inv.calls _ (by simp [top])
  exact inv.rebit (by simp [tokens, Lane.rebit, win, readyW]) (fun _ => (ok fine).drained empty)
    inv.loaded (by simp)

/-- Something is left: the writer waits again. -/
theorem Inv.write_again {value : Int} (inv : l.Inv) (top : l.frames = [.writing (.returned value)])
    (fine : 0 ≤ value) : (l.rebit l.rin l.readyR true false []).Inv := by
  obtain ⟨-, rin, readyR, -, -⟩ := inv.alone top
  have ok : l.FrameOk (.writing (.returned value)) := inv.calls _ (by simp [top])
  exact inv.rebit (by simp [tokens, Lane.rebit, rin, readyR]) inv.waiting (fun _ => ok fine)
    (by simp)

end Writing

end Lane

end Fdgw.Stream
