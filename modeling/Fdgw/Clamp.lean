import Mathlib.Tactic.SplitIfs
import Fdgw.Checksum

/-!
MSS clamping of `src/gnu/rp-pppoe/src/common.c`. The payload of a session frame
starts at address 0 of a memory; the code trusts the length fields inside the
frame, so what lies behind the frame is part of the memory too.
-/
namespace Fdgw.Clamp
open Checksum

/-! ## The code -/

def byte (m : Memory) (a : Nat) : Nat := (m a).toNat

/-- The bytes of the TCP segment, by the fields of the IP header. -/
def tcpCount (m : Memory) (ipHdr : Nat) : Nat :=
  (BitVec.ofNat 16 (byte m (ipHdr + 2) * 256 + byte m (ipHdr + 3)) -
    BitVec.ofNat 16 (byte m ipHdr % 16 * 4)).toNat

/-- The words of the pseudo header: the addresses, the protocol and the count. -/
def pseudoHeader (m : Memory) (ipHdr count : Nat) : Nat :=
  word m (ipHdr + 12) + word m (ipHdr + 14) + word m (ipHdr + 16) + word m (ipHdr + 18) +
    256 * byte m (ipHdr + 9) + (count / 256 + 256 * (count % 256))

/-- The sum, which 32 bits hold. -/
def tcpSum (m : Memory) (ipHdr tcpHdr : Nat) : Nat :=
  pseudoHeader m ipHdr (tcpCount m ipHdr) + words m (tcpCount m ipHdr) tcpHdr

def computeTCPChecksum (m : Memory) (ipHdr tcpHdr : Nat) : Nat := complement (tcpSum m ipHdr tcpHdr)

/-- How the search for the option ends. -/
inductive Search where
  | bogus
  | missing
  | found (opt : Nat)
  deriving DecidableEq, Repr

/-- The loop over the options; it moves on by one byte at least. -/
def mssOption (m : Memory) (endHdr : Nat) : Nat → Nat → Search
  | 0, _ => .missing
  | fuel + 1, opt =>
    if opt < endHdr then
      if byte m opt = 0 then .missing
      else if byte m opt = 1 then mssOption m endHdr fuel (opt + 1)
      else if byte m opt = 2 then if byte m (opt + 1) ≠ 4 then .bogus else .found opt
      else if byte m (opt + 1) < 2 then .bogus
      else mssOption m endHdr fuel (opt + byte m (opt + 1))
    else .missing

def ipHdr : Nat := 2

def tcpHdr (m : Memory) : Nat := ipHdr + byte m ipHdr % 16 * 4

/-- An unfragmented SYN of TCP over IPv4 with a right checksum. -/
def eligible (m : Memory) (length : Nat) : Bool :=
  byte m 0 = 0x00 && byte m 1 = 0x21 && 42 ≤ length && byte m ipHdr / 16 = 4 &&
    byte m (ipHdr + 6) % 32 = 0 && byte m (ipHdr + 7) = 0 && byte m (ipHdr + 9) = 6 &&
    byte m (tcpHdr m + 13) / 2 % 2 = 1 && computeTCPChecksum m ipHdr (tcpHdr m) = 0

def searchOption (m : Memory) : Search :=
  let endHdr := tcpHdr m + byte m (tcpHdr m + 12) / 16 * 4
  mssOption m endHdr (endHdr - (tcpHdr m + 20)) (tcpHdr m + 20)

def mssAt (m : Memory) (opt : Nat) : Nat := byte m (opt + 2) * 256 + byte m (opt + 3)

def setMss (m : Memory) (opt value : Nat) : Memory :=
  Function.update (Function.update m (opt + 2) (BitVec.ofNat 8 (value / 256))) (opt + 3) (BitVec.ofNat 8 value)

/-- The new value, and the checksum computed with its own field cleared. -/
def clampOption (m : Memory) (opt clampMss : Nat) : Memory :=
  let zeroed := storeWord (setMss m opt clampMss) (tcpHdr m + 16) 0
  storeWord zeroed (tcpHdr m + 16) (computeTCPChecksum zeroed ipHdr (tcpHdr m))

/-- A clamp value is a positive number, at most 1452 as the option parser has it. -/
def clampMSS (m : Memory) (length clampMss : Nat) : Memory :=
  if eligible m length then
    match searchOption m with
    | .found opt => if mssAt m opt ≤ clampMss then m else clampOption m opt clampMss
    | _ => m
  else m

/-- The four bytes a clamped frame may differ in. -/
def Written (m : Memory) (opt a : Nat) : Prop :=
  a = opt + 2 ∨ a = opt + 3 ∨ a = tcpHdr m + 16 ∨ a = tcpHdr m + 17

/-! ## The search -/

section Search

variable {m n : Memory} {endHdr fuel start opt : Nat}

theorem mssOption_found (found : mssOption m endHdr fuel start = .found opt) : start ≤ opt ∧ opt < endHdr := by
  induction fuel generalizing start with
  | zero => cases found
  | succ fuel ih =>
    rw [mssOption] at found
    split_ifs at found with inside stop pad kind bogus short
    · have later := ih found
      omega
    · cases found
      omega
    · have later := ih found
      omega

/-- The search reads no further than the length of the option it finds. -/
theorem mssOption_congr (same : ∀ a, start ≤ a → a < opt + 2 → n a = m a)
    (found : mssOption m endHdr fuel start = .found opt) : mssOption n endHdr fuel start = .found opt := by
  induction fuel generalizing start with
  | zero => cases found
  | succ fuel ih =>
    have before := (mssOption_found found).1
    have here : byte n start = byte m start := congrArg _ (same start (by omega) (by omega))
    have next : byte n (start + 1) = byte m (start + 1) := congrArg _ (same (start + 1) (by omega) (by omega))
    rw [mssOption] at found ⊢
    rw [here, next]
    split_ifs at found ⊢ with inside stop pad kind bogus short
    · exact ih (fun a low high => same a (by omega) high) found
    · exact found
    · exact ih (fun a low high => same a (by omega) high) found

/-- More fuel than bytes of options changes nothing. -/
theorem mssOption_fuel {more : Nat} (enough : endHdr ≤ start + fuel) (larger : fuel ≤ more) :
    mssOption m endHdr more start = mssOption m endHdr fuel start := by
  induction fuel generalizing start more with
  | zero =>
    cases more with
    | zero => rfl
    | succ more => rw [mssOption, mssOption, if_neg (by omega)]
  | succ fuel ih =>
    cases more with
    | zero => omega
    | succ more =>
      rw [mssOption, mssOption]
      split_ifs with inside stop pad kind bogus short
      · rfl
      · exact ih (by omega) (by omega)
      · rfl
      · rfl
      · rfl
      · exact ih (by omega) (by omega)
      · rfl

theorem searchOption_behind (found : searchOption m = .found opt) : tcpHdr m + 20 ≤ opt :=
  (mssOption_found found).1

end Search

/-! ## One clamped frame -/

section Clamped

variable {m n : Memory} {opt length clampMss a : Nat}

theorem setMss_other (low : a ≠ opt + 2) (high : a ≠ opt + 3) : setMss m opt clampMss a = m a := by
  rw [setMss, Function.update_of_ne high, Function.update_of_ne low]

theorem clampOption_eq (m : Memory) (opt clampMss : Nat) :
    clampOption m opt clampMss = storeWord (setMss m opt clampMss) (tcpHdr m + 16)
      (computeTCPChecksum (storeWord (setMss m opt clampMss) (tcpHdr m + 16) 0) ipHdr (tcpHdr m)) :=
  storeWord_storeWord

theorem clampOption_other (apart : ¬Written m opt a) : clampOption m opt clampMss a = m a := by
  simp only [Written, not_or] at apart
  obtain ⟨high, low, sumLow, sumHigh⟩ := apart
  rw [clampOption_eq, storeWord_other sumLow sumHigh, setMss_other high low]

theorem clampOption_front (behind : tcpHdr m + 20 ≤ opt) (front : a < tcpHdr m + 16) :
    clampOption m opt clampMss a = m a := by
  apply clampOption_other
  unfold Written
  omega

theorem tcpHdr_congr (same : n ipHdr = m ipHdr) : tcpHdr n = tcpHdr m := by
  rw [tcpHdr, tcpHdr, byte, byte, same]

theorem tcpHdr_clampOption (behind : tcpHdr m + 20 ≤ opt) : tcpHdr (clampOption m opt clampMss) = tcpHdr m :=
  tcpHdr_congr (clampOption_front behind (by rw [tcpHdr]; omega))

theorem tcpCount_congr (same : ∀ a, a < ipHdr + 20 → n a = m a) : tcpCount n ipHdr = tcpCount m ipHdr := by
  rw [tcpCount, tcpCount, byte, byte, byte, same _ (by omega), same _ (by omega), same _ (by omega)]
  rfl

theorem pseudoHeader_congr (same : ∀ a, a < ipHdr + 20 → n a = m a) (count : Nat) :
    pseudoHeader n ipHdr count = pseudoHeader m ipHdr count := by
  simp only [pseudoHeader, word, byte]
  rw [same (ipHdr + 12) (by omega), same (ipHdr + 12 + 1) (by omega), same (ipHdr + 14) (by omega),
    same (ipHdr + 14 + 1) (by omega), same (ipHdr + 16) (by omega), same (ipHdr + 16 + 1) (by omega),
    same (ipHdr + 18) (by omega), same (ipHdr + 18 + 1) (by omega), same (ipHdr + 9) (by omega)]

/-- Six words before the segment and at most 32768 in it stay in 32 bits. -/
theorem tcpSum_small (m : Memory) (ipHdr tcpHdr : Nat) : tcpSum m ipHdr tcpHdr + 65535 < 2 ^ 32 := by
  have count : tcpCount m ipHdr < 2 ^ 16 := BitVec.isLt _
  have segment := words_le m (tcpCount m ipHdr) tcpHdr
  have first := word_le m (ipHdr + 12)
  have second := word_le m (ipHdr + 14)
  have third := word_le m (ipHdr + 16)
  have fourth := word_le m (ipHdr + 18)
  have protocol : byte m (ipHdr + 9) < 256 := BitVec.isLt _
  rw [tcpSum, pseudoHeader]
  omega

/-- The stored checksum enters the sum once, because the IP header ends before it. -/
theorem tcpSum_storeWord {t value : Nat} (same : ∀ a, a < ipHdr + 20 → n a = m a)
    (behind : ipHdr + 4 ≤ t) (small : value < 65536) :
    tcpSum (storeWord n (t + 16) value) ipHdr t =
      tcpSum (storeWord n (t + 16) 0) ipHdr t + share (tcpCount m ipHdr) 16 value := by
  have front (v : Nat) : ∀ a, a < ipHdr + 20 → storeWord n (t + 16) v a = m a := fun a before => by
    rw [storeWord_other (by omega) (by omega), same a before]
  simp only [tcpSum]
  rw [tcpCount_congr (front value), tcpCount_congr (front 0), pseudoHeader_congr (front value),
    pseudoHeader_congr (front 0), words_storeWord 8 small, Nat.add_assoc]

/-- What the sum was before, where the segment is too short to reach the value. -/
theorem tcpSum_restored (front : ∀ a, a < ipHdr + 20 → setMss m opt clampMss a = m a)
    (start : ipHdr + 4 ≤ tcpHdr m) (behind : tcpHdr m + 20 ≤ opt) (short : tcpCount m ipHdr ≤ 17) :
    tcpSum (storeWord (setMss m opt clampMss) (tcpHdr m + 16) (byte m (tcpHdr m + 16))) ipHdr (tcpHdr m) =
      tcpSum m ipHdr (tcpHdr m) := by
  have early : ∀ a, a < tcpHdr m + 17 →
      storeWord (setMss m opt clampMss) (tcpHdr m + 16) (byte m (tcpHdr m + 16)) a = m a := by
    intro a before
    rcases Nat.lt_or_ge a (tcpHdr m + 16) with less | last
    · rw [storeWord_other (by omega) (by omega), setMss_other (by omega) (by omega)]
    · have here : a = tcpHdr m + 16 := by omega
      have different : tcpHdr m + 16 ≠ tcpHdr m + 16 + 1 := by omega
      rw [here, storeWord, Function.update_of_ne different, Function.update_self, byte, BitVec.ofNat_toNat,
        BitVec.setWidth_eq]
  have outer : ∀ a, a < ipHdr + 20 →
      storeWord (setMss m opt clampMss) (tcpHdr m + 16) (byte m (tcpHdr m + 16)) a = m a := by
    intro a before
    rw [storeWord_other (by omega) (by omega), front a before]
  rw [tcpSum, tcpSum, tcpCount_congr outer, pseudoHeader_congr outer,
    words_congr fun i _ high => early i (by omega)]

theorem clampOption_checksum (clampMss : Nat) (header : 0 < byte m ipHdr % 16) (behind : tcpHdr m + 20 ≤ opt)
    (right : computeTCPChecksum m ipHdr (tcpHdr m) = 0) :
    computeTCPChecksum (clampOption m opt clampMss) ipHdr (tcpHdr m) = 0 := by
  have start : ipHdr + 4 ≤ tcpHdr m := by
    rw [tcpHdr]
    omega
  have front : ∀ a, a < ipHdr + 20 → setMss m opt clampMss a = m a := fun a before =>
    setMss_other (by omega) (by omega)
  have stored {value : Nat} (small : value < 65536) := tcpSum_storeWord (t := tcpHdr m) front start small
  have cleared := tcpSum_small (storeWord (setMss m opt clampMss) (tcpHdr m + 16) 0) ipHdr (tcpHdr m)
  rw [clampOption_eq, computeTCPChecksum, computeTCPChecksum, stored (Nat.lt_succ_of_le (complement_le _))]
  by_cases whole : 18 ≤ tcpCount m ipHdr
  · rw [share, if_pos (by omega)]
    exact complement_add cleared
  · -- A segment this short ends in front of the field or inside it: the sum keeps its old value.
    have bounded : byte m (tcpHdr m + 16) < 256 := BitVec.isLt _
    rw [computeTCPChecksum, ← tcpSum_restored front start behind (by omega), stored (by omega)] at right
    by_cases half : tcpCount m ipHdr = 17
    · rw [half, share, if_neg (by omega), if_pos (by omega), Nat.mod_eq_of_lt bounded] at right
      rw [half, share, if_neg (by omega), if_pos (by omega),
        complement_unique (by omega) (by omega) right, Nat.mod_eq_of_lt bounded]
      exact right
    · rw [share, if_neg (by omega), if_neg (by omega)] at right ⊢
      exact right

theorem eligible_checksum (can : eligible m length = true) : computeTCPChecksum m ipHdr (tcpHdr m) = 0 := by
  simp only [eligible, Bool.and_eq_true, decide_eq_true_eq] at can
  exact can.2

theorem eligible_clampOption (header : 0 < byte m ipHdr % 16) (behind : tcpHdr m + 20 ≤ opt)
    (can : eligible m length = true) : eligible (clampOption m opt clampMss) length = true := by
  have same (a : Nat) (front : a < tcpHdr m + 16) : byte (clampOption m opt clampMss) a = byte m a :=
    congrArg _ (clampOption_front behind front)
  have start : ipHdr + 4 ≤ tcpHdr m := by
    rw [tcpHdr]
    omega
  have two : ipHdr = 2 := rfl
  have checked := eligible_checksum can
  have right := clampOption_checksum clampMss header behind checked
  rw [eligible] at can ⊢
  rw [tcpHdr_clampOption behind, right, same 0 (by omega), same 1 (by omega), same ipHdr (by omega),
    same (ipHdr + 6) (by omega), same (ipHdr + 7) (by omega), same (ipHdr + 9) (by omega),
    same (tcpHdr m + 13) (by omega)]
  rw [checked] at can
  exact can

theorem searchOption_clampOption (found : searchOption m = .found opt) :
    searchOption (clampOption m opt clampMss) = .found opt := by
  have behind := searchOption_behind found
  have size : byte (clampOption m opt clampMss) (tcpHdr m + 12) = byte m (tcpHdr m + 12) :=
    congrArg _ (clampOption_front behind (by omega))
  rw [searchOption] at found ⊢
  rw [tcpHdr_clampOption behind, size]
  refine mssOption_congr (fun a low high => clampOption_other ?_) found
  unfold Written
  omega

theorem mssAt_clampOption (behind : tcpHdr m + 20 ≤ opt) :
    mssAt (clampOption m opt clampMss) opt = clampMss % 65536 := by
  have different : opt + 2 ≠ opt + 3 := by omega
  rw [mssAt, byte, byte, clampOption_eq, storeWord_other (by omega) (by omega), storeWord_other (by omega) (by omega),
    setMss, Function.update_self, Function.update_of_ne different, Function.update_self, BitVec.toNat_ofNat,
    BitVec.toNat_ofNat]
  omega

end Clamped

/-! ## Every frame -/

section Clamping

variable {m : Memory} {length clampMss : Nat}

theorem clampMSS_found {opt : Nat} (can : eligible m length = true) (found : searchOption m = .found opt) :
    clampMSS m length clampMss = if mssAt m opt ≤ clampMss then m else clampOption m opt clampMss := by
  rw [clampMSS, if_pos can, found]

theorem clampMSS_untouched (unfit : ¬∃ opt, eligible m length = true ∧ searchOption m = .found opt) :
    clampMSS m length clampMss = m := by
  unfold clampMSS
  split
  · next can =>
    split
    · next opt found => exact absurd ⟨opt, can, found⟩ unfit
    · rfl
  · rfl

/-- The headers name lengths of at most 60 bytes each. -/
theorem searchOption_near {opt : Nat} (found : searchOption m = .found opt) : tcpHdr m ≤ 62 ∧ opt < 122 := by
  have size : byte m (tcpHdr m + 12) < 256 := BitVec.isLt _
  have start : tcpHdr m ≤ 62 := by
    rw [tcpHdr, ipHdr]
    omega
  have last := (mssOption_found found).2
  omega

theorem clampMSS_outside {a : Nat} (far : 125 ≤ a) : clampMSS m length clampMss a = m a := by
  by_cases fit : ∃ opt, eligible m length = true ∧ searchOption m = .found opt
  · obtain ⟨opt, can, found⟩ := fit
    obtain ⟨start, last⟩ := searchOption_near found
    rw [clampMSS_found can found]
    split
    · rfl
    · refine clampOption_other ?_
      unfold Written
      omega
  · rw [clampMSS_untouched fit]

theorem mssAt_lt (m : Memory) (opt : Nat) : mssAt m opt < 65536 := by
  have high : byte m (opt + 2) < 256 := BitVec.isLt _
  have low : byte m (opt + 3) < 256 := BitVec.isLt _
  rw [mssAt]
  omega

/-- A clamped frame keeps a right checksum and its option, whose value is now the
smaller one, and differs in the value and the checksum only. With no IP header in
front of it the checksum would lie among the addresses it covers. -/
theorem clampMSS_keeps_checksum (m : Memory) (length clampMss : Nat) (header : 0 < byte m ipHdr % 16) :
    eligible (clampMSS m length clampMss) length = eligible m length ∧
    searchOption (clampMSS m length clampMss) = searchOption m ∧
    (∀ opt, eligible m length = true → searchOption m = .found opt →
      mssAt (clampMSS m length clampMss) opt = min (mssAt m opt) clampMss ∧
      ∀ a, ¬Written m opt a → clampMSS m length clampMss a = m a) ∧
    ((¬∃ opt, eligible m length = true ∧ searchOption m = .found opt) → clampMSS m length clampMss = m) := by
  by_cases fit : ∃ opt, eligible m length = true ∧ searchOption m = .found opt
  · obtain ⟨opt, can, found⟩ := fit
    have behind := searchOption_behind found
    have word := mssAt_lt m opt
    rw [clampMSS_found can found]
    split
    · next low =>
      refine ⟨rfl, rfl, fun other _ same => ?_, fun _ => rfl⟩
      cases found.symm.trans same
      exact ⟨(Nat.min_eq_left low).symm, fun _ _ => rfl⟩
    · next high =>
      rw [can, eligible_clampOption header behind can, found, searchOption_clampOption found]
      refine ⟨rfl, rfl, fun other _ same => ?_, fun unfit => absurd ⟨opt, rfl, rfl⟩ unfit⟩
      cases same
      refine ⟨?_, fun a apart => clampOption_other apart⟩
      rw [mssAt_clampOption behind, Nat.min_eq_right (by omega), Nat.mod_eq_of_lt (by omega)]
  · rw [clampMSS_untouched fit]
    exact ⟨rfl, rfl, fun opt can found => absurd ⟨opt, can, found⟩ fit, fun _ => rfl⟩

/-- A SYN with an MSS option of 1460, as PPP carries it. -/
def synFrame : Memory := fun a =>
  [ 0x00, 0x21,
    0x45, 0x00, 0x00, 0x2c, 0x00, 0x00, 0x40, 0x00, 0x40, 0x06, 0x00, 0x00, 0x0a, 0x00, 0x00, 0x01, 0x0a, 0x00, 0x00, 0x02,
    0x04, 0x00, 0x00, 0x50, 0x00, 0x00, 0x00, 0x01, 0x00, 0x00, 0x00, 0x00, 0x60, 0x02, 0x20, 0x00, 0x5f, 0xd3, 0x00, 0x00,
    0x02, 0x04, 0x05, 0xb4 ].getD a 0

theorem clampMSS_keeps_checksum_syn :
    0 < byte synFrame ipHdr % 16 ∧ eligible synFrame 46 = true ∧ searchOption synFrame = .found 42 ∧
    mssAt synFrame 42 = 1460 ∧ eligible (clampMSS synFrame 46 1412) 46 = true ∧
    mssAt (clampMSS synFrame 46 1412) 42 = 1412 := by
  have can : eligible synFrame 46 = true := by decide
  have found : searchOption synFrame = .found 42 := by decide
  have kept := clampMSS_keeps_checksum synFrame 46 1412 (by decide)
  have value : mssAt synFrame 42 = 1460 := by decide
  refine ⟨by decide, can, found, value, kept.1.trans can, ?_⟩
  rw [(kept.2.2.1 42 can found).1, value]
  rfl

end Clamping

end Fdgw.Clamp
