import Mathlib.Data.List.Infix
import Mathlib.Tactic.IntervalCases

/-!
The `/base` codec of `src/gnu/stone/stone.c`: `baseEncode` turns what one read
brought into base64 text, `baseDecode` turns text back and keeps the characters
of an unfinished group for the next call. A read cuts the text anywhere, so what
matters is that decoding does not depend on the cuts.
-/
namespace Fdgw.Base64

abbrev Byte := BitVec 8

/-- `XX`, a character outside the alphabet, and `EQ`, the padding. -/
def illegal : Byte := 255
def padding : Byte := 254

/-- `'='` -/
def equals : Byte := 0x3D

/-- `basis_64` -/
def basis64 : List Byte :=
  "ABCDEFGHIJKLMNOPQRSTUVWXYZabcdefghijklmnopqrstuvwxyz0123456789+/".toList.map
    fun c => BitVec.ofNat 8 c.toNat

/-- The rows of `index_64` for the characters below 128; the others are all `XX`. -/
def index64Rows : List Byte :=
  [255, 255, 255, 255, 255, 255, 255, 255, 255, 255, 255, 255, 255, 255, 255, 255,
   255, 255, 255, 255, 255, 255, 255, 255, 255, 255, 255, 255, 255, 255, 255, 255,
   255, 255, 255, 255, 255, 255, 255, 255, 255, 255, 255,  62, 255, 255, 255,  63,
    52,  53,  54,  55,  56,  57,  58,  59,  60,  61, 255, 255, 255, 254, 255, 255,
   255,   0,   1,   2,   3,   4,   5,   6,   7,   8,   9,  10,  11,  12,  13,  14,
    15,  16,  17,  18,  19,  20,  21,  22,  23,  24,  25, 255, 255, 255, 255, 255,
   255,  26,  27,  28,  29,  30,  31,  32,  33,  34,  35,  36,  37,  38,  39,  40,
    41,  42,  43,  44,  45,  46,  47,  48,  49,  50,  51, 255, 255, 255, 255, 255]

def index64 (c : Byte) : Byte := index64Rows.getD c.toNat illegal

/-- `basis_64[d]` -/
def letter (d : Byte) : Byte := basis64.getD d.toNat 0

/-! ## Encoding -/

/-- The four indices `baseEncode` makes of three bytes. -/
def high (c1 : Byte) : Byte := c1 >>> 2
def middle (c1 c2 : Byte) : Byte := (c1 &&& 0x3) <<< 4 ||| (c2 &&& 0xF0) >>> 4
def lower (c2 c3 : Byte) : Byte := (c2 &&& 0xF) <<< 2 ||| (c3 &&& 0xC0) >>> 6
def low (c3 : Byte) : Byte := c3 &&& 0x3F

/-- The loop of `baseEncode`, three bytes a turn; a short last group reads
zeroes for the missing bytes and is padded. -/
def encodeGroups : List Byte → List Byte
  | [] => []
  | [c1] => [letter (high c1), letter (middle c1 0), equals, equals]
  | [c1, c2] => [letter (high c1), letter (middle c1 c2), letter (lower c2 0), equals]
  | c1 :: c2 :: c3 :: rest => letter (high c1) :: letter (middle c1 c2) ::
      letter (lower c2 c3) :: letter (low c3) :: encodeGroups rest

/-- `baseEncode`: every piece of text ends in the padding character. -/
def baseEncode (buf : List Byte) : List Byte :=
  let bbuf := encodeGroups buf
  if bbuf.getLast? = some equals then bbuf else bbuf ++ [equals]

/-! ## Decoding -/

/-- `buf[0..blen)` and `o[0..j)` of `baseDecode`. -/
structure Decoder where
  out : List Byte
  held : List Byte
  deriving DecidableEq, Repr

/-- The bytes of a complete group of indices. -/
def groupBytes (c0 c1 c2 c3 : Byte) : List Byte :=
  let first := c0 <<< 2 ||| (c1 &&& 0x30) >>> 4
  if c2 = padding then [first] else
  let second := (c1 &&& 0x0F) <<< 4 ||| (c2 &&& 0x3C) >>> 2
  if c3 = padding then [first, second] else [first, second, (c2 &&& 0x03) <<< 6 ||| c3]

/-- One turn of the loop. The source decodes in place; a group of four
characters leaves at most three bytes, so the output never overtakes the input. -/
def decodeStep (d : Decoder) (c : Byte) : Decoder :=
  if index64 c = illegal then d
  else match d.held with
    | [] => if index64 c = padding then d else { d with held := [c] }
    | [o0, o1, o2] =>
      ⟨d.out ++ groupBytes (index64 o0) (index64 o1) (index64 o2) (index64 c), []⟩
    | held => { d with held := held ++ [c] }

def decodeFrom (d : Decoder) (text : List Byte) : Decoder := text.foldl decodeStep d

/-- `baseDecode`: the decoded bytes and the `rest` of an unfinished group. -/
def baseDecode (text : List Byte) : Decoder := decodeFrom ⟨[], []⟩ text

/-! ## Groups -/

theorem decodeFrom_append (d : Decoder) (first second : List Byte) :
    decodeFrom d (first ++ second) = decodeFrom (decodeFrom d first) second :=
  List.foldl_append

theorem decodeStep_out (out held : List Byte) (c : Byte) :
    decodeStep ⟨out, held⟩ c =
      ⟨out ++ (decodeStep ⟨[], held⟩ c).out, (decodeStep ⟨[], held⟩ c).held⟩ := by
  unfold decodeStep
  repeat' split
  all_goals simp_all

/-- What was decoded before only stands in front. -/
theorem decodeFrom_out (out held text : List Byte) :
    decodeFrom ⟨out, held⟩ text =
      ⟨out ++ (decodeFrom ⟨[], held⟩ text).out, (decodeFrom ⟨[], held⟩ text).held⟩ := by
  induction text generalizing out held with
  | nil => simp [decodeFrom]
  | cons c text ih =>
    have step : ∀ d, decodeFrom d (c :: text) = decodeFrom (decodeStep d c) text := fun _ => rfl
    rw [step, step, decodeStep_out, ih, ih (decodeStep ⟨[], held⟩ c).out, List.append_assoc]

/-- Characters of an unfinished group, as `baseDecode` keeps them. -/
def Unfinished (held : List Byte) : Prop :=
  held.length < 4 ∧ (∀ c ∈ held, index64 c ≠ illegal) ∧ ∀ c ∈ held.head?, index64 c ≠ padding

/-- The four lengths an unfinished group can have. -/
theorem Unfinished.cases {held : List Byte} (kept : Unfinished held) :
    held = [] ∨ (∃ o0, held = [o0]) ∨ (∃ o0 o1, held = [o0, o1]) ∨ ∃ o0 o1 o2, held = [o0, o1, o2] := by
  obtain ⟨short, -, -⟩ := kept
  rcases held with _ | ⟨o0, _ | ⟨o1, _ | ⟨o2, _ | ⟨o3, rest⟩⟩⟩⟩
  · exact .inl rfl
  · exact .inr (.inl ⟨o0, rfl⟩)
  · exact .inr (.inr (.inl ⟨o0, o1, rfl⟩))
  · exact .inr (.inr (.inr ⟨o0, o1, o2, rfl⟩))
  · simp only [List.length_cons] at short
    omega

theorem decodeStep_unfinished {d : Decoder} (kept : Unfinished d.held) (c : Byte) :
    Unfinished (decodeStep d c).held := by
  by_cases skipped : index64 c = illegal
  · simpa [decodeStep, skipped] using kept
  rcases d with ⟨out, held⟩
  rcases kept.cases with rfl | ⟨o0, rfl⟩ | ⟨o0, o1, rfl⟩ | ⟨o0, o1, o2, rfl⟩
  · by_cases padded : index64 c = padding
    · simp [decodeStep, padded, Unfinished]
    · simp [decodeStep, skipped, padded, Unfinished]
  · simpa [decodeStep, skipped, Unfinished] using kept
  · simpa [decodeStep, skipped, Unfinished] using kept
  · simp [decodeStep, skipped, Unfinished]

/-- Reading the kept characters again restores the state they were kept in. -/
theorem decodeFrom_unfinished {held : List Byte} (kept : Unfinished held) :
    baseDecode held = ⟨[], held⟩ := by
  rcases kept.cases with rfl | ⟨o0, rfl⟩ | ⟨o0, o1, rfl⟩ | ⟨o0, o1, o2, rfl⟩
  · rfl
  all_goals
    obtain ⟨-, legal, first⟩ := kept
    simp only [List.mem_cons, List.not_mem_nil, or_false, forall_eq_or_imp, forall_eq,
      List.head?_cons, Option.mem_def, Option.some.injEq, forall_eq'] at legal first
    simp [baseDecode, decodeFrom, decodeStep, legal, first]

theorem baseDecode_unfinished (text : List Byte) : Unfinished (baseDecode text).held := by
  have keep : ∀ d : Decoder, Unfinished d.held → Unfinished (decodeFrom d text).held := by
    induction text with
    | nil => exact fun _ kept => kept
    | cons c text ih => exact fun d kept => ih _ (decodeStep_unfinished kept c)
  exact keep _ ⟨by simp, by simp, by simp⟩

/-- Decoding what was kept together with the next piece continues the text. -/
theorem baseDecode_append (first second : List Byte) :
    baseDecode (first ++ second) =
      ⟨(baseDecode first).out ++ (baseDecode ((baseDecode first).held ++ second)).out,
        (baseDecode ((baseDecode first).held ++ second)).held⟩ := by
  have again : baseDecode ((baseDecode first).held ++ second) =
      decodeFrom ⟨[], (baseDecode first).held⟩ second := by
    unfold baseDecode
    rw [decodeFrom_append]
    exact congrArg (decodeFrom · second) (decodeFrom_unfinished (baseDecode_unfinished first))
  rw [again, ← decodeFrom_out]
  exact decodeFrom_append _ first second

theorem encodeGroups_length (buf : List Byte) :
    (encodeGroups buf).length = (buf.length + 2) / 3 * 4 := by
  induction buf using encodeGroups.induct with
  | case1 => rfl
  | case2 => simp [encodeGroups]
  | case3 => simp [encodeGroups]
  | case4 c1 c2 c3 rest ih =>
    simp only [encodeGroups, List.length_cons, ih]
    omega

/-- A read of at most `(room - 1) / 4 * 3` bytes fits into `room` after encoding. -/
theorem baseEncode_fits {buf : List Byte} {room : Nat} (some : 0 < buf.length)
    (small : buf.length ≤ (room - 1) / 4 * 3) : (baseEncode buf).length ≤ room := by
  have groups := encodeGroups_length buf
  simp only [baseEncode]
  split
  · omega
  · rw [List.length_append, List.length_singleton]
    omega

theorem groupBytes_length (c0 c1 c2 c3 : Byte) : (groupBytes c0 c1 c2 c3).length ≤ 3 := by
  simp only [groupBytes]
  repeat' split
  all_goals simp

theorem decodeStep_length (d : Decoder) (c : Byte) :
    4 * (decodeStep d c).out.length + 3 * (decodeStep d c).held.length ≤
      4 * d.out.length + 3 * d.held.length + 3 := by
  unfold decodeStep
  split
  · omega
  · split
    · rename_i held
      split
      · omega
      · simp [held]
    · rename_i o0 o1 o2 held
      have group := groupBytes_length (index64 o0) (index64 o1) (index64 o2) (index64 c)
      simp only [List.length_append, held, List.length_cons, List.length_nil]
      omega
    · simp only [List.length_append, List.length_singleton]
      omega

/-- Decoding in place is safe: the decoded bytes and the kept characters are
together no longer than the text. -/
theorem baseDecode_length (text : List Byte) :
    4 * (baseDecode text).out.length + 3 * (baseDecode text).held.length ≤ 3 * text.length := by
  have grow : ∀ d : Decoder, 4 * (decodeFrom d text).out.length + 3 * (decodeFrom d text).held.length
      ≤ 4 * d.out.length + 3 * d.held.length + 3 * text.length := by
    induction text with
    | nil => simp [decodeFrom]
    | cons c text ih =>
      intro d
      have step := decodeStep_length d c
      have rest := ih (decodeStep d c)
      have turn : decodeFrom d (c :: text) = decodeFrom (decodeStep d c) text := rfl
      rw [turn, List.length_cons]
      omega
  simpa [baseDecode] using grow ⟨[], []⟩

end Fdgw.Base64
