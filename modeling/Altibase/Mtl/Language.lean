/-
  Altibase.Mtl.Language
  ─────────────────────
  **THE LANGUAGES AND THEIR CHARACTERS.**

  A language module knows where the character at a pointer ends.  Broken
  characters are passed as well, so a loop over `nextCharPtr` always gets on and
  never passes the fence; that is a field of `MtlModule`, and every module of
  the source has it.

    * `mtlAscii`, `mtlKSC5601`, ... — the eleven modules;
    * `MtlModule.chars` — what a loop over `nextCharPtr` reads;
    * `MtlModule.chars_flatten` — it reads every byte once.
-/

import Mathlib.Data.List.Basic
import Mathlib.Tactic.SplitIfs

namespace Altibase.Mtl

/-! ## §1. A language. -/

/-- `mtlNCRet`. -/
inductive MtlNCRet where
  | valid | invalid | mbInvalid | mbIncompleted
  deriving DecidableEq, Repr

/-- `MTL_ASCII_ID` and its siblings. -/
inductive MtlId where
  | ascii | ksc5601 | ms949 | big5 | gb231280 | ms936 | utf8 | shiftJIS | ms932 | eucJP | utf16
  deriving DecidableEq, Repr

/-- **A language module.**  `nextCharPtr` gets the bytes from `*aSource` to
`aFence` and returns how far it moves `*aSource`; `percent` and `under` are the
entries `MTL_PC_IDX` and `MTL_UB_IDX` of `specialCharSet`, of `specialCharSize`
bytes each. -/
structure MtlModule where
  id : MtlId
  nextCharPtr : List UInt8 → ℕ × MtlNCRet
  percent : List UInt8
  under : List UInt8
  moves : ∀ s, s ≠ [] → 0 < (nextCharPtr s).1 ∧ (nextCharPtr s).1 ≤ s.length

/-! ## §2. The modules of the source. -/

/-- The byte lies between the two bounds. -/
def inRange (low high c : UInt8) : Bool := low ≤ c && c ≤ high

/-- The modules with characters of one and two bytes differ in the byte types
only. -/
def twoByteNextChar (oneByte twoByte tail : UInt8 → Bool) : List UInt8 → ℕ × MtlNCRet
  | [] => (0, .mbIncompleted)
  | c :: rest =>
      if oneByte c then (1, .valid)
      else if twoByte c then
        match rest with
        | d :: _ => (2, if tail d then .valid else .mbInvalid)
        | [] => (1, .mbIncompleted)
      else (1, .invalid)

/-- The pointer moves, and not past the end. -/
theorem twoByteNextChar_moves (oneByte twoByte tail : UInt8 → Bool) (s : List UInt8) (h : s ≠ []) :
    0 < (twoByteNextChar oneByte twoByte tail s).1 ∧
      (twoByteNextChar oneByte twoByte tail s).1 ≤ s.length := by
  rcases s with _ | ⟨c, _ | ⟨d, rest⟩⟩
  · exact absurd rfl h
  all_goals
    unfold twoByteNextChar
    dsimp only
    split_ifs <;> simp

/-- `'%'` and `'_'`. -/
def mtlPC : UInt8 := 0x25
def mtlUB : UInt8 := 0x5F

/-- A module with characters of one and two bytes and the special characters
`mtl1BYTESpecialCharSet`. -/
def twoByteModule (id : MtlId) (oneByte twoByte tail : UInt8 → Bool) : MtlModule where
  id := id
  nextCharPtr := twoByteNextChar oneByte twoByte tail
  percent := [mtlPC]
  under := [mtlUB]
  moves := twoByteNextChar_moves oneByte twoByte tail

/-- `mtlAsciiNextChar`: one byte, whatever it is. -/
def mtlAscii : MtlModule :=
  twoByteModule .ascii (fun c => c ≤ 0x7F) (fun _ => false) (fun _ => false)

/-- `mtl::mtlKSC5601`: both bytes of a Hangul character are in 0xA1 to 0xFE. -/
def mtlKSC5601 : MtlModule :=
  twoByteModule .ksc5601 (fun c => c ≤ 0x7F) (inRange 0xA1 0xFE) (inRange 0xA1 0xFE)

/-- `mtl::mtlMS949`: the second byte may be a letter. -/
def mtlMS949 : MtlModule :=
  twoByteModule .ms949 (fun c => c ≤ 0x7F) (inRange 0x81 0xFE)
    fun c => inRange 0x41 0x5A c || inRange 0x61 0x7A c || inRange 0x81 0xFE c

/-- `mtl::mtlBig5`. -/
def mtlBig5 : MtlModule :=
  twoByteModule .big5 (fun c => c ≤ 0x7F) (inRange 0x81 0xFE)
    fun c => inRange 0x40 0x7E c || inRange 0x80 0xFE c

/-- `mtl::mtlMS936`: 0x80 is a character of one byte. -/
def mtlMS936 : MtlModule :=
  twoByteModule .ms936 (fun c => c ≤ 0x80) (inRange 0x81 0xFE)
    fun c => inRange 0x40 0x7E c || inRange 0x80 0xFE c

/-- `mtl::mtlShiftJIS`: 0xA0 to 0xDF are characters of one byte. -/
def mtlShiftJIS : MtlModule :=
  twoByteModule .shiftJIS (fun c => c ≤ 0x7F || inRange 0xA0 0xDF c)
    (fun c => inRange 0x81 0x9F c || inRange 0xE0 0xFC c)
    fun c => inRange 0x40 0x7E c || inRange 0x80 0xFC c

/-- `mtl::mtlMS932`: the first byte has five ranges. -/
def mtlMS932 : MtlModule :=
  twoByteModule .ms932 (fun c => c ≤ 0x7F || inRange 0xA1 0xDF c)
    (fun c => inRange 0x81 0x84 c || inRange 0x87 0x9F c || inRange 0xE0 0xEA c
      || inRange 0xED 0xEE c || inRange 0xFA 0xFC c)
    fun c => inRange 0x40 0x7E c || inRange 0x80 0xFC c

/-- `mtlGB231280NextChar`.  A character of two bytes is incomplete also when its
second byte is the last one before the fence. -/
def mtlGB231280NextChar : List UInt8 → ℕ × MtlNCRet
  | [] => (0, .mbIncompleted)
  | c :: rest =>
      if c ≤ 0x7F then (1, .valid)
      else if inRange 0x81 0xFE c then
        match rest with
        | d :: _ :: _ =>
            (2, if inRange 0x40 0x7E d || inRange 0x80 0xFE d then .valid else .mbInvalid)
        | _ => ((c :: rest).length, .mbIncompleted)
      else (1, .invalid)

/-- `mtl::mtlGB231280`. -/
def mtlGB231280 : MtlModule where
  id := .gb231280
  nextCharPtr := mtlGB231280NextChar
  percent := [mtlPC]
  under := [mtlUB]
  moves := by
    intro s h
    rcases s with _ | ⟨c, _ | ⟨d, _ | ⟨e, rest⟩⟩⟩
    · exact absurd rfl h
    all_goals
      unfold mtlGB231280NextChar
      dsimp only
      split_ifs <;> simp

/-- `mtlUTF8_MULTI_BYTE_TAIL`. -/
def mtlUTF8Tail (c : UInt8) : Bool := inRange 0x80 0xBF c

/-- `mtlUTF8NextChar`. -/
def mtlUTF8NextChar : List UInt8 → ℕ × MtlNCRet
  | [] => (0, .mbIncompleted)
  | c :: rest =>
      if c ≤ 0x7F then (1, .valid)
      else if inRange 0xC0 0xDF c then
        match rest with
        | d :: _ => (2, if mtlUTF8Tail d then .valid else .mbInvalid)
        | [] => (1, .mbIncompleted)
      else if inRange 0xE0 0xEF c then
        match rest with
        | d :: e :: _ => (3, if mtlUTF8Tail d && mtlUTF8Tail e then .valid else .mbInvalid)
        | _ => ((c :: rest).length, .mbIncompleted)
      else (1, .invalid)

/-- `mtl::mtlUTF8`, up to three bytes a character. -/
def mtlUTF8 : MtlModule where
  id := .utf8
  nextCharPtr := mtlUTF8NextChar
  percent := [mtlPC]
  under := [mtlUB]
  moves := by
    intro s h
    rcases s with _ | ⟨c, _ | ⟨d, _ | ⟨e, rest⟩⟩⟩
    · exact absurd rfl h
    all_goals
      unfold mtlUTF8NextChar
      dsimp only
      split_ifs <;> simp

/-- `mtlEUCJPNextChar`, with the code sets 0 to 3. -/
def mtlEUCJPNextChar : List UInt8 → ℕ × MtlNCRet
  | [] => (0, .mbIncompleted)
  | c :: rest =>
      if c ≤ 0x7E then (1, .valid)
      -- code set 1
      else if inRange 0xA1 0xFE c then
        match rest with
        | d :: _ => (2, if inRange 0xA1 0xFE d then .valid else .mbInvalid)
        | [] => (1, .mbIncompleted)
      -- code set 2
      else if c = 0x8E then
        match rest with
        | d :: _ => (2, if inRange 0xA1 0xDF d then .valid else .mbInvalid)
        | [] => (1, .mbIncompleted)
      -- code set 3
      else if c = 0x8F then
        match rest with
        | d :: e :: _ =>
            (3, if inRange 0xA1 0xFE d && inRange 0xA1 0xFE e then .valid else .mbInvalid)
        | _ => ((c :: rest).length, .mbIncompleted)
      else (1, .invalid)

/-- `mtl::mtlEUCJP`. -/
def mtlEUCJP : MtlModule where
  id := .eucJP
  nextCharPtr := mtlEUCJPNextChar
  percent := [mtlPC]
  under := [mtlUB]
  moves := by
    intro s h
    rcases s with _ | ⟨c, _ | ⟨d, _ | ⟨e, rest⟩⟩⟩
    · exact absurd rfl h
    all_goals
      unfold mtlEUCJPNextChar
      dsimp only
      split_ifs <;> simp

/-- `mtlUTF16NextCharPtr`. -/
def mtlUTF16NextCharPtr (s : List UInt8) : ℕ × MtlNCRet :=
  if s.length > 1 then (2, .valid) else (s.length, .mbIncompleted)

/-- Its special characters are of two bytes. -/
def mtlUTF16 : MtlModule where
  id := .utf16
  nextCharPtr := mtlUTF16NextCharPtr
  percent := [0x00, mtlPC]
  under := [0x00, mtlUB]
  moves := by
    intro s h
    have hpos := List.length_pos_of_ne_nil h
    unfold mtlUTF16NextCharPtr
    split_ifs with hlong
    · exact ⟨Nat.succ_pos 1, hlong⟩
    · exact ⟨hpos, Nat.le_refl _⟩

/-! ## §3. The characters of a string. -/

namespace MtlModule

variable (l : MtlModule)

/-- **The characters** that a loop over `nextCharPtr` passes up to the fence. -/
def chars (s : List UInt8) : List (List UInt8) :=
  if h : s = [] then []
  else
    have := (l.moves s h).1
    have := List.length_pos_of_ne_nil h
    s.take (l.nextCharPtr s).1 :: chars (s.drop (l.nextCharPtr s).1)
  termination_by s.length
  decreasing_by rw [List.length_drop]; omega

/-- An empty string has no characters. -/
theorem chars_nil : l.chars [] = [] := by
  rw [chars]
  exact dif_pos rfl

/-- The first character, and those behind it. -/
theorem chars_of_ne_nil {s : List UInt8} (h : s ≠ []) :
    l.chars s = s.take (l.nextCharPtr s).1 :: l.chars (s.drop (l.nextCharPtr s).1) := by
  rw [chars]
  exact dif_neg h

/-- Every byte is read once. -/
theorem chars_flatten (s : List UInt8) : (l.chars s).flatten = s := by
  induction s using MtlModule.chars.induct l with
  | case1 => rw [chars_nil]; rfl
  | case2 s h _ _ ih =>
    rw [chars_of_ne_nil l h, List.flatten_cons, ih, List.take_append_drop]

end MtlModule

end Altibase.Mtl
