/-
  Altibase.Idu.Compression
  ────────────────────────
  **LOG COMPRESSION** (`iduCompression`).

  The compressed form of a buffer is a sequence of runs of literals and of
  matches, references to an earlier place by offset and length.  A hash table in
  a work memory remembers where to look for a match; the memory is not cleared,
  so what is found there is checked first.

    * `compressInternal`, `compress` — the coder, as in the source, with the work
      memory as its state;
    * `decStep`, `decompress` — the decoder: one step runs from one label of the
      source to the next.

  A buffer of the coder knows its address, since the work memory keeps addresses.
  Bytes that are copied four at a time are copied one by one here: source and
  target are aligned then, and at least four bytes apart.
-/

import Altibase.Lib.CopyBack
import Mathlib.Algebra.GroupWithZero.Nat
import Mathlib.Algebra.Ring.Int.Defs
import Mathlib.Data.Nat.Notation
import Mathlib.Logic.Function.Basic

namespace Altibase.Idu.Compression

open Altibase.Lib

/-! ## §1. Constants and bytes. -/

/-- `M2_MAX_OFFSET`. -/
def m2MaxOffset : ℕ := 0x0800

/-- `M3_MAX_OFFSET`. -/
def m3MaxOffset : ℕ := 0x4000

/-- `M4_MAX_OFFSET`. -/
def m4MaxOffset : ℕ := 0xbfff

/-- `M2_MAX_LEN`. -/
def m2MaxLen : ℕ := 8

/-- `M4_MAX_LEN`. -/
def m4MaxLen : ℕ := 9

/-- `M3_MARKER`. -/
def m3Marker : ℕ := 32

/-- `M4_MARKER`. -/
def m4Marker : ℕ := 16

/-- `IDU_COMPRESSION_D_MASK`. -/
def dMask : ℕ := (1 <<< 12) - 1

/-- `IDU_COMPRESSION_D_HIGH`. -/
def dHigh : ℕ := (dMask >>> 1) + 1

/-- `IDU_COMPRESSION_MAX_OUTSIZE`.  A `UInt` in the source: the same number for
    every size below `2 ^ 32 - 2 ^ 28`. -/
def maxOutSize (size : ℕ) : ℕ := size + size / 16 + 64 + 3

/-- `COMPRESSION_BYTE`. -/
def byte (x : ℕ) : UInt8 := UInt8.ofNat x

/-- `UInt` arithmetic. -/
def u32 (x : ℕ) : ℕ := x % 2 ^ 32

/-- `PTR_DIFF`, of two addresses. -/
def ptrDiff (a b : ℕ) : ℕ := (((a : Int) - b) % 2 ^ 64).toNat

/-- The source buffer of the coder: its length is a `UInt`, and it does not lie in
    the lowest pages of the address space. -/
structure Buffer where
  addr : ℕ
  bytes : List UInt8
  low : m4MaxOffset ≤ addr
  fits : addr + bytes.length < 2 ^ 64
  short : bytes.length < 2 ^ 32

/-- `aSrcBuf[i]`. -/
def Buffer.at (b : Buffer) (i : ℕ) : UInt8 := b.bytes.getD i 0

/-- The work memory: a table of addresses. -/
abbrev Dict := ℕ → ℕ

/-! ## §2. The search for a match. -/

/-- `DX3(p,5,5,6)`. -/
def dx3 (b : Buffer) (p : ℕ) : ℕ :=
  ((((((b.at (p + 3)).toNat <<< 6 ^^^ (b.at (p + 2)).toNat) <<< 5)
    ^^^ (b.at (p + 1)).toNat)) <<< 5) ^^^ (b.at p).toNat

/-- `D_INDEX1`. -/
def dIndex1 (b : Buffer) (p : ℕ) : ℕ := (0x21 * dx3 b p) >>> 5 &&& dMask

/-- `D_INDEX2`. -/
def dIndex2 (d : ℕ) : ℕ := (d &&& (dMask &&& 0x7ff)) ^^^ (dHigh ||| 0x1f)

/-- `COMPRESSION_CHECK_MPOS_NON_DET`: the offset of an entry of the work memory, if
    it points to the part of the buffer before `p` that a match can reach.  The
    difference is cut to a `UInt`, and the address computed again from it. -/
def checkMpos (b : Buffer) (p entry : ℕ) : Option ℕ :=
  let mOff := u32 (ptrDiff (b.addr + p) entry)
  if ptrDiff (b.addr + p) mOff < b.addr ∨ mOff = 0 ∨ m4MaxOffset < mOff then none else some mOff

/-- A match that is worth its header: it is near, or longer than three bytes. -/
def isWorth (b : Buffer) (p mOff : ℕ) : Bool :=
  decide (mOff ≤ m2MaxOffset) || b.at (p - mOff + 3) == b.at (p + 3)

/-- `try_match`: the first three bytes. -/
def tryMatch (b : Buffer) (p mOff : ℕ) : Option ℕ :=
  if b.at (p - mOff) = b.at p ∧ b.at (p - mOff + 1) = b.at (p + 1) ∧
      b.at (p - mOff + 2) = b.at (p + 2) then some mOff
  else none

/-- One look into the work memory: no match, the outcome of `try_match`, or no result
    where the second index is tried. -/
def tryIndex (b : Buffer) (sDict : Dict) (p dindex : ℕ) : Option (Option ℕ) :=
  match checkMpos b p (sDict dindex) with
  | none => some none
  | some mOff => if isWorth b p mOff then some (tryMatch b p mOff) else none

/-- The search at `p`: the index where `p` is put into the work memory, and the
    offset of a match. -/
def search (b : Buffer) (sDict : Dict) (p : ℕ) : ℕ × Option ℕ :=
  match tryIndex b sDict p (dIndex1 b p) with
  | some found => (dIndex1 b p, found)
  | none =>
      (dIndex2 (dIndex1 b p), (tryIndex b sDict p (dIndex2 (dIndex1 b p))).getD none)

/-! ## §3. The coder. -/

/-- `while (tt > 255) { tt -= 255; *sDestPtr++ = 0; } *sDestPtr++ = tt`. -/
def lengthBytes (tt : ℕ) : List UInt8 :=
  if 255 < tt then 0 :: lengthBytes (tt - 255) else [byte tt]
  termination_by tt
  decreasing_by omega

/-- The header of a run of more than three literals. -/
def runHeader (t : ℕ) : List UInt8 :=
  if t ≤ 18 then [byte (t - 3)] else 0 :: lengthBytes (t - 18)

/-- `sDestPtr[-2] |= t`. -/
def orSecondLast (dest : List UInt8) (t : ℕ) : List UInt8 :=
  dest.modify (dest.length - 2) (· ||| byte t)

/-- The literals before a match or before the end.  The number of up to three goes
    into the header of the match before them. -/
def putLiterals (dest lits : List UInt8) : Option (List UInt8) :=
  let t := lits.length
  if t = 0 then some dest
  else if t ≤ 3 then
    if 2 < dest.length then some (orSecondLast dest t ++ lits) else none
  else some (dest ++ runHeader t ++ lits)

/-- `m3_m4_offset`. -/
def offsetBytes (mOff : ℕ) : List UInt8 := [byte ((mOff &&& 63) <<< 2), byte (mOff >>> 6)]

/-- The header of a match; no result for a failed assertion. -/
def matchHeader (mOff mLen : ℕ) : Option (List UInt8) :=
  if mLen < 3 then none
  else if mLen ≤ m2MaxLen then
    if mOff ≤ m2MaxOffset then
      -- M2: two bytes, with the length in the upper three bits
      let mOff := mOff - 1
      some [byte ((mLen - 1) <<< 5 ||| (mOff &&& 7) <<< 2), byte (mOff >>> 3)]
    else if mOff ≤ m3MaxOffset then
      some (byte (m3Marker ||| (mLen - 2)) :: offsetBytes (mOff - 1))
    else
      -- M4: the highest bit of the offset goes into the first byte
      let mOff := mOff - 0x4000
      if 0x7fff < mOff then none
      else some (byte (m4Marker ||| (mOff &&& 0x4000) >>> 11 ||| (mLen - 2)) :: offsetBytes mOff)
  else if mOff ≤ m3MaxOffset then
    -- a match of more than eight bytes has no M2 header, however near it is
    let mOff := mOff - 1
    if mLen ≤ 33 then some (byte (m3Marker ||| (mLen - 2)) :: offsetBytes mOff)
    else some (byte (m3Marker ||| 0) :: (lengthBytes (mLen - 33) ++ offsetBytes mOff))
  else
    let mOff := mOff - 0x4000
    if 0x7fff < mOff then none
    else if mLen ≤ m4MaxLen then
      some (byte (m4Marker ||| (mOff &&& 0x4000) >>> 11 ||| (mLen - 2)) :: offsetBytes mOff)
    else
      some (byte (m4Marker ||| (mOff &&& 0x4000) >>> 11)
        :: (lengthBytes (mLen - m4MaxLen) ++ offsetBytes mOff))

/-- The state of the loop of `compressInternal`. -/
structure Enc where
  sSrcPtr : ℕ
  sSrcCalcPtr : ℕ
  sDest : List UInt8
  sDict : Dict

/-- One round: a literal is passed over, or the literals so far and a match are
    written.  The length of the match is counted up to the end of the buffer. -/
def compressStep (b : Buffer) (s : Enc) : Option Enc :=
  let r := search b s.sDict s.sSrcPtr
  let sDict := Function.update s.sDict r.1 (b.addr + s.sSrcPtr)
  match r.2 with
  | none => some { s with sDict := sDict, sSrcPtr := s.sSrcPtr + 1 }
  | some mOff => do
      let lits := (b.bytes.drop s.sSrcCalcPtr).take (s.sSrcPtr - s.sSrcCalcPtr)
      let sDest ← putLiterals s.sDest lits
      let mLen := commonLength (b.bytes.drop (s.sSrcPtr - mOff)) (b.bytes.drop s.sSrcPtr)
      let header ← matchHeader mOff mLen
      let sSrcPtr := s.sSrcPtr + mLen
      some { sSrcPtr := sSrcPtr, sSrcCalcPtr := sSrcPtr, sDest := sDest ++ header, sDict := sDict }

/-- The loop; it makes at most `fuel` rounds. -/
def compressLoop (b : Buffer) : ℕ → Enc → Option Enc
  | 0, _ => none
  | fuel + 1, s =>
      match compressStep b s with
      | none => none
      | some s =>
          if b.bytes.length - m2MaxLen - 5 ≤ s.sSrcPtr then some s else compressLoop b fuel s

/-- **`compressInternal`**: what is written, the number of bytes that remain, and the
    work memory. -/
def compressInternal (b : Buffer) (aWorkMem : Dict) : Option (List UInt8 × ℕ × Dict) := do
  let s ← compressLoop b b.bytes.length ⟨4, 0, [], aWorkMem⟩
  some (s.sDest, b.bytes.length - s.sSrcCalcPtr, s.sDict)

/-- The literals at the end.  A buffer without a match is one run with a header of
    its own, if it is short enough. -/
def putRest (dest rest : List UInt8) : Option (List UInt8) :=
  if rest.length = 0 then some dest
  else if dest.length = 0 ∧ rest.length ≤ 238 then some (byte (17 + rest.length) :: rest)
  else putLiterals dest rest

/-- The end mark. -/
def endMark : List UInt8 := [byte (m4Marker ||| 1), 0, 0]

/-- The first part of `compress`: a buffer that is too short is left as it is. -/
def compressMain (b : Buffer) (aWorkMem : Dict) : Option (List UInt8 × ℕ × Dict) :=
  if b.bytes.length ≤ m2MaxLen + 5 then some ([], b.bytes.length, aWorkMem)
  else compressInternal b aWorkMem

/-- **`compress`**: the compressed form and the work memory.  `aDestLen` is a
    `UInt` in the source, so below `2 ^ 32`. -/
def compress (b : Buffer) (aDestLen : ℕ) (aWorkMem : Dict) : Option (List UInt8 × Dict) :=
  match compressMain b aWorkMem with
  | none => none
  | some (dest, sRemains, sDict) =>
      if aDestLen < dest.length then none
      else
        (putRest dest (b.bytes.drop (b.bytes.length - sRemains))).map fun dest =>
          (dest ++ endMark, sDict)

/-! ## §4. The decoder. -/

/-- The two buffers: what is read (last byte first), what is not, what is written. -/
structure Dec where
  read : List UInt8
  rest : List UInt8
  dest : List UInt8
  deriving DecidableEq, Repr

/-- `*sSrcPtr++`. -/
def Dec.next (d : Dec) : Option (ℕ × Dec) :=
  match d.rest with
  | [] => none
  | x :: rest => some (x.toNat, { d with read := x :: d.read, rest := rest })

/-- `while (*sSrcPtr == 0) { t += 255; sSrcPtr++; } t += aBase + *sSrcPtr++`. -/
def longLength (aBase : ℕ) : ℕ → List UInt8 → List UInt8 → List UInt8 → Option (ℕ × Dec)
  | _, _, [], _ => none
  | t, read, x :: rest, dest =>
      if x = 0 then longLength aBase (u32 (t + 255)) (x :: read) rest dest
      else some (u32 (t + aBase + x.toNat), ⟨x :: read, rest, dest⟩)

/-- A length that does not fit into a header byte is 0 there and follows. -/
def Dec.length (d : Dec) (aBase t : ℕ) : Option (ℕ × Dec) :=
  if t = 0 then longLength aBase t d.read d.rest d.dest else some (t, d)

/-- `t` literals. -/
def Dec.literals (d : Dec) (t : ℕ) : Option Dec :=
  if t ≤ d.rest.length then
    some ⟨(d.rest.take t).reverse ++ d.read, d.rest.drop t, d.dest ++ d.rest.take t⟩
  else none

/-- `n` bytes from `off` bytes back in the target. -/
def Dec.copy (d : Dec) (off n : ℕ) : Option Dec :=
  (copyBack off n d.dest).map fun dest => { d with dest := dest }

/-- The labels of `decompress`: its start, the outer loop, `match` with the byte
    that is read, `match_done`, `eof_found`. -/
inductive Label where
  | start
  | outer
  | code (t : ℕ)
  | matchDone
  | eofFound
  deriving DecidableEq, Repr

/-- `match_next`: up to three literals, and the header behind them. -/
def matchNext (d : Dec) (t : ℕ) : Option (Label × Dec) := do
  let d ← d.literals t
  let (t, d) ← d.next
  some (.code t, d)

/-- `first_literal_run`: what follows a run of literals. -/
def firstLiteralRun (d : Dec) : Option (Label × Dec) := do
  let (t, d) ← d.next
  if 16 ≤ t then some (.code t, d)
  else
    let (x, d) ← d.next
    let d ← d.copy (1 + m2MaxOffset + t >>> 2 + x <<< 2) 3
    some (.matchDone, d)

/-- The two bytes of an offset. -/
def Dec.offset (d : Dec) : Option (ℕ × Dec) := do
  let (x, d) ← d.next
  let (y, d) ← d.next
  some (x >>> 2 + y <<< 6, d)

/-- The copy at the end of a match. -/
def Dec.copyMatch (d : Dec) (off t : ℕ) : Option (Label × Dec) := do
  if t = 0 then none
  else
    let d ← d.copy off (t + 2)
    some (.matchDone, d)

/-- **`match`**: one match with the header `t`. -/
def matchCode (d : Dec) (t : ℕ) : Option (Label × Dec) :=
  if 64 ≤ t then do
    -- M2
    let (x, d) ← d.next
    d.copyMatch (1 + (t >>> 2 &&& 7) + x <<< 3) (t >>> 5 - 1)
  else if 32 ≤ t then do
    -- M3
    let (t, d) ← d.length 31 (t &&& 31)
    let (off, d) ← d.offset
    d.copyMatch (1 + off) t
  else if 16 ≤ t then do
    -- M4, or the end mark, whose offset is zero
    let high := (t &&& 8) <<< 11
    let (t, d) ← d.length 7 (t &&& 7)
    let (off, d) ← d.offset
    if high + off = 0 then
      if t = 1 then some (.eofFound, d) else none
    else d.copyMatch (high + off + 0x4000) t
  else do
    -- the coder writes no such header
    let (x, d) ← d.next
    let d ← d.copy (1 + t >>> 2 + x <<< 2) 2
    some (.matchDone, d)

/-- **One step of `decompress`**, to the next label; no result for a failed assertion
    or an access outside the buffers. -/
def decStep (d : Dec) : Label → Option (Label × Dec)
  | .start => do
      let (x, d') ← d.next
      if 17 < x then
        -- one run of literals with a header of its own
        let t := x - 17
        if t < 4 then matchNext d' t
        else
          let d ← d'.literals t
          firstLiteralRun d
      else some (.outer, d)
  | .outer => do
      let (t, d) ← d.next
      if 16 ≤ t then some (.code t, d)
      else
        let (t, d) ← d.length 15 t
        if t = 0 then none
        else
          let d ← d.literals (t + 3)
          firstLiteralRun d
  | .code t => matchCode d t
  | .matchDone =>
      match d.read with
      | _ :: x :: _ => if x.toNat &&& 3 = 0 then some (.outer, d) else matchNext d (x.toNat &&& 3)
      | _ => none
  | .eofFound => some (.eofFound, d)

/-- `n` steps. -/
def decRun : ℕ → Label → Dec → Option (Label × Dec)
  | 0, l, d => some (l, d)
  | n + 1, l, d =>
      match decStep d l with
      | some (l, d) => decRun n l d
      | none => none

/-- **`decompress`**: the end mark has to stand at the end.  From each label to the
    next but one at least a byte is read, which bounds the number of steps. -/
def decompress (src : List UInt8) : Option (List UInt8) :=
  match decRun (2 * src.length + 2) .start ⟨[], src, []⟩ with
  | some (.eofFound, d) => if d.rest = [] then some d.dest else none
  | _ => none

end Altibase.Idu.Compression
