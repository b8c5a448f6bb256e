import Hecaton.Scripts.Python

/-!
# The boundaries of functions

`parse_vmlinux.py` reads the disassembly of the kernel line by line.  A header line
begins a function, which ends before the next blank line.
-/

namespace Hecaton.Scripts

open Hecaton.Library

/-- `FuncClass`: what the script records of a function. -/
structure FuncClass where
  name : Str
  baseAddr : Str
  baseLine : Nat
  endAddr : Str := []
  endLine : Nat := 0
  baseAddrCold : Str := ['0']
  baseLineCold : Nat := 0
  hasCold : Bool := false
  endAddrCold : Str := ['0']
  endLineCold : Nat := 0
  rbx : Int := 100
  r12 : Int := 100
  r13 : Int := 100
  r14 : Int := 100
  r15 : Int := 100
  deriving DecidableEq

/-! ## The scan -/

/-- `name[1:(len(name)-2)]`. -/
def bareName (name : Str) : Str := (name.take (name.length - 2)).drop 1

/-- A line of a header: it contains `>:`. -/
def isHeader (line : Str) : Bool := contains line ['>', ':']

/-- `".cold" in line`. -/
def hasColdText (line : Str) : Bool := contains line ".cold".toList

/-- `"cold" in name`. -/
def isColdName (name : Str) : Bool := contains name "cold".toList

/-- What objdump writes for lines that it leaves out. -/
def ellipsis : Str := "...".toList

/-- `y[0]` without its trailing colons. -/
def firstWord (line : Str) : Except PyError Str := do
  let word ← index (split line) 0
  return rstripChar ':' word

/-- What the inner loop leaves: the record, the shared `end_addr`, the index of the
next line and the lines from it on. -/
structure FunctionScan where
  func : FuncClass
  endAddr : Option Str
  next : Nat
  rest : List Str

/-- The inner loop over the lines of a function.  `previous` is the line before the
one at index `i`. -/
def scanFunction (func : FuncClass) (endAddr : Option Str) (previous : Str) (i : Nat) :
    List Str → Except PyError FunctionScan
  | [] => .ok ⟨func, endAddr, i, []⟩
  | line2 :: rest =>
      let func := if hasColdText line2 then { func with hasCold := true } else func
      if line2 = ['\n'] then do
        let word ← firstWord previous
        return ⟨{ func with endLine := i - 1 }, some word, i + 1, rest⟩
      else scanFunction func endAddr line2 (i + 1) rest

/-- The variables of the outer loop: the index of the next line, the lines from it
on, `end_addr` once it is bound, and `functions`. -/
structure Scan where
  next : Nat
  rest : List Str
  endAddr : Option Str
  functions : List FuncClass

/-- One round of the outer loop. -/
def scanLine (line : Str) (i : Nat) (rest : List Str) (scan : Scan) : Except PyError Scan := do
  if isHeader line then
    let x := split line
    let name ← index x 1
    let addr ← index x 0
    let name := bareName name
    if isColdName name then
      return { scan with next := i + 1, rest }
    let found ← scanFunction { name, baseAddr := addr, baseLine := i } scan.endAddr line (i + 1) rest
    match found.endAddr with
    | none => .error .nameError
    | some endAddr =>
        let func := { found.func with endAddr }
        return {
          next := found.next
          rest := found.rest
          endAddr := some endAddr
          functions :=
            if endAddr = ellipsis then scan.functions else scan.functions ++ [func] }
  else
    return { scan with next := i + 1, rest }

/-- The outer loop.  Each round takes a line, so that as many rounds as lines are
enough. -/
def scanLoop : Nat → Scan → Except PyError Scan
  | 0, scan => .ok scan
  | rounds + 1, scan =>
      match scan.rest with
      | [] => .ok scan
      | line :: rest => do
          let scan ← scanLine line scan.next rest scan
          scanLoop rounds scan

/-- The functions of a listing. -/
def findBoundaries (lines : List Str) : Except PyError (List FuncClass) := do
  let scan ← scanLoop lines.length ⟨0, lines, none, []⟩
  return scan.functions

end Hecaton.Scripts
