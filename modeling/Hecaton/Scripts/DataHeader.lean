import Hecaton.Scripts.Boundaries

/-!
# The generated header

`parse_vmlinux.py` writes the columns of its table as arrays, with a line break after
every fifth element.  What stands behind the last element is stripped.
-/

namespace Hecaton.Scripts

/-! ## Writing an array -/

/-- The loop that writes the elements, from the one at `index` on. -/
def writeElements (defstr : Str) (index : Nat) : List Str → Str
  | [] => defstr
  | element :: rest =>
      let defstr := defstr ++ element ++ ", ".toList
      let defstr := if index % 5 = 0 then defstr ++ ['\n'] else defstr
      writeElements defstr (index + 1) rest

/-- The end of the last element is stripped and the list closed. -/
def closeList (defstr : Str) : Str :=
  rstripChar ',' (rstripChar ' ' (rstripChar '\n' defstr)) ++ "\x7d;\n".toList

/-- What an array's declaration begins with. -/
def arrayHead (kind name size : Str) : Str :=
  kind ++ ' ' :: name ++ '[' :: size ++ "] = \x7b".toList

/-- The array of a column. -/
def columnArray (kind name size : Str) (column : List Str) : Str :=
  closeList (writeElements (arrayHead kind name size) 0 column)

def uint64 : Str := "uint64_t".toList

def int8 : Str := "int8_t".toList

def arraySize : Str := "HECATON_ARRAY_SIZE".toList

def coldArraySize : Str := "HECATON_COLD_ARRAY_SIZE".toList

/-- An address as a C constant. -/
def hexText (addr : Str) : Str := "0x".toList ++ addr

/-! ## The arrays -/

def fncBeginAddrs (functions : List FuncClass) : Str :=
  columnArray uint64 "hecaton_fnc_begin_addrs".toList arraySize
    (functions.map fun function => hexText function.baseAddr)

def fncEndAddrs (functions : List FuncClass) : Str :=
  columnArray uint64 "hecaton_fnc_end_addrs".toList arraySize
    (functions.map fun function => hexText function.endAddr)

/-- The loop over the cold parts: it writes their addresses and the indices of their
functions, and counts both. -/
def writeColdElements (addr : FuncClass → Str) (defstr defstrIndex : Str) (index coldIndex : Nat) :
    List FuncClass → Str × Str
  | [] => (defstr, defstrIndex)
  | function :: rest =>
      if function.hasCold then
        let defstr := defstr ++ hexText (addr function) ++ ", ".toList
        let defstrIndex := defstrIndex ++ str index ++ ", ".toList
        let (defstr, defstrIndex) :=
          if coldIndex % 5 = 0 then (defstr ++ ['\n'], defstrIndex ++ ['\n'])
          else (defstr, defstrIndex)
        writeColdElements addr defstr defstrIndex (index + 1) (coldIndex + 1) rest
      else writeColdElements addr defstr defstrIndex (index + 1) coldIndex rest

/-- The begin addresses of the cold parts and the indices of their functions. -/
def coldBegins (functions : List FuncClass) : Str :=
  let (defstr, defstrIndex) :=
    writeColdElements FuncClass.baseAddrCold
      (arrayHead uint64 "hecaton_cold_begin_addrs".toList coldArraySize)
      (arrayHead uint64 "hecaton_cold_begin_index".toList coldArraySize) 0 0 functions
  closeList defstr ++ closeList defstrIndex

/-- The end addresses of the cold parts.  The indices that the loop writes besides are
not written to the file. -/
def coldEndAddrs (functions : List FuncClass) : Str :=
  let (defstr, _) :=
    writeColdElements FuncClass.endAddrCold
      (arrayHead uint64 "hecaton_cold_end_addrs".toList coldArraySize)
      (arrayHead uint64 "hecaton_cold_end_index".toList coldArraySize) 0 0 functions
  closeList defstr

def r15Array (functions : List FuncClass) : Str :=
  columnArray int8 "hecaton_r15".toList arraySize (functions.map fun function => str function.r15)

def r14Array (functions : List FuncClass) : Str :=
  columnArray int8 "hecaton_r14".toList arraySize (functions.map fun function => str function.r14)

def r13Array (functions : List FuncClass) : Str :=
  columnArray int8 "hecaton_r13".toList arraySize (functions.map fun function => str function.r13)

def r12Array (functions : List FuncClass) : Str :=
  columnArray int8 "hecaton_r12".toList arraySize (functions.map fun function => str function.r12)

def rbxArray (functions : List FuncClass) : Str :=
  columnArray int8 "hecaton_rbx".toList arraySize (functions.map fun function => str function.rbx)

/-- `f.name + '\n' in supp_lines`, as a number. -/
def supportedFlag (suppLines : List Str) (f : FuncClass) : Int :=
  if f.name ++ ['\n'] ∈ suppLines then 1 else 0

def supportedArray (suppLines : List Str) (functions : List FuncClass) : Str :=
  columnArray int8 "hecaton_supported".toList arraySize
    (functions.map fun f => str (supportedFlag suppLines f))

/-! ## The file -/

/-- `#define` with a number. -/
def define (name : Str) (n : Nat) : Str := "#define ".toList ++ name ++ '\t' :: str n ++ ['\n']

/-- What the script writes. -/
def dataHeader (suppLines : List Str) (functions : List FuncClass) : Str :=
  "#ifndef __HECATON_DATA_FLAG\n".toList ++ "#define __HECATON_DATA_FLAG\n".toList ++
    define arraySize functions.length ++
    define coldArraySize (functions.filter FuncClass.hasCold).length ++
    fncBeginAddrs functions ++ fncEndAddrs functions ++ coldBegins functions ++
    coldEndAddrs functions ++ r15Array functions ++ r14Array functions ++ r13Array functions ++
    r12Array functions ++ rbxArray functions ++ supportedArray suppLines functions ++
    "#endif\n".toList

/-! ## Reading an array -/

/-- A declaration of an array. -/
structure Declaration where
  name : Str
  size : Str
  elements : List Str
  deriving DecidableEq

/-- The elements of an initialiser list: it is split at commas, and white space is
ignored. -/
def readElements (list : Str) : List Str :=
  let text := list.filter fun c => !isSpace c
  if text = [] then [] else text.splitOn ','

/-- What stands before the first `c`. -/
def before (c : Char) (s : Str) : Str := s.takeWhile (· != c)

/-- What stands behind the first `c`. -/
def behind (c : Char) (s : Str) : Str := (s.dropWhile (· != c)).drop 1

/-- The array declaration in a piece of the file, if there is one. -/
def readDeclaration (piece : Str) : Option Declaration :=
  if '{' ∈ piece then
    some {
      name := (split (before '[' piece)).getLastD []
      size := before ']' (behind '[' piece)
      elements := readElements (before '}' (behind '{' piece)) }
  else none

/-- The array declarations of a file. -/
def readDeclarations (file : Str) : List Declaration :=
  (file.splitOn ';').filterMap readDeclaration

/-- What a name is defined as. -/
def readDefine (name file : Str) : Option Str :=
  (readlines file).findSome? fun line =>
    match split line with
    | [directive, defined, value] =>
        if directive = "#define".toList ∧ defined = name then some value else none
    | _ => none

end Hecaton.Scripts
