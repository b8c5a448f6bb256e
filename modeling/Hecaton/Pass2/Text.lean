import Mathlib.Data.List.Infix

/-!
# Reading arguments from a text

The pass has no argument list of the calls it compares: it cuts the text of a
statement at its parentheses and commas.
-/

namespace Hecaton.Pass2

/-- `str.find(sub) != std::string::npos`. -/
def contains (str sub : String) : Bool := decide (sub.toList <:+: str.toList)

/-- `remove_spaces`. -/
def removeSpaces (str : List Char) : List Char :=
  str.filter fun ch => ch != ' ' && ch != '\n' && ch != '\t'

/-- The tokens that `std::getline` reads from a stream up to each comma.  Behind
a last comma there is no token. -/
def getTokens : List Char → List (List Char)
  | [] => []
  | ch :: rest =>
      if ch = ',' then [] :: getTokens rest
      else
        match getTokens rest with
        | [] => [[ch]]
        | token :: tokens => (ch :: token) :: tokens

/-- `str.find(ch)`. -/
def findFirst (str : List Char) (ch : Char) : Option Nat := str.findIdx? (· == ch)

/-- `str.find_last_of(ch)`. -/
def findLast (str : List Char) (ch : Char) : Option Nat :=
  (str.reverse.findIdx? (· == ch)).map fun i => str.length - 1 - i

/-- `parse_param`: what stands before the first `=`, or nothing, then the tokens
between the first opening and the last closing parenthesis.  When the closing
one stands first, the length of the cut wraps around and the rest of the text is
taken. -/
def parseParam (text : String) : List String :=
  let str := removeSpaces text.toList
  let param0 :=
    match findFirst str '=' with
    | some pos => String.ofList (str.take pos)
    | none => ""
  match findFirst str '(', findLast str ')' with
  | some startPos, some endPos =>
      let subStr :=
        if endPos < startPos then str.drop (startPos + 1)
        else (str.drop (startPos + 1)).take (endPos - startPos - 1)
      param0 :: (getTokens subStr).map String.ofList
  | _, _ => [param0]

example : parseParam "ret = f(a, *b)" = ["ret", "a", "*b"] := by decide

/-- The tests on the arguments of the functions that undo and are undone under
one name: which state or level makes the call the one or the other. -/
def selectsParam (state level fncname : String) (paramList : List String) : Bool :=
  if fncname = "pinctrl_select_state" then
    paramList.length == 3 && contains (paramList.getD 2 "") state
  else if fncname = "msm_camera_config_vreg" ∨ fncname = "msm_camera_enable_vreg" then
    paramList.length == 8 && paramList.getD 7 "" == level
  else if fncname = "regulator_set_voltage" then
    paramList.length == 4 && paramList.getD 2 "" == level
  else true

end Hecaton.Pass2
