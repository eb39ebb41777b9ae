import LiebeOS.Memory.Allotted

/-! The path parser of `pparser.c`. A string is the list of its bytes in front
of the terminator. Of a path only the records on the heap matter here, and how
the path is cut into parts. -/
namespace LiebeOS

open Attempts

def liebeOsMaxPathLen : Nat := 108

def slash : UInt8 := 0x2F
def colon : UInt8 := 0x3A

/-- One `struct path_part`: its address, the address of its string, and the
string. -/
structure PathPart where
  node : Nat
  str : Nat
  part : List UInt8

/-- A root at the null pointer means that there is none. -/
structure PathRoot where
  root : Nat
  driveNo : Int
  first : List PathPart

def strnlen (ptr : List UInt8) (max : Nat) : Nat := min ptr.length max

def isDigit (c : UInt8) : Bool := 48 ≤ c && c ≤ 57

def atoi (c : UInt8) : Int := c.toNat - 48

def isValidPath (filename : List UInt8) : Bool :=
  3 ≤ strnlen filename liebeOsMaxPathLen && isDigit (filename.getD 0 0) &&
    (filename.getD 1 0 == colon && filename.getD 2 0 == slash)

/-- The bytes up to the next slash. -/
def pathComponent (path : List UInt8) : List UInt8 := path.takeWhile (· ≠ slash)

/-- What is left behind that slash. -/
def pathRest (path : List UInt8) : List UInt8 := (path.dropWhile (· ≠ slash)).tail

/-- The recursion of `create_path_nodes`, which is at most as deep as the path
is long. No result of `kzalloc` is checked: a part at the null pointer ends the
chain. A component longer than a block runs into whatever lies behind it. -/
def createPathNodes : Nat → Heap → List UInt8 → Attempt (List PathPart × Heap)
  | 0, heap, _ => .returned ([], heap)
  | left + 1, heap, path =>
      if path = [] then .returned ([], heap)
      else if liebeOsHeapBlockSize ≤ (pathComponent path).length then .undefined
      else do
        let (str, heap) := heapMalloc heap liebeOsMaxPathLen
        let (node, heap) := heapMalloc heap 8
        let (parts, heap) ← createPathNodes left heap (pathRest path)
        .returned (if node = 0 then [] else ⟨node, str, pathComponent path⟩ :: parts, heap)

/-- The root record is not checked either. -/
def pathparserParse (heap : Heap) (path : List UInt8) : Attempt (PathRoot × Heap) :=
  if !isValidPath path then .returned (⟨0, 0, []⟩, heap)
  else do
    let driveNumber := atoi (path.getD 0 0)
    let (root, heap) := heapMalloc heap 8
    let (parts, heap) ← createPathNodes path.length heap (path.drop 3)
    .returned (⟨root, driveNumber, parts⟩, heap)

end LiebeOS
