import RunOnce.Scenario.Script

/-!
# The own process id

**The sign.** A transcript shows a sign in place of the own process id wherever it stands in the
name of an object (`hidePid`), so that it does not depend on which process runs the script.

**The choice** (`ownPid`). Any process id will do as long as the sign replaces what it stands for
and nothing else: no name that the script makes may hold the digits of the id by chance. So the
names are collected as pieces with the id between them, and the first id that is faithful to all of
them is taken.
-/

namespace RunOnce.Scenario

open Region

/-- What is shown in place of the own process id. -/
def pidSign : String := "<pid>"

/-- The digits of a process id. -/
def pidDigits (pid : UInt32) : String := toString pid.toNat

/-- The text with the given process id in it replaced by the sign. -/
def hidePid (pid : UInt32) (text : String) : String := text.replace (pidDigits pid) pidSign

/-! ## Names of a script -/

/-- The place of the own process id in a suffix. -/
def pidPlace : String := "\x7bpid\x7d"

/-- The pieces of the name that a tag and a suffix make; the own process id stands between them. -/
def Suffix.pieces (tag : String) : Suffix → List String
  | .text suffix =>
    match suffix.splitOn pidPlace with
    | [] => [tag]
    | first :: rest => (tag ++ first) :: rest
  | .bytes raw => [(FileName.ofBytes (tag.toUTF8.toList ++ raw)).shown]

/-- The file name that a tag and a suffix make for a process. -/
def Suffix.fileName (pid : UInt32) (tag : String) : Suffix → FileName
  | s@(.text _) => .text ((pidDigits pid).intercalate (s.pieces tag))
  | .bytes raw => .ofBytes (tag.toUTF8.toList ++ raw)

/-- The pieces of the name of a region that the own process creates. -/
def regionPieces (tag : String) : List String := [tag ++ "_", ""]

/-- The tag that settings lead to. -/
def Settings.tag (s : Settings) : String := s.resolve.1.regionTag

/-- The pieces of the name of the region that a target may create. -/
def TargetKind.pieces : TargetKind → List (List String)
  | .context _ settings | .attach settings => [regionPieces settings.tag]
  | .inProcess | .localContext | .overRegion _ _ => []

mutual
/-- The pieces of the names that a step may make or show. -/
def Step.pieces : Step → List (List String)
  | .target _ kind => kind.pieces
  | .region _ _ tag _ | .cleanup tag => [regionPieces tag]
  | .plant tag suffix _ | .unplant tag suffix => [suffix.pieces tag]
  | .exec _ _ _ body _ => piecesAll body
  | .access _ _ _ _ body _ => piecesAll body
  | .thread _ body => piecesAll body
  | .task _ body => piecesAll body
  | .gather _ branches => piecesBranches branches
  | _ => []
/-- The pieces of the names that a list of steps may make or show. -/
def piecesAll : List Step → List (List String)
  | [] => []
  | s :: rest => s.pieces ++ piecesAll rest
/-- The pieces of the names that the branches may make or show. -/
def piecesBranches : List (List Step) → List (List String)
  | [] => []
  | b :: rest => piecesAll b ++ piecesBranches rest
end

/-! ## The choice -/

/-- Whether hiding the process id in a name puts the sign between its pieces and nowhere else. -/
def isFaithful (pid : UInt32) (pieces : List String) : Bool :=
  hidePid pid ((pidDigits pid).intercalate pieces) = pidSign.intercalate pieces

/-- The first process id from a given one on that is faithful to all names, among so many. -/
def firstFaithful (names : List (List String)) : Nat → UInt32 → UInt32
  | 0, pid => pid
  | n + 1, pid => if names.all (isFaithful pid) then pid else firstFaithful names n (pid + 1)

/-- The process id at which the search begins. -/
def leastPid : UInt32 := 1000000

/-- How many characters the names have, the places of process ids included. -/
def lengthOf (names : List (List String)) : Nat :=
  names.flatten.foldl (fun total piece => total + piece.length + 1) 0

/-- The process id of the process that runs a script. Each character of a name rules out only a few
ids, so the search ends with a faithful one. -/
def ownPid (script : List Step) : UInt32 :=
  let names := piecesAll script
  firstFaithful names (8 * lengthOf names + 8) leastPid

end RunOnce.Scenario
