import Whispercast.Io.DataBlock
import Whispercast.Library.Components

/-!
# Normal paths

Model of `strutil::NormalizePath` (`whisperlib/common/base/strutil.cc`). Each of its loops looks for a pattern and cuts
something out where it finds it. A loop is given as many passes as the string has bytes, and one more to find nothing;
it is `none` where these are not enough.
-/

namespace Whispercast.Util.Strutil

open Library Library.Components Io

/-- `s.find(pattern, start)`. -/
def find (pattern : Bytes) (start : Nat) (s : Bytes) : Option Nat :=
  (findSub pattern (s.drop start)).map (· + start)

/-- `s.find_last_of(sep, pos)`. -/
def findLastOf (sep : UInt8) (s : Bytes) (pos : Nat) : Option Nat := lastIndexOf sep (s.take (pos + 1))

/-- The loops that take `cut` bytes out wherever a pattern is found. -/
def removeLoop (pattern : Bytes) (start cut : Nat) : Nat → Bytes → Option Bytes
  | 0, _ => none
  | fuel + 1, s =>
    match find pattern start s with
    | none => some s
    | some index => removeLoop pattern start cut fuel (s.take index ++ s.drop (index + cut))

/-- How the part that resolves "/.." ends: with a path, or with a `return` of the root. -/
inductive Resolved where
  | root
  | path (s : Bytes)

/-- The loop for "/../". -/
def parentLoop (sep : UInt8) : Nat → Bytes → Option Resolved
  | 0, _ => none
  | fuel + 1, s =>
    match find [sep, 0x2e, 0x2e, sep] 0 s with
    | none => some (.path s)
    | some index =>
      if index = 0 then some .root
      else
        match findLastOf sep s (index - 1) with
        | none => some .root
        | some index2 => parentLoop sep fuel (s.take index2 ++ s.drop (index + 3))

/-- "/." at the end. -/
def resolveDotEnd (sep : UInt8) (s : Bytes) : Bytes :=
  match rfindSub [sep, 0x2e] s with
  | none => s
  | some index => if index = s.length - 2 then s.take index else s

/-- "/.." at the end. -/
def resolveParentEnd (sep : UInt8) (s : Bytes) : Resolved :=
  match rfindSub [sep, 0x2e, 0x2e] s with
  | none => .path s
  | some index =>
    if index = s.length - 3 then
      if index = 0 then .root
      else
        match findLastOf sep s (index - 1) with
        | none => .root
        | some index2 => .path (s.take index2)
    else .path s

/-- The loops and the ends, on a string that starts with the separator. -/
def resolve (sep : UInt8) (s : Bytes) : Option Resolved := do
  let s ← removeLoop [sep, sep, sep] 0 2 (s.length + 1) s
  let s ← removeLoop [sep, sep] 1 1 (s.length + 1) s
  let s ← removeLoop [sep, 0x2e, sep] 0 2 (s.length + 1) s
  let resolved ← parentLoop sep (s.length + 1) s
  match resolved with
  | .root => some .root
  | .path s => some (resolveParentEnd sep (resolveDotEnd sep s))

/-- What is returned: the root, or the path, without the separator that was added. -/
def finish (sep : UInt8) (slash_added : Bool) : Resolved → Bytes
  | .root => if slash_added then [] else [sep]
  | .path s =>
    let s := if !slash_added && s.isEmpty then [sep] else s
    if !slash_added || s.isEmpty then s else s.drop 1

/-- The string with separators for backslashes. -/
def withSeparators (sep : UInt8) (path : Bytes) : Bytes := path.map fun b => if b = 0x5c then sep else b

def normalizePath (path : Bytes) (sep : UInt8) : Option Bytes :=
  let s := withSeparators sep path
  let slash_added := s.headD 0 != sep
  (resolve sep (if slash_added then sep :: s else s)).map (finish sep slash_added)

end Whispercast.Util.Strutil
