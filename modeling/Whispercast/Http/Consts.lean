import Whispercast.Io.Operations
import Whispercast.Library.Numeral

/-!
# HTTP constants

`http_consts.h`: header names, methods, versions, return codes and the classes of characters, with the C
string functions that the header code calls. A `const char*` ends at its first NUL (`cStr`).
-/

namespace Whispercast.Http

open Io Library Numeral

/-- The bytes of a string literal. -/
def ascii (s : String) : Bytes := s.toList.map fun c => UInt8.ofNat c.toNat

/-- CR LF. -/
def crlf : Bytes := [13, 10]

/-! ## C strings -/

/-- What a `const char*` to the text shows. -/
def cStr (s : Bytes) : Bytes := s.takeWhile (· ≠ 0)

/-- `isupper` in the C locale. -/
def isUpper (c : UInt8) : Bool := 65 ≤ c && c ≤ 90

/-- `islower` in the C locale. -/
def isLower (c : UInt8) : Bool := 97 ≤ c && c ≤ 122

/-- `isalpha` in the C locale. -/
def isAlpha (c : UInt8) : Bool := isUpper c || isLower c

/-- `toupper` in the C locale. -/
def toUpper (c : UInt8) : UInt8 := if isLower c then c - 32 else c

/-- `tolower` in the C locale. -/
def toLower (c : UInt8) : UInt8 := if isUpper c then c + 32 else c

/-- `strcasecmp` finds no difference. -/
def strCaseEq (a b : Bytes) : Bool := (cStr a).map toLower = (cStr b).map toLower

def strIStartsWith (str prefix_ : Bytes) : Bool := (prefix_.map toUpper).isPrefixOf ((cStr str).map toUpper)

def strTrim (s : Bytes) : Bytes := (s.dropWhile Numeral.isSpace).rdropWhile Numeral.isSpace

/-- `StringPrintf("%d", n)` for an `int`. -/
def intToString (n : Int) : Bytes :=
  if n < 0 then 45 :: Numeral.numeral 10 n.natAbs else Numeral.numeral 10 n.natAbs

/-- A number that is stored as an `int32`. -/
def toInt32 (n : Int) : Int := n.bmod (2 ^ 32)

/-- A number that is compared as a `size_t`. -/
def toSize (n : Int) : Int := n % 2 ^ 64

/-- A number that is compared as a `uint32`. -/
def toUint32 (n : Int) : Int := n % 2 ^ 32

/-! ## Numbers -/

theorem toInt32_toInt32 (n : Int) : toInt32 (toInt32 n) = toInt32 n := Int.bmod_bmod

/-- A number that was written as an `int` is read as it was. -/
theorem strtol_intToString {n : Int} (hle : -2 ^ 31 ≤ n) (hlt : n < 2 ^ 31) :
    Numeral.strtol 10 (intToString n) = (n, false) := by
  have hdigits : ∀ c ∈ numeral 10 n.natAbs, isDigit 10 c = true := fun c hc =>
    isDigit_of_mem_numeral (by decide) (by decide) hc
  have hvalue : value 10 (numeral 10 n.natAbs) = n.natAbs :=
    value_numeral (by decide) (by decide)
  rw [intToString]
  by_cases hneg : n < 0
  · -- The sign is no blank and no digit.
    have hzero : (45 :: numeral 10 n.natAbs).takeWhile (· ≠ 0) = 45 :: numeral 10 n.natAbs := by
      rw [List.takeWhile_eq_self_iff]
      intro c hc
      rcases List.mem_cons.1 hc with rfl | hmem
      · decide
      · have hge := le_of_isDigit (by decide) (hdigits c hmem)
        rw [decide_eq_true_iff]
        rintro rfl
        exact absurd hge (by decide)
    have hunsigned : unsignedAt 10 (numeral 10 n.natAbs ++ []) =
        value 10 (numeral 10 n.natAbs) :=
      unsignedAt_digits hdigits numeral_ne_nil (fun c hc => by cases hc)
        (fun hb => absurd hb (by decide))
    rw [List.append_nil, hvalue] at hunsigned
    have hnumber : numberAt 10 (45 :: numeral 10 n.natAbs) = n := by
      rw [numberAt, List.dropWhile_cons_of_neg (by decide)]
      show -(unsignedAt 10 (numeral 10 n.natAbs) : Int) = n
      rw [hunsigned]
      omega
    rw [if_pos hneg, strtol, hzero, hnumber, longMax, longMin]
    rw [if_neg (by omega), if_neg (by omega)]
  · have hstrtol := strtol_digits (by decide : 10 ≤ 36) [] hdigits numeral_ne_nil
      (fun c hc => by cases hc) (fun hb => absurd hb (by decide))
    rw [List.append_nil, hvalue, longMax, if_neg (by omega)] at hstrtol
    rw [if_neg hneg, hstrtol, Prod.mk.injEq]
    exact ⟨by omega, rfl⟩

/-- A character of a number that is not the sign is a digit. -/
theorem isDigit_of_mem_intToString {n : Int} {c : UInt8} (h : c ∈ intToString n) (hc : c ≠ 45) :
    Numeral.isDigit 10 c = true := by
  rw [intToString] at h
  split_ifs at h
  · rcases List.mem_cons.1 h with rfl | hmem
    · exact absurd rfl hc
    · exact isDigit_of_mem_numeral (by decide) (by decide) hmem
  · exact isDigit_of_mem_numeral (by decide) (by decide) h

/-- The characters of a number are the sign and digits. -/
theorem not_mem_intToString (n : Int) {c : UInt8} (hc : c < 45) : c ∉ intToString n := by
  intro hmem
  have hne : c ≠ 45 := by
    rintro rfl
    exact absurd hc (by decide)
  have hge := le_of_isDigit (by decide) (isDigit_of_mem_intToString hmem hne)
  exact absurd (UInt8.lt_of_lt_of_le hc (by decide : (45 : UInt8) ≤ 48)) (UInt8.not_lt.2 hge)

theorem intToString_ne_nil (n : Int) : intToString n ≠ [] := by
  rw [intToString]
  split_ifs
  · exact List.cons_ne_nil _ _
  · exact numeral_ne_nil

/-! ## Classes of characters -/

def isCtlChar (c : UInt8) : Bool := c ≤ 31 || c = 127

def isAsciiChar (c : UInt8) : Bool := c ≤ 127

def isWhiteSpace (c : UInt8) : Bool := c = 32 || c = 9

/-- `CHAR_LWF` in `kSharedCharTypeTable`. -/
def isLwfChar (c : UInt8) : Bool := c = 9 || c = 10 || c = 13 || c = 32

/-- `CHAR_SEPARATOR` in `kSharedCharTypeTable`; the closing brace is not marked there. -/
def isSeparatorChar (c : UInt8) : Bool :=
  c = 9 || c = 32 || c = 34 || c = 40 || c = 41 || c = 44 || c = 47 || (58 ≤ c && c ≤ 64) ||
    (91 ≤ c && c ≤ 93) || c = 123 || c = 124

def isTokenChar (c : UInt8) : Bool := isAsciiChar c && !isCtlChar c && !isSeparatorChar c

/-! ## Return codes -/

/-- `HttpReturnCode`: the bits of an `unsigned int`. -/
abbrev HttpReturnCode := UInt32

namespace HttpReturnCode

def unknown : HttpReturnCode := 0
def ok : HttpReturnCode := 200
def noContent : HttpReturnCode := 204
def notModified : HttpReturnCode := 304
def badRequest : HttpReturnCode := 400
def internalServerError : HttpReturnCode := 500

/-- `HttpReturnCode(n)`. -/
def ofInt (n : Int) : HttpReturnCode := UInt32.ofInt n

/-- `static_cast<int>(code)`. -/
def toInt (code : HttpReturnCode) : Int := toInt32 code.toNat

end HttpReturnCode

/-! ## Header names -/

def kHeaderTransferEncoding : Bytes := ascii "Transfer-Encoding"
def kHeaderContentEncoding : Bytes := ascii "Content-Encoding"
def kHeaderContentLength : Bytes := ascii "Content-Length"

/-! ## Methods -/

inductive HttpMethod where
  | unknown | options | get | head | post | put | delete | trace | connect
  deriving DecidableEq

/-- The name that `GetHttpMethod` looks for. -/
def methodNames : List (Bytes × HttpMethod) :=
  [(ascii "OPTIONS", .options), (ascii "GET", .get), (ascii "HEAD", .head), (ascii "POST", .post),
    (ascii "PUT", .put), (ascii "DELETE", .delete), (ascii "TRACE", .trace), (ascii "CONNECT", .connect)]

/-- `GetHttpMethod`: the names differ in their first letter or in the rest, so the `switch` on the first
letter finds the one name that is equal. -/
def getHttpMethod (method : Bytes) : HttpMethod :=
  ((methodNames.find? fun e => strCaseEq method e.1).map Prod.snd).getD .unknown

def getHttpMethodName : HttpMethod → Bytes
  | .unknown => ascii "UNKNOWN"
  | .options => ascii "OPTIONS"
  | .get => ascii "GET"
  | .head => ascii "HEAD"
  | .post => ascii "POST"
  | .put => ascii "PUT"
  | .delete => ascii "DELETE"
  | .trace => ascii "TRACE"
  | .connect => ascii "CONNECT"

/-! ## Versions -/

inductive HttpVersion where
  | unknown | v0_9 | v1_0 | v1_1
  deriving DecidableEq

namespace HttpVersion

/-- The value of the enumerator. -/
def toNat : HttpVersion → Nat
  | .unknown => 0
  | .v0_9 => 1
  | .v1_0 => 2
  | .v1_1 => 3

end HttpVersion

def getHttpVersionName : HttpVersion → Bytes
  | .v0_9 => ascii "HTTP/0.9"
  | .v1_0 => ascii "HTTP/1.0"
  | .v1_1 => ascii "HTTP/1.1"
  | .unknown => ascii "HTTP/unknown"

def getHttpVersion (ver : Bytes) : HttpVersion :=
  if strCaseEq ver (getHttpVersionName .v1_1) then .v1_1
  else if strCaseEq ver (getHttpVersionName .v1_0) then .v1_0
  else if strCaseEq ver (getHttpVersionName .v0_9) then .v0_9
  else .unknown

end Whispercast.Http
