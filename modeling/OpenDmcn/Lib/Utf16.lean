import OpenDmcn.Lib.Bytes

/-! The strings of JavaScript: code units of sixteen bits, of which two may make one character. A
unit of such a pair that stands alone is no character. -/

namespace Js

abbrev Text := List UInt16

inductive CodePoint where
  | char (c : Char)
  | lone (u : UInt16)
  deriving DecidableEq

def isHigh (u : UInt16) : Bool := decide (0xD800 ≤ u.toNat ∧ u.toNat < 0xDC00)

def isLow (u : UInt16) : Bool := decide (0xDC00 ≤ u.toNat ∧ u.toNat < 0xE000)

def pair (u v : UInt16) : Char :=
  Char.ofNat (0x10000 + (u.toNat - 0xD800) * 0x400 + (v.toNat - 0xDC00))

def codePoint (u : UInt16) : CodePoint :=
  if isHigh u || isLow u then .lone u else .char (Char.ofNat u.toNat)

def codePoints : Text → List CodePoint
  | [] => []
  | [u] => [codePoint u]
  | u :: v :: rest =>
    if isHigh u && isLow v then .char (pair u v) :: codePoints rest else codePoint u ::
      codePoints (v :: rest)

def units (c : Char) : Text :=
  if c.toNat < 0x10000 then [UInt16.ofNat c.toNat]
  else [UInt16.ofNat (0xD800 + (c.toNat - 0x10000) / 0x400),
    UInt16.ofNat (0xDC00 + (c.toNat - 0x10000) % 0x400)]

def CodePoint.units : CodePoint → Text
  | .char c => Js.units c
  | .lone u => [u]

def Text.ofString (s : String) : Text := s.toList.flatMap units

end Js
