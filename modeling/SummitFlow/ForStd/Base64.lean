import Mathlib.Data.List.Basic

/-!
# URL-safe base 64

Three bytes are written as four characters, and `=` fills up the last four.  The fill can
be left out, since the length of the rest says how much of it there was.
-/

namespace SummitFlow.Base64

def alphabet : List Char :=
  "ABCDEFGHIJKLMNOPQRSTUVWXYZabcdefghijklmnopqrstuvwxyz0123456789-_".toList

/-- The character of a six-bit value. -/
def digit (v : Nat) : Char := alphabet.getD v 'A'

/-- The value of a character; the characters of the standard alphabet are read too. -/
def value (c : Char) : Option Nat :=
  if c = '+' then some 62
  else if c = '/' then some 63
  else alphabet.idxOf? c

def encode : List UInt8 → List Char
  | [] => []
  | [a] =>
    let n := a.toNat * 16
    [digit (n / 64), digit (n % 64), '=', '=']
  | [a, b] =>
    let n := (a.toNat * 256 + b.toNat) * 4
    [digit (n / 4096), digit (n / 64 % 64), digit (n % 64), '=']
  | a :: b :: c :: rest =>
    let n := (a.toNat * 256 + b.toNat) * 256 + c.toNat
    digit (n / 262144) :: digit (n / 4096 % 64) :: digit (n / 64 % 64) :: digit (n % 64) ::
      encode rest

/-- The strict reading: only characters of the alphabet, and `=` only to fill up the last
    four. -/
def decode : List Char → Option (List UInt8)
  | [] => some []
  | a :: b :: c :: d :: rest =>
    if d = '=' then
      if rest ≠ [] then none
      else if c = '=' then do
        let n := (← value a) * 64 + (← value b)
        return [UInt8.ofNat (n / 16)]
      else do
        let n := ((← value a) * 64 + (← value b)) * 64 + (← value c)
        return [UInt8.ofNat (n / 1024), UInt8.ofNat (n / 4)]
    else do
      let n := (((← value a) * 64 + (← value b)) * 64 + (← value c)) * 64 + (← value d)
      return UInt8.ofNat (n / 65536) :: UInt8.ofNat (n / 256) :: UInt8.ofNat n ::
        (← decode rest)
  | _ => none

/-- The characters without those that fill up. -/
def unpad (cs : List Char) : List Char := (cs.reverse.dropWhile (· == '=')).reverse

/-- The characters that fill up to a multiple of four. -/
def pad (cs : List Char) : List Char := cs ++ List.replicate ((4 - cs.length % 4) % 4) '='

end SummitFlow.Base64
