import Mathlib.Data.List.DropRight

/-!
# Base64

`Crypto::base64_encode` and `base64_decode` (utils/crypto.hpp:139-199) and the form of the JWT
parts (bithumb.cpp:184-207).  Characters are bytes.
-/

set_option autoImplicit false

namespace SpotRelay.Model.Crypto

/-- The `table` of `base64_encode`. -/
def encodeTable : List Char :=
  "ABCDEFGHIJKLMNOPQRSTUVWXYZabcdefghijklmnopqrstuvwxyz0123456789+/".toList

/-- `table[(n >> shift) & 0x3F]`. -/
def encodeDigit (n shift : UInt32) : Char :=
  encodeTable.getD ((n >>> shift) &&& 0x3F).toNat '\x00'

/-- One round of the loop of `base64_encode`: a byte and the one or two after it that there are. -/
def encodeGroup (first : UInt8) (second third : Option UInt8) : List Char :=
  let n := first.toUInt32 <<< 16
  let n := match second with
    | some byte => n ||| (byte.toUInt32 <<< 8)
    | none => n
  let n := match third with
    | some byte => n ||| byte.toUInt32
    | none => n
  [encodeDigit n 18, encodeDigit n 12,
    if second.isSome then encodeDigit n 6 else '=',
    if third.isSome then encodeDigit n 0 else '=']

/-- `base64_encode`. -/
def base64Encode : List UInt8 → List Char
  | [] => []
  | [first] => encodeGroup first none none
  | [first, second] => encodeGroup first (some second) none
  | first :: second :: third :: rest =>
    encodeGroup first (some second) (some third) ++ base64Encode rest

/-- The `table` of `base64_decode`. -/
def decodeTable : List ℤ :=
  [-1, -1, -1, -1, -1, -1, -1, -1, -1, -1, -1, -1, -1, -1, -1, -1,
    -1, -1, -1, -1, -1, -1, -1, -1, -1, -1, -1, -1, -1, -1, -1, -1,
    -1, -1, -1, -1, -1, -1, -1, -1, -1, -1, -1, 62, -1, -1, -1, 63,
    52, 53, 54, 55, 56, 57, 58, 59, 60, 61, -1, -1, -1, -1, -1, -1,
    -1, 0, 1, 2, 3, 4, 5, 6, 7, 8, 9, 10, 11, 12, 13, 14,
    15, 16, 17, 18, 19, 20, 21, 22, 23, 24, 25, -1, -1, -1, -1, -1,
    -1, 26, 27, 28, 29, 30, 31, 32, 33, 34, 35, 36, 37, 38, 39, 40,
    41, 42, 43, 44, 45, 46, 47, 48, 49, 50, 51, -1, -1, -1, -1, -1]

/-- The loop of `base64_decode`: the bytes that it pushes from here on. -/
def decodeLoop (val : UInt32) (bits : ℕ) : List Char → List UInt8
  | [] => []
  | c :: data =>
    if c = '=' then []
    else if 128 ≤ c.toNat then decodeLoop val bits data
    else
      let v := decodeTable.getD c.toNat (-1)
      if v < 0 then decodeLoop val bits data
      else
        let val := (val <<< 6) ||| UInt32.ofInt v
        let bits := bits + 6
        if 8 ≤ bits then
          let bits := bits - 8
          ((val >>> UInt32.ofNat bits) &&& 0xFF).toUInt8 :: decodeLoop val bits data
        else decodeLoop val bits data

/-- `base64_decode`. -/
def base64Decode (data : List Char) : List UInt8 := decodeLoop 0 0 data

/-- `base64url_encode`. -/
def base64urlEncode (raw : List UInt8) : List Char :=
  ((base64Encode raw).map fun ch =>
    if ch = '+' then '-' else if ch = '/' then '_' else ch).rdropWhile (· = '=')

end SpotRelay.Model.Crypto
