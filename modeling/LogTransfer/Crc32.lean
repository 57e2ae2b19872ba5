import Mathlib.Data.List.Basic

/-!
# CRC-32 as both peers compute it

The state between two calls is a finished checksum. Each call undoes and
redoes the final complement, so chunk boundaries leave no trace.
-/

set_option autoImplicit false

namespace LogTransfer

abbrev Byte := BitVec 8
abbrev Bytes := List Byte
abbrev Crc := BitVec 32

def kPolynomial : Crc := 0xEDB88320#32

def tableEntry (i : Crc) : Crc :=
  (List.range 8).foldl
    (fun c _ => if c &&& 1#32 = 1#32 then kPolynomial ^^^ (c >>> 1) else c >>> 1) i

def makeTable : List Crc := (List.range 256).map fun i => tableEntry (BitVec.ofNat 32 i)

def kTable : List Crc := makeTable

def crcByte (c : Crc) (byte : Byte) : Crc :=
  kTable.getD ((c ^^^ byte.setWidth 32) &&& 0xFF#32).toNat 0#32 ^^^ (c >>> 8)

def crc32 (crc : Crc) (data : Bytes) : Crc :=
  data.foldl crcByte (crc ^^^ 0xFFFFFFFF#32) ^^^ 0xFFFFFFFF#32

theorem crc32_nil (c : Crc) : crc32 c [] = c := by
  rw [crc32, List.foldl_nil, BitVec.xor_assoc, BitVec.xor_self, BitVec.xor_zero]

theorem crc32_append (c : Crc) (a b : Bytes) : crc32 c (a ++ b) = crc32 (crc32 c a) b := by
  rw [crc32, crc32, crc32, List.foldl_append, BitVec.xor_assoc (List.foldl _ _ a),
    BitVec.xor_self, BitVec.xor_zero]

example : crc32 0 [0x31#8, 0x32#8, 0x33#8, 0x34#8, 0x35#8, 0x36#8, 0x37#8, 0x38#8, 0x39#8] =
    0xCBF43926#32 := by decide

end LogTransfer
