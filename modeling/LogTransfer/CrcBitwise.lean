import LogTransfer.ReflectedCrc
import LogTransfer.Session

/-!
# The table against the bitwise definition

CRC-32/IEEE takes the bits of a byte string least significant first. Eight of
its steps are one look into the table, for every state, so the checksum of the
source is the bitwise one whatever the calls were.
-/

set_option autoImplicit false

namespace LogTransfer

def bitsOf (data : Bytes) : List Bool :=
  data.flatMap fun b => (List.range 8).map fun i => b.getLsbD i

/-- CRC-32/IEEE: reflected polynomial, initial value and final exclusive or of
all ones, one message bit at a time. -/
def crc32Bitwise (data : Bytes) : Crc :=
  ReflectedCrc.run 0xEDB88320#32 0xFFFFFFFF#32 (bitsOf data) ^^^ 0xFFFFFFFF#32

section Table

theorem bitsOf_append (a b : Bytes) : bitsOf (a ++ b) = bitsOf a ++ bitsOf b := by simp [bitsOf]

theorem bitsOf_length (data : Bytes) : (bitsOf data).length = 8 * data.length := by
  induction data with
  | nil => rfl
  | cons b bs ih =>
    have hcons : bitsOf (b::bs) = bitsOf [b] ++ bitsOf bs := bitsOf_append [b] bs
    rw [hcons, List.length_append, ih, List.length_cons]
    simp [bitsOf]
    omega

theorem lowBit_iff (c : Crc) : c &&& 1#32 = 1#32 ↔ c.getLsbD 0 = true := by
  rw [BitVec.and_one_eq_setWidth_ofBool_getLsbD]
  cases c.getLsbD 0 <;> decide

theorem bitStep_table (c : Crc) :
    ReflectedCrc.bitStep kPolynomial c false =
      if c &&& 1#32 = 1#32 then kPolynomial ^^^ (c >>> 1) else c >>> 1 := by
  simp only [ReflectedCrc.bitStep, Bool.xor_false, lowBit_iff]

theorem tableEntry_shifts (c : Crc) : tableEntry c = ReflectedCrc.shifts kPolynomial 8 c := by
  have hrange : List.range 8 = [0, 1, 2, 3, 4, 5, 6, 7] := rfl
  simp only [tableEntry, hrange, List.foldl_cons, List.foldl_nil, ← bitStep_table]
  rfl

theorem kTable_entry (i : ℕ) (hi : i < 256) :
    kTable.getD i 0#32 = tableEntry (BitVec.ofNat 32 i) := by
  simp [kTable, makeTable, List.getElem?_range hi]

end Table

section Byte

def lowByte (x : Crc) : Crc := x &&& 0xFF#32

theorem lowByte_bit (x : Crc) (i : ℕ) :
    (lowByte x).getLsbD i = (x.getLsbD i && decide (i < 8)) := by
  have hmask : (0xFF#32).getLsbD i = decide (i < 8) := by
    have h : (0xFF : ℕ).testBit i = decide (i < 8) := Nat.testBit_two_pow_sub_one 8 i
    rw [BitVec.getLsbD_ofNat, h]
    by_cases hi : i < 8 <;> simp [hi]
    omega
  rw [lowByte, BitVec.getLsbD_and, hmask]

theorem lowByte_lt (x : Crc) : (lowByte x).toNat < 256 := by
  have h : (lowByte x).toNat ≤ (0xFF#32).toNat := by
    rw [lowByte, BitVec.toNat_and]
    exact Nat.and_le_right
  exact Nat.lt_succ_of_le h

/-- Eight steps: those of the low byte, and the rest moved down. -/
theorem shifts_lowByte (x : Crc) :
    ReflectedCrc.shifts kPolynomial 8 x =
      ReflectedCrc.shifts kPolynomial 8 (lowByte x) ^^^ (x >>> 8) := by
  have hrest : ∀ i, i < 8 → (x ^^^ lowByte x).getLsbD i = false := by
    intro i hi
    simp [lowByte_bit, hi]
  have hsplit : x = lowByte x ^^^ (x ^^^ lowByte x) := by
    rw [BitVec.xor_comm x, ← BitVec.xor_assoc, BitVec.xor_self, BitVec.zero_xor]
  have hdown : (x ^^^ lowByte x) >>> 8 = x >>> 8 := by
    apply BitVec.eq_of_getLsbD_eq
    intro i _
    simp [BitVec.getLsbD_ushiftRight, lowByte_bit]
  calc ReflectedCrc.shifts kPolynomial 8 x
      = ReflectedCrc.shifts kPolynomial 8 (lowByte x ^^^ (x ^^^ lowByte x)) := by rw [← hsplit]
    _ = ReflectedCrc.shifts kPolynomial 8 (lowByte x) ^^^
          ReflectedCrc.shifts kPolynomial 8 (x ^^^ lowByte x) := ReflectedCrc.shifts_xor _ _ _ _
    _ = ReflectedCrc.shifts kPolynomial 8 (lowByte x) ^^^ (x >>> 8) := by
      rw [ReflectedCrc.shifts_clear _ _ _ hrest, hdown]

theorem word_byte (b : Byte) : ReflectedCrc.word 32 (bitsOf [b]) = b.setWidth 32 := by
  apply BitVec.eq_of_getLsbD_eq
  intro i hi
  rw [ReflectedCrc.word_bit _ _ hi, BitVec.getLsbD_setWidth]
  by_cases h : i < 8
  · simp [bitsOf, h, hi]
  · simp [bitsOf, h, BitVec.getLsbD_of_ge b i (by omega)]

/-- One look into the table is eight bits, whatever the state. -/
theorem crcByte_bitwise (c : Crc) (b : Byte) :
    crcByte c b = ReflectedCrc.run kPolynomial c (bitsOf [b]) := by
  have hlen : (bitsOf [b]).length = 8 := bitsOf_length [b]
  have hshift : (c ^^^ b.setWidth 32) >>> 8 = c >>> 8 := by
    apply BitVec.eq_of_getLsbD_eq
    intro i _
    simp [BitVec.getLsbD_ushiftRight]
  rw [ReflectedCrc.run_word _ _ _ (by omega), hlen, word_byte, shifts_lowByte, hshift,
    ← tableEntry_shifts]
  have hentry := kTable_entry _ (lowByte_lt (c ^^^ b.setWidth 32))
  rw [BitVec.ofNat_toNat, BitVec.setWidth_eq] at hentry
  rw [← hentry]
  rfl

theorem crcBytes_bitwise (c : Crc) (data : Bytes) :
    data.foldl crcByte c = ReflectedCrc.run kPolynomial c (bitsOf data) := by
  induction data generalizing c with
  | nil => rfl
  | cons b bs ih =>
    have hcons : bitsOf (b::bs) = bitsOf [b] ++ bitsOf bs := bitsOf_append [b] bs
    rw [List.foldl_cons, ih, hcons, ReflectedCrc.run_append, crcByte_bitwise]

end Byte

section Chunks

theorem crc32_chunks (c : Crc) (chunks : List Bytes) :
    chunks.foldl crc32 c = crc32 c chunks.flatten := by
  induction chunks generalizing c with
  | nil => exact (crc32_nil c).symm
  | cons chunk chunks ih => rw [List.foldl_cons, ih, List.flatten_cons, crc32_append]

theorem countPayload_chunks (s : Session) (chunks : List Bytes) :
    (chunks.foldl Session.countPayload s).payloadCrc = chunks.foldl crc32 s.payloadCrc := by
  induction chunks generalizing s with
  | nil => rfl
  | cons chunk chunks ih => exact ih (Session.countPayload s chunk)

theorem crc32_bitwise (a : Bytes) : crc32 0#32 a = crc32Bitwise a := by
  rw [crc32, crcBytes_bitwise, BitVec.zero_xor]
  rfl

/-- The checksum is incremental and the bitwise one. So the chunks a session
counts and the chunks a client sends of one payload give one value. -/
theorem crc32_is_bitwise :
    (∀ (c : Crc) (a b : Bytes), crc32 c (a ++ b) = crc32 (crc32 c a) b) ∧
      (∀ c : Crc, crc32 c [] = c) ∧
      (∀ a : Bytes, crc32 0#32 a = crc32Bitwise a) ∧
      (∀ (id : ℕ) (counted : List Bytes),
        (counted.foldl Session.countPayload (Session.construct id)).payloadCrc =
          crc32Bitwise counted.flatten) ∧
      ∀ sent : List Bytes, sent.foldl crc32 0#32 = crc32Bitwise sent.flatten := by
  have hchunks (chunks : List Bytes) :
      chunks.foldl crc32 0#32 = crc32Bitwise chunks.flatten := by
    rw [crc32_chunks, crc32_bitwise]
  refine ⟨crc32_append, crc32_nil, crc32_bitwise, fun id counted => ?_, hchunks⟩
  rw [countPayload_chunks]
  exact hchunks counted

end Chunks

end LogTransfer
