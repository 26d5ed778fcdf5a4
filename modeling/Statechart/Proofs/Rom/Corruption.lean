/-
# Damaged blobs are refused

A blob that loads and is then damaged in one place is refused (`corruption_rejected`). The
reasons are those of the checks. Two intact blobs of one length agree in their magic bytes and
their version. Their counts imply the same length, so they do not differ in a single byte of a
count, as each one has a weight of its own in the length (`Header.stop_read`). The checksum
belongs to what is behind the header, which therefore does not differ in a short window either.
And how long a blob is can be told from its first bytes.

The content hashes are not checked, so a change there goes unnoticed.
-/

import Statechart.Proofs.Checksum.Window
import Statechart.Proofs.Rom.Loading

namespace Statechart

/-! ### Bytes of a header -/

namespace Bytes

theorem byteAt_set (bytes : Bytes) (position offset : Nat) (byte : UInt8)
    (inside : position < bytes.length) :
    Bytes.byteAt (bytes.set position byte) offset =
      if position = offset then byte else bytes.byteAt offset := by
  simp only [byteAt, List.getD_eq_getElem?_getD, List.getElem?_set]
  split <;> simp_all

theorem toNat_word16At (bytes : Bytes) (offset : Nat) :
    (bytes.word16At offset).toNat =
      (bytes.byteAt offset).toNat + 256 * (bytes.byteAt (offset + 1)).toNat := by
  have low := (bytes.byteAt offset).toNat_lt
  have high := (bytes.byteAt (offset + 1)).toNat_lt
  exact UInt16.toNat_ofNat_of_lt' (by simp [UInt16.size]; omega)

theorem toNat_word32At (bytes : Bytes) (offset : Nat) :
    (bytes.word32At offset).toNat =
      (bytes.byteAt offset).toNat + 256 * (bytes.byteAt (offset + 1)).toNat +
        65536 * (bytes.byteAt (offset + 2)).toNat +
        16777216 * (bytes.byteAt (offset + 3)).toNat := by
  have first := (bytes.byteAt offset).toNat_lt
  have second := (bytes.byteAt (offset + 1)).toNat_lt
  have third := (bytes.byteAt (offset + 2)).toNat_lt
  have fourth := (bytes.byteAt (offset + 3)).toNat_lt
  exact UInt32.toNat_ofNat_of_lt' (by simp [UInt32.size]; omega)

end Bytes

namespace Rom

/-- How long a blob is said to be, from the counts in its header. -/
theorem Header.stop_read (bytes : Bytes) :
    (Header.read bytes).offsets.stop =
      32 + 2 * (bytes.word16At 6).toNat + 32 * (bytes.word16At 16).toNat +
        16 * (bytes.word16At 18).toNat + 8 * (bytes.word16At 20).toNat +
        16 * (bytes.word16At 22).toNat + 4 * (bytes.word16At 24).toNat +
        2 * (bytes.word16At 26).toNat := by
  simp only [offsets, Header.read, size, StateRecord.size, TransitionRecord.size,
    RegionRecord.size, EventRecord.size]
  omega

/-- What follows a header does not matter to it. -/
theorem Header.read_append {front : Bytes} (long : size ≤ front.length) (rest : Bytes) :
    Header.read (front ++ rest) = Header.read front := by
  have byte {offset : Nat} (inside : offset < 32) :
      (front ++ rest).byteAt offset = front.byteAt offset :=
    Bytes.byteAt_append rest (Nat.lt_of_lt_of_le inside long)
  have marked : Block.slice (front ++ rest) 0 4 = Block.slice front 0 4 := by
    have four : 4 ≤ front.length := Nat.le_trans (by decide) long
    simp [Block.slice, Bytes.slice, List.take_append_of_le_length four]
  simp (disch := decide) only [Header.read, Bytes.word16At, Bytes.word32At, byte, marked]

namespace Definition

variable {bytes front window changed back : Bytes}

theorem Intact.byteAt_magic (intact : Intact bytes) {position : Nat} (marks : position < 4) :
    bytes.byteAt position = Rom.magic.byteAt position := by
  have four : 4 ≤ bytes.length := Nat.le_trans (by decide) intact.size_le
  have taken : bytes.take 4 = Rom.magic := by
    have same := beq_iff_eq.1 intact.magic
    simp only [Header.read, Block.slice] at same
    rwa [Block.bytes_ofBytes (by simp [Bytes.slice, four])] at same
  rw [← taken]
  simp [Bytes.byteAt, List.getD_eq_getElem?_getD, marks]

/-- Intact blobs that agree everywhere but in one byte of the header, which belongs to no content
hash, agree there, too. -/
theorem Intact.eq_of_set (intact : Intact bytes) {position : Nat} {byte : UInt8}
    (inside : position < Header.size) (unhashed : ¬ (8 ≤ position ∧ position < 16))
    (still : Intact (bytes.set position byte)) : byte = bytes.byteAt position := by
  have there : position < bytes.length := Nat.lt_of_lt_of_le inside intact.size_le
  have reads := fun offset => bytes.byteAt_set position offset byte there
  have behind : (bytes.set position byte).drop Header.size = bytes.drop Header.size := by
    simp [List.drop_set_of_lt inside]
  by_cases marks : position < 4
  · have now := still.byteAt_magic marks
    rw [reads, if_pos rfl] at now
    rw [now, intact.byteAt_magic marks]
  have version : Bytes.word16At (bytes.set position byte) 4 = bytes.word16At 4 :=
    still.version.trans intact.version.symm
  have checksum : Bytes.word32At (bytes.set position byte) 28 = bytes.word32At 28 := by
    have now := still.checksum_eq
    rw [behind, intact.checksum_eq] at now
    exact now.symm
  have stop : (Header.read (bytes.set position byte)).offsets.stop =
      (Header.read bytes).offsets.stop := by
    rw [still.stop_eq, intact.stop_eq, List.length_set]
  simp only [Header.stop_read] at stop
  simp only [← UInt16.toNat_inj, ← UInt32.toNat_inj] at version checksum
  simp only [Bytes.toNat_word16At, Bytes.toNat_word32At, reads] at version checksum stop
  apply UInt8.toNat_inj.1
  have bound : position < 32 := inside
  interval_cases position <;> simp at version checksum stop unhashed marks ⊢ <;> omega

/-- Intact blobs with one header are of the same length. -/
theorem Intact.length_eq (intact : Intact bytes) {other : Bytes} (still : Intact other)
    (same : Header.read other = Header.read bytes) : other.length = bytes.length := by
  rw [← still.stop_eq, same, intact.stop_eq]

/-- Intact blobs that agree everywhere but in a short window behind the header agree there, too. -/
theorem Intact.eq_of_window (intact : Intact (front ++ window ++ back))
    (long : Header.size ≤ front.length) (short : window.length ≤ 4)
    (still : Intact (front ++ changed ++ back)) : changed = window := by
  have headed (middle : Bytes) :
      Header.read (front ++ middle ++ back) = Header.read front := by
    rw [List.append_assoc, Header.read_append long]
  have body (middle : Bytes) : (front ++ middle ++ back).drop Header.size =
      front.drop Header.size ++ middle ++ back := by
    rw [List.append_assoc, List.drop_append_of_le_length long, List.append_assoc]
  have lengths := intact.length_eq still ((headed changed).trans (headed window).symm)
  simp only [List.length_append] at lengths
  have sums : Checksum.crc32 (front.drop Header.size ++ changed ++ back) =
      Checksum.crc32 (front.drop Header.size ++ window ++ back) := by
    rw [← body, ← body, still.checksum_eq, intact.checksum_eq, headed, headed]
  exact Checksum.eq_of_crc32_eq short (by omega) sums

/-- The ways in which a blob may be damaged: a byte of its header that belongs to no content hash
is another one, up to four bytes next to each other behind the header are replaced, by as many
bytes or not, or the blob ends early or late. -/
inductive Corrupts (bytes : Bytes) : Bytes → Prop
  | header {position : Nat} {byte : UInt8} : position < Header.size →
      ¬ (8 ≤ position ∧ position < 16) → byte ≠ bytes.byteAt position →
      Corrupts bytes (bytes.set position byte)
  | body {front window changed back : Bytes} : bytes = front ++ window ++ back →
      Header.size ≤ front.length → window.length ≤ 4 → changed ≠ window →
      Corrupts bytes (front ++ changed ++ back)
  | truncated {kept lost : Bytes} : bytes = kept ++ lost → lost ≠ [] → Corrupts bytes kept
  | extended {more : Bytes} : more ≠ [] → Corrupts bytes (bytes ++ more)

/-- A damaged blob is not intact. -/
theorem Corrupts.not_intact {other : Bytes} (corrupts : Corrupts bytes other)
    (intact : Intact bytes) : ¬ Intact other := by
  intro still
  cases corrupts with
  | header inside unhashed differs => exact differs (intact.eq_of_set inside unhashed still)
  | body whole long short differs =>
    subst whole
    exact differs (intact.eq_of_window long short still)
  | @truncated kept lost whole some =>
    subst whole
    have lengths := intact.length_eq still (Header.read_append still.size_le lost).symm
    rw [List.length_append] at lengths
    exact some (List.eq_nil_of_length_eq_zero (by omega))
  | @extended more some =>
    have lengths := intact.length_eq still (Header.read_append intact.size_le more)
    rw [List.length_append] at lengths
    exact some (List.eq_nil_of_length_eq_zero (by omega))

/-- A blob that loads is refused once it is damaged. -/
theorem corruption_rejected {definition : Definition}
    (accepted : load bytes = .ok (.ok definition)) {other : Bytes}
    (corrupts : Corrupts bytes other) : ∃ error, load other = .ok (.error error) := by
  have intact : Intact bytes := .of_load (by simp [accepted])
  exact load_of_not_intact (corrupts.not_intact intact)

/-- A blob with every kind of table is refused when it counts one action more, when two bytes of
its last transition are swapped, and when its last byte is lost. -/
theorem corruption_rejected_fork :
    ∃ bytes definition, load bytes = .ok (.ok definition) ∧
      (∃ error, load (bytes.set 26 2) = .ok (.error error)) ∧
      (∃ error, load (bytes.take 160 ++ [5, 3, 0, 7] ++ bytes.drop 164) = .ok (.error error)) ∧
      ∃ error, load bytes.dropLast = .ok (.error error) := by
  have encodable : Sections.fork.Encodable := by constructor <;> decide
  have own : Sections.fork.OwnChildren := by constructor <;> decide
  obtain ⟨shape, shaped, -⟩ := own.ofSections_returns (by decide)
  have loads := encodable.load_eq (by decide) shaped 7 9
  let bytes := (Sections.fork.headerOf 7 9).toBytes ++ Sections.fork.body
  have counted : (2 : UInt8) ≠ bytes.byteAt 26 := by decide +kernel
  have differs : [5, 3, 0, 7] ≠ (bytes.drop 160).take 4 := by decide +kernel
  have long : Header.size ≤ (bytes.take 160).length := by decide +kernel
  have some : bytes ≠ [] := by decide +kernel
  have split : bytes = bytes.take 160 ++ (bytes.drop 160).take 4 ++ bytes.drop 164 := by
    have behind : bytes.drop 164 = (bytes.drop 160).drop 4 := by rw [List.drop_drop]
    rw [List.append_assoc, behind, List.take_append_drop, List.take_append_drop]
  exact ⟨bytes, _, loads,
    corruption_rejected loads (.header (by decide) (by decide) counted),
    corruption_rejected loads (.body split long (List.length_take_le ..) differs),
    corruption_rejected loads (.truncated (List.dropLast_concat_getLast some).symm (by simp))⟩

end Definition

end Rom

end Statechart
