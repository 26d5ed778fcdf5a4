/-
# Byte strings in parts

A byte string that consists of parts is read and written part by part. A part is what lies at its
offset (`slice_middle` and the lemmas about words), and writing over it replaces this part and no
other one (`overwrite_middle`). Where entries of one width follow each other, each is such a part
(`flatMap_split`).

The other way round, slices that lie next to each other are one slice (`slice_append_slice`), and
so are the words or entries that were read from there.
-/

import Statechart.Bytes.Block

namespace Statechart

namespace Bytes

variable {bytes before behind old new : Bytes} {offset count : Nat}

/-! ### A part between others -/

theorem slice_middle (here : offset = before.length) (part : Bytes) (behind : Bytes) :
    (before ++ part ++ behind).slice offset part.length = part := by
  rw [slice, here, List.append_assoc, List.drop_left, List.take_left]

/-- Writing over a part of the same length replaces it. -/
theorem overwrite_middle (here : offset = before.length) (same : new.length = old.length)
    (behind : Bytes) :
    (before ++ old ++ behind).overwrite offset new = before ++ new ++ behind := by
  have room : new.length ≤ (before ++ old ++ behind).length - offset := by
    simp only [List.length_append]
    omega
  rw [overwrite, List.take_of_length_le room, here, same, ← List.length_append, List.drop_left,
    List.append_assoc before old, List.take_left]

/-- What is written within a part leaves what follows it alone. -/
theorem overwrite_append (part : Bytes) (inside : offset + new.length ≤ part.length)
    (behind : Bytes) :
    (part ++ behind).overwrite offset new = part.overwrite offset new ++ behind := by
  have room : new.length ≤ part.length - offset := by omega
  have roomToo : new.length ≤ (part ++ behind).length - offset := by
    rw [List.length_append]
    omega
  rw [overwrite, overwrite, List.take_of_length_le room, List.take_of_length_le roomToo,
    List.take_append_of_le_length (by omega), List.drop_append_of_le_length inside,
    ← List.append_assoc]

theorem byteAt_middle (before part behind : Bytes) {place : Nat} (inside : place < part.length) :
    (before ++ part ++ behind).byteAt (before.length + place) = part.byteAt place := by
  simp only [byteAt, List.getD_eq_getElem?_getD, List.append_assoc]
  rw [List.getElem?_append_right (Nat.le_add_right ..), Nat.add_sub_cancel_left,
    List.getElem?_append_left inside]

theorem word16At_middle (here : offset = before.length) (word : UInt16) (behind : Bytes) :
    (before ++ ofWord16 word ++ behind).word16At offset = word := by
  have byte {place : Nat} (inside : place < (ofWord16 word).length) :=
    byteAt_middle before _ behind inside
  rw [word16At, here, byte Nat.one_lt_two, ← Nat.add_zero before.length, byte Nat.two_pos]
  exact word16_digit word

theorem word32At_middle (here : offset = before.length) (word : UInt32) (behind : Bytes) :
    (before ++ ofWord32 word ++ behind).word32At offset = word := by
  have byte {place : Nat} (inside : place < (ofWord32 word).length) :=
    byteAt_middle before _ behind inside
  rw [word32At, here, byte (by decide : 1 < 4), byte (by decide : 2 < 4),
    byte (by decide : 3 < 4), ← Nat.add_zero before.length, byte (by decide : 0 < 4)]
  exact word32_digit word

/-! ### Entries of one width -/

section Entries

variable {Entry : Type} {size : Nat} {toBytes : Entry → Bytes}

theorem length_flatMap_of_width (width : ∀ entry, (toBytes entry).length = size)
    (entries : List Entry) : (entries.flatMap toBytes).length = size * entries.length := by
  simp [List.length_flatMap, width, List.map_const', Nat.mul_comm]

/-- An entry is a part of its own. -/
theorem flatMap_split (toBytes : Entry → Bytes) {entries : List Entry} {index : Nat}
    (inside : index < entries.length) :
    entries.flatMap toBytes =
      (entries.take index).flatMap toBytes ++ toBytes entries[index] ++
        (entries.drop (index + 1)).flatMap toBytes := by
  rw [List.append_assoc, ← List.flatMap_cons, ← List.drop_eq_getElem_cons inside,
    ← List.flatMap_append, List.take_append_drop]

/-- Putting another entry in changes the part of this entry. -/
theorem flatMap_set (toBytes : Entry → Bytes) {entries : List Entry} {index : Nat}
    (inside : index < entries.length) (entry : Entry) :
    (entries.set index entry).flatMap toBytes =
      (entries.take index).flatMap toBytes ++ toBytes entry ++
        (entries.drop (index + 1)).flatMap toBytes := by
  rw [List.set_eq_take_append_cons_drop, if_pos inside, List.flatMap_append, List.flatMap_cons,
    List.append_assoc]

/-- An entry between what lies in front of it and behind it. -/
theorem entry_middle (toBytes : Entry → Bytes) {entries : List Entry} {index : Nat}
    (inside : index < entries.length) (before behind : Bytes) :
    before ++ entries.flatMap toBytes ++ behind =
      before ++ (entries.take index).flatMap toBytes ++ toBytes entries[index] ++
        ((entries.drop (index + 1)).flatMap toBytes ++ behind) := by
  rw [flatMap_split toBytes inside]
  simp only [List.append_assoc]

theorem length_before_entry (width : ∀ entry, (toBytes entry).length = size)
    (here : offset = before.length) {entries : List Entry} {index : Nat}
    (inside : index < entries.length) :
    offset + size * index = (before ++ (entries.take index).flatMap toBytes).length := by
  rw [List.length_append, length_flatMap_of_width width, List.length_take,
    Nat.min_eq_left (Nat.le_of_lt inside), here]

/-- Entries are read back one by one, each where it lies. -/
theorem map_read_flatMap (read : Bytes → Nat → Entry)
    (width : ∀ entry, (toBytes entry).length = size)
    (exact : ∀ {before : Bytes} {offset : Nat}, offset = before.length → ∀ entry behind,
      read (before ++ toBytes entry ++ behind) offset = entry)
    (here : offset = before.length) (entries : List Entry) (behind : Bytes) :
    (List.range entries.length).map (fun index =>
      read (before ++ entries.flatMap toBytes ++ behind) (offset + size * index)) = entries := by
  apply List.ext_getElem
  · rw [List.length_map, List.length_range]
  · intro index _ inside
    rw [List.getElem_map, List.getElem_range, entry_middle toBytes inside]
    exact exact (length_before_entry width here inside) _ _

/-- Writing over the bytes of an entry puts another entry in its place. -/
theorem overwrite_entry (width : ∀ entry, (toBytes entry).length = size)
    (here : offset = before.length) {entries : List Entry} {index : Nat}
    (inside : index < entries.length) (entry : Entry) (behind : Bytes) :
    (before ++ entries.flatMap toBytes ++ behind).overwrite (offset + size * index)
        (toBytes entry) =
      before ++ (entries.set index entry).flatMap toBytes ++ behind := by
  rw [entry_middle toBytes inside, overwrite_middle (length_before_entry width here inside)
      ((width entry).trans (width _).symm), flatMap_set toBytes inside]
  simp only [List.append_assoc]

end Entries

/-! ### Slices next to each other -/

theorem slice_append_slice {second : Nat} (bytes : Bytes) {first count other : Nat}
    (next : second = first + count) :
    bytes.slice first count ++ bytes.slice second other = bytes.slice first (count + other) := by
  rw [slice, slice, slice, next, ← List.drop_drop, List.take_add]

theorem length_slice (inside : offset + count ≤ bytes.length) :
    (bytes.slice offset count).length = count := by
  rw [slice, List.length_take, List.length_drop]
  omega

theorem slice_all (whole : bytes.length = count) : bytes.slice 0 count = bytes := by
  rw [slice, List.drop_zero, ← whole, List.take_length]

theorem slice_succ (inside : offset < bytes.length) :
    bytes.slice offset (count + 1) = bytes.byteAt offset :: bytes.slice (offset + 1) count := by
  rw [slice, List.drop_eq_getElem_cons inside, List.take_succ_cons, slice, byteAt,
    List.getD_eq_getElem?_getD, List.getElem?_eq_getElem inside, Option.getD_some]

/-- The bytes of a word that was read are those that it was read from. -/
theorem ofWord16_word16At (inside : offset + 2 ≤ bytes.length) :
    ofWord16 (bytes.word16At offset) = bytes.slice offset 2 := by
  rw [word16At, ofWord16_word16, slice_succ (by omega), slice_succ (by omega)]
  rfl

theorem ofWord32_word32At (inside : offset + 4 ≤ bytes.length) :
    ofWord32 (bytes.word32At offset) = bytes.slice offset 4 := by
  rw [word32At, ofWord32_word32, slice_succ (by omega), slice_succ (by omega),
    slice_succ (by omega), slice_succ (by omega)]
  rfl

/-- Entries of one width that were read one after the other. -/
theorem flatMap_map_read {Entry : Type} {size : Nat} {toBytes : Entry → Bytes}
    (read : Bytes → Nat → Entry)
    (exact : ∀ {offset : Nat}, offset + size ≤ bytes.length →
      toBytes (read bytes offset) = bytes.slice offset size)
    (inside : offset + size * count ≤ bytes.length) :
    ((List.range count).map fun index => read bytes (offset + size * index)).flatMap toBytes =
      bytes.slice offset (size * count) := by
  induction count with
  | zero => rfl
  | succ count ih =>
    rw [Nat.mul_succ] at inside ⊢
    rw [List.range_succ, List.map_append, List.flatMap_append, ih (by omega), List.map_singleton,
      List.flatMap_singleton, exact (by omega), slice_append_slice bytes rfl]

end Bytes

namespace Block

theorem slice_middle {size offset : Nat} {before : Bytes} (here : offset = before.length)
    (block : Block size) (behind : Bytes) :
    slice (before ++ block.bytes ++ behind) offset size = block := by
  obtain ⟨bytes, rfl⟩ := block
  simp only [slice, ofBytes, Bytes.slice_middle here, mk.injEq]
  simp [Bytes.resize]

theorem bytes_slice {bytes : Bytes} {offset size : Nat} (inside : offset + size ≤ bytes.length) :
    (slice bytes offset size).bytes = bytes.slice offset size :=
  bytes_ofBytes (Bytes.length_slice inside)

end Block

end Statechart
