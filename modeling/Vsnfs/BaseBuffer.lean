import Mathlib.Data.List.TakeWhile
import Vsnfs.BaseBytes

/-! Allocated memory with a record of every access. A buffer is the memory from its first byte on;
only the first `size` bytes were allocated. An access outside the allocation is not stopped, as the
hardware would not stop it: it is recorded like every other access, and the memory behind the
buffer is changed. The C strings of a program are the byte strings in front of the first zero. -/

namespace Vsnfs.Base

/-- Store `bytes` at `offset`; memory behind the known cells is taken to be zero. -/
def overwrite (cells : List Byte) (offset : Nat) (bytes : List Byte) : List Byte :=
  cells.take offset ++ List.replicate (offset - cells.length) 0 ++ bytes ++
    cells.drop (offset + bytes.length)

theorem overwrite_append (front rest bytes : List Byte) :
    overwrite (front ++ rest) front.length bytes = front ++ bytes ++ rest.drop bytes.length := by
  have hpad : front.length - (front ++ rest).length = 0 := by
    rw [List.length_append]
    omega
  simp only [overwrite, hpad, List.replicate_zero, List.append_nil, List.take_left, List.drop_append,
    List.drop_eq_nil_of_le (Nat.le_add_right front.length bytes.length), List.nil_append,
    Nat.add_sub_cancel_left]

theorem overwrite_zero (cells bytes : List Byte) :
    overwrite cells 0 bytes = bytes ++ cells.drop bytes.length :=
  overwrite_append [] cells bytes

theorem overwrite_append_of_eq {front : List Byte} {offset : Nat} (hoffset : offset = front.length)
    (rest bytes : List Byte) :
    overwrite (front ++ rest) offset bytes = front ++ bytes ++ rest.drop bytes.length := by
  rw [hoffset, overwrite_append]

theorem overwrite_length {cells : List Byte} {offset : Nat} {bytes : List Byte}
    (hfit : offset + bytes.length ≤ cells.length) :
    (overwrite cells offset bytes).length = cells.length := by
  simp only [overwrite, List.length_append, List.length_take, List.length_replicate, List.length_drop]
  omega

/-- A write behind the front leaves it in place. -/
theorem overwrite_behind {front : List Byte} {offset : Nat} (hoffset : front.length ≤ offset)
    (rest bytes : List Byte) :
    overwrite (front ++ rest) offset bytes = front ++ overwrite rest (offset - front.length) bytes := by
  have hpad : offset - (front ++ rest).length = offset - front.length - rest.length := by
    rw [List.length_append]
    omega
  have hdrop : offset + bytes.length - front.length = offset - front.length + bytes.length := by omega
  simp only [overwrite, hpad, List.take_append, List.take_of_length_le hoffset, List.drop_append, hdrop,
    List.drop_eq_nil_of_le (Nat.le_add_right_of_le hoffset), List.nil_append, List.append_assoc]

/-- Two stores one behind the other are one store. -/
theorem overwrite_overwrite_zero (cells front rest : List Byte) :
    overwrite (overwrite cells 0 front) front.length rest = overwrite cells 0 (front ++ rest) := by
  rw [overwrite_zero, overwrite_append, overwrite_zero, List.drop_drop, List.length_append]

/-- A byte after a write is the one written there, or the old one. -/
theorem overwrite_getD (cells : List Byte) (offset : Nat) (bytes : List Byte) (index : Nat) :
    (overwrite cells offset bytes).getD index 0 =
      if offset ≤ index ∧ index < offset + bytes.length then bytes.getD (index - offset) 0
      else cells.getD index 0 := by
  simp only [overwrite, List.getD_eq_getElem?_getD, List.getElem?_append, List.getElem?_take,
    List.getElem?_replicate, List.getElem?_drop, List.length_append, List.length_take,
    List.length_replicate]
  grind

/-- Behind its last byte a text reads as its terminator does. -/
theorem getD_append_terminator (text : List Byte) (index : Nat) :
    (text ++ [0]).getD index 0 = text.getD index 0 := by
  simp only [List.getD_eq_getElem?_getD, List.getElem?_append]
  grind

/-- The C string at the start of a memory area. -/
def cstrOf (cells : List Byte) : List Byte := cells.takeWhile (fun byte => byte ≠ 0)

/-- A byte string with no zero, followed by a zero, is the C string found there. -/
theorem cstrOf_append_zero {text : List Byte} (htext : ∀ byte ∈ text, byte ≠ 0) (rest : List Byte) :
    cstrOf (text ++ 0 :: rest) = text := by
  have hall : ∀ byte ∈ text, (fun byte : Byte => decide (byte ≠ 0)) byte = true := by
    intro byte hbyte
    exact decide_eq_true (htext byte hbyte)
  rw [cstrOf, List.takeWhile_append_of_pos hall]
  simp

theorem ne_zero_of_mem_cstrOf {cells : List Byte} {byte : Byte} (h : byte ∈ cstrOf cells) :
    byte ≠ 0 := by
  have := List.mem_takeWhile_imp h
  simpa using this

/-- An allocation of `size` bytes, its memory, and the indices read and written so far. -/
structure Buffer where
  size : Nat
  cells : List Byte
  reads : List Int
  writes : List Nat

namespace Buffer

/-- A fresh allocation; its memory still holds what was there before. -/
def alloc (size : Nat) (junk : List Byte) : Buffer := ⟨size, junk, [], []⟩

def put (buffer : Buffer) (offset : Nat) (bytes : List Byte) : Buffer :=
  { buffer with
    cells := overwrite buffer.cells offset bytes
    writes := buffer.writes ++ List.range' offset bytes.length }

def cstr (buffer : Buffer) : List Byte := cstrOf buffer.cells

theorem ne_zero_of_mem_cstr {buffer : Buffer} : ∀ byte ∈ buffer.cstr, byte ≠ 0 :=
  fun _ hbyte => ne_zero_of_mem_cstrOf hbyte

/-- The scan of `strlen` and `strchr`: every byte up to the terminator is looked at. -/
def scan (buffer : Buffer) : Buffer :=
  { buffer with
    reads := buffer.reads ++ (List.range (buffer.cstr.length + 1)).map Int.ofNat }

/-- Look at one byte; outside the known memory the byte is `stray`. -/
def peek (buffer : Buffer) (index : Int) (stray : Byte) : Byte :=
  if 0 ≤ index then buffer.cells.getD index.toNat stray else stray

def noteRead (buffer : Buffer) (index : Int) : Buffer :=
  { buffer with reads := buffer.reads ++ [index] }

/-- Every write so far went to an allocated byte. -/
def WritesInside (buffer : Buffer) : Prop := ∀ index ∈ buffer.writes, index < buffer.size

/-- The memory differs from `junk` at written bytes only. -/
def KeepsUnwritten (buffer : Buffer) (junk : List Byte) : Prop :=
  ∀ index, index ∉ buffer.writes → buffer.cells.getD index 0 = junk.getD index 0

/-- Every read so far was of an allocated byte. -/
def ReadsInside (buffer : Buffer) : Prop := ∀ index ∈ buffer.reads, 0 ≤ index ∧ index < buffer.size

@[simp] theorem put_size (buffer : Buffer) (offset : Nat) (bytes : List Byte) :
    (buffer.put offset bytes).size = buffer.size := rfl

@[simp] theorem put_cells (buffer : Buffer) (offset : Nat) (bytes : List Byte) :
    (buffer.put offset bytes).cells = overwrite buffer.cells offset bytes := rfl

@[simp] theorem scan_size (buffer : Buffer) : buffer.scan.size = buffer.size := rfl

@[simp] theorem scan_cells (buffer : Buffer) : buffer.scan.cells = buffer.cells := rfl

@[simp] theorem noteRead_size (buffer : Buffer) (index : Int) :
    (buffer.noteRead index).size = buffer.size := rfl

@[simp] theorem noteRead_cells (buffer : Buffer) (index : Int) :
    (buffer.noteRead index).cells = buffer.cells := rfl

@[simp] theorem alloc_size (size : Nat) (junk : List Byte) : (alloc size junk).size = size := rfl

@[simp] theorem alloc_cells (size : Nat) (junk : List Byte) : (alloc size junk).cells = junk := rfl

theorem alloc_writesInside (size : Nat) (junk : List Byte) : (alloc size junk).WritesInside := by
  intro index hindex
  cases hindex

/-- A store keeps all writes inside exactly when they were and it ends inside. -/
theorem put_writesInside_iff (buffer : Buffer) (offset : Nat) (bytes : List Byte) :
    (buffer.put offset bytes).WritesInside ↔
      buffer.WritesInside ∧ (bytes = [] ∨ offset + bytes.length ≤ buffer.size) := by
  simp only [WritesInside, put, List.mem_append, List.mem_range'_1]
  constructor
  · intro h
    refine ⟨fun index hindex => h index (Or.inl hindex), ?_⟩
    rcases Nat.eq_zero_or_pos bytes.length with hzero | hpos
    · exact Or.inl (List.eq_nil_of_length_eq_zero hzero)
    · have := h (offset + bytes.length - 1) (Or.inr (by omega))
      exact Or.inr (by omega)
  · rintro ⟨hold, hnew⟩ index (hindex | hindex)
    · exact hold index hindex
    · rcases hnew with rfl | hnew
      · simp at hindex
        omega
      · omega

@[simp] theorem scan_writesInside_iff (buffer : Buffer) :
    buffer.scan.WritesInside ↔ buffer.WritesInside := Iff.rfl

@[simp] theorem noteRead_writesInside_iff (buffer : Buffer) (index : Int) :
    (buffer.noteRead index).WritesInside ↔ buffer.WritesInside := Iff.rfl

theorem alloc_keepsUnwritten (size : Nat) (junk : List Byte) : (alloc size junk).KeepsUnwritten junk :=
  fun _ _ => rfl

theorem put_keepsUnwritten {buffer : Buffer} {junk : List Byte} (h : buffer.KeepsUnwritten junk)
    (offset : Nat) (bytes : List Byte) : (buffer.put offset bytes).KeepsUnwritten junk := by
  intro index hindex
  simp only [put, List.mem_append, List.mem_range'_1, not_or] at hindex
  rw [put_cells, overwrite_getD, if_neg hindex.2]
  exact h index hindex.1

/-- When every write went to an allocated byte, the memory behind the allocation is as before. -/
theorem KeepsUnwritten.behind {buffer : Buffer} {junk : List Byte} (h : buffer.KeepsUnwritten junk)
    (hinside : buffer.WritesInside) {index : Nat} (hindex : buffer.size ≤ index) :
    buffer.cells.getD index 0 = junk.getD index 0 := by
  apply h
  intro hwritten
  have hlt := hinside index hwritten
  omega

theorem alloc_readsInside (size : Nat) (junk : List Byte) : (alloc size junk).ReadsInside := by
  intro index hindex
  cases hindex

@[simp] theorem put_readsInside_iff (buffer : Buffer) (offset : Nat) (bytes : List Byte) :
    (buffer.put offset bytes).ReadsInside ↔ buffer.ReadsInside := Iff.rfl

/-- A scan stays inside when the terminator does. -/
theorem scan_readsInside_iff (buffer : Buffer) :
    buffer.scan.ReadsInside ↔ buffer.ReadsInside ∧ buffer.cstr.length < buffer.size := by
  constructor
  · intro h
    have hend := h buffer.cstr.length
      (List.mem_append_right _ (List.mem_map.mpr ⟨_, List.mem_range.mpr (Nat.lt_succ_self _), rfl⟩))
    exact ⟨fun index hindex => h index (List.mem_append_left _ hindex), Int.ofNat_lt.mp hend.2⟩
  · rintro ⟨h, hend⟩ index hindex
    rcases List.mem_append.mp hindex with hold | hnew
    · exact h index hold
    · obtain ⟨place, hplace, rfl⟩ := List.mem_map.mp hnew
      have hlt := List.mem_range.mp hplace
      change 0 ≤ (place : Int) ∧ (place : Int) < buffer.size
      omega

theorem noteRead_readsInside_iff (buffer : Buffer) (index : Int) :
    (buffer.noteRead index).ReadsInside ↔ buffer.ReadsInside ∧ 0 ≤ index ∧ index < buffer.size := by
  simp only [ReadsInside, noteRead, List.forall_mem_append, List.forall_mem_singleton]

/-- Every access so far was inside, and so is the scan of whoever reads the string next. -/
def Contained (buffer : Buffer) : Prop := buffer.WritesInside ∧ buffer.scan.ReadsInside

instance (buffer : Buffer) : Decidable buffer.Contained :=
  inferInstanceAs (Decidable ((∀ index ∈ buffer.writes, index < buffer.size) ∧
    ∀ index ∈ buffer.scan.reads, 0 ≤ index ∧ index < buffer.size))

theorem contained_iff (buffer : Buffer) :
    buffer.Contained ↔ buffer.WritesInside ∧ buffer.ReadsInside ∧ buffer.cstr.length < buffer.size := by
  rw [Contained, scan_readsInside_iff]

@[simp] theorem scan_contained_iff (buffer : Buffer) : buffer.scan.Contained ↔ buffer.Contained := by
  rw [contained_iff, contained_iff, scan_writesInside_iff, scan_readsInside_iff]
  exact and_congr_right fun _ => and_iff_left_of_imp fun h => h.2

theorem cstr_eq_of_cells {buffer : Buffer} {text : List Byte} (htext : ∀ byte ∈ text, byte ≠ 0)
    (rest : List Byte) (hcells : buffer.cells = text ++ 0 :: rest) : buffer.cstr = text := by
  rw [cstr, hcells, cstrOf_append_zero htext]

/-- A copied C string is the same C string. -/
theorem copy_cstr (size : Nat) (junk : List Byte) {text : List Byte} (htext : ∀ byte ∈ text, byte ≠ 0) :
    ((alloc size junk).put 0 (text ++ [0])).cstr = text := by
  apply cstr_eq_of_cells htext (junk.drop (text ++ [0]).length)
  rw [put_cells, alloc_cells, overwrite_zero, List.append_assoc]
  rfl

/-- The copy stays inside a buffer that has room for it. -/
theorem copy_contained {text : List Byte} (htext : ∀ byte ∈ text, byte ≠ 0) {size : Nat}
    (hsize : text.length < size) (junk : List Byte) : ((alloc size junk).put 0 (text ++ [0])).Contained := by
  rw [contained_iff, copy_cstr size junk htext, put_writesInside_iff, put_readsInside_iff]
  refine ⟨⟨alloc_writesInside size junk, .inr ?_⟩, alloc_readsInside size junk, hsize⟩
  rw [List.length_append, List.length_singleton, alloc_size]
  omega

end Buffer

/-! ### Sequential stores through a moving pointer -/

/-- A buffer and the pointer `p` of a run of `*p++ = ...` stores into it. -/
structure Cursor where
  buffer : Buffer
  pos : Nat

def Cursor.emit (cursor : Cursor) (bytes : List Byte) : Cursor :=
  ⟨cursor.buffer.put cursor.pos bytes, cursor.pos + bytes.length⟩

@[simp] theorem Cursor.emit_size (cursor : Cursor) (bytes : List Byte) :
    (cursor.emit bytes).buffer.size = cursor.buffer.size := rfl

/-- The memory is `front` up to the pointer and `rest` from it on. -/
def Cursor.At (cursor : Cursor) (front rest : List Byte) : Prop :=
  cursor.buffer.cells = front ++ rest ∧ cursor.pos = front.length

theorem Cursor.At.emit {cursor : Cursor} {front rest : List Byte} (h : cursor.At front rest)
    (bytes : List Byte) : (cursor.emit bytes).At (front ++ bytes) (rest.drop bytes.length) := by
  obtain ⟨hcells, hpos⟩ := h
  refine ⟨?_, ?_⟩
  · change overwrite cursor.buffer.cells cursor.pos bytes = _
    rw [hcells, overwrite_append_of_eq hpos]
  · change cursor.pos + bytes.length = _
    rw [hpos, List.length_append]

/-- The bytes written so far are those in front of the pointer. -/
def Cursor.Written (cursor : Cursor) : Prop := ∀ index, index ∈ cursor.buffer.writes ↔ index < cursor.pos

theorem Cursor.Written.emit {cursor : Cursor} (h : cursor.Written) (bytes : List Byte) :
    (cursor.emit bytes).Written := by
  intro index
  change index ∈ cursor.buffer.writes ++ List.range' cursor.pos bytes.length ↔
    index < cursor.pos + bytes.length
  rw [List.mem_append, h index, List.mem_range'_1]
  omega

/-- A store in front of the pointer. -/
theorem Cursor.Written.put {cursor : Cursor} (h : cursor.Written) {offset : Nat} {bytes : List Byte}
    (hbehind : offset + bytes.length ≤ cursor.pos) :
    Cursor.Written ⟨cursor.buffer.put offset bytes, cursor.pos⟩ := by
  intro index
  change index ∈ cursor.buffer.writes ++ List.range' offset bytes.length ↔ index < cursor.pos
  rw [List.mem_append, h index, List.mem_range'_1]
  omega

end Vsnfs.Base
