import Mathlib.Data.Nat.Notation
import Mathlib.Tactic.SplitIfs

/-!
# Receive buffers

A receive buffer is a piece of memory with a window of bytes that were received and are still to be
processed.  Bytes are received at the end of the window and consumed at its start; now and then the
window is moved to the front, and the memory grows or shrinks.

## Main definitions

* `Buffer` : the memory and the window.
* `Buffer.unread` : the bytes in the window.
* `Buffer.moveToFront`, `resize`, `receive`, `skip` : the operations.
-/

namespace Twemcache

/-- A receive buffer. -/
structure Buffer (α : Type*) where
  /-- The memory. -/
  mem : ℕ → α
  /-- The size of the memory. -/
  size : ℕ
  /-- Where the window starts. -/
  curr : ℕ
  /-- The number of bytes in the window. -/
  bytes : ℕ

namespace Buffer

variable {α : Type*} (b : Buffer α)

/-- The bytes in the window. -/
def unread : List α := (List.range b.bytes).map fun i => b.mem (b.curr + i)

/-- The window is moved to the start of the memory (`memmove`). -/
def moveToFront : Buffer α :=
  { b with mem := fun i => if i < b.bytes then b.mem (b.curr + i) else b.mem i, curr := 0 }

/-- The memory is replaced by memory of another size with the same contents. -/
def resize (size : ℕ) : Buffer α := { b with size := size }

/-- Bytes are written behind a window that starts at the front. -/
def receive (data : List α) : Buffer α :=
  { b with
    mem := fun i => if b.bytes ≤ i then data[i - b.bytes]?.getD (b.mem i) else b.mem i
    bytes := b.bytes + data.length }

/-- Bytes at the start of the window are consumed. -/
def skip (n : ℕ) : Buffer α := { b with curr := b.curr + n, bytes := b.bytes - n }

variable {b} {data : List α} {n : ℕ}

@[simp] theorem length_unread : b.unread.length = b.bytes := by
  simp [unread]

@[simp] theorem unread_moveToFront : b.moveToFront.unread = b.unread := by
  refine List.map_congr_left fun i hi => ?_
  have hlt : i < b.bytes := List.mem_range.1 hi
  simp only [moveToFront, Nat.zero_add, if_pos hlt]

@[simp] theorem unread_resize : (b.resize n).unread = b.unread := rfl

theorem unread_receive (h : b.curr = 0) : (b.receive data).unread = b.unread ++ data := by
  refine List.ext_getElem (by simp [receive]) fun i h1 h2 => ?_
  by_cases hi : i < b.bytes
  · rw [List.getElem_append_left (by simpa using hi)]
    simp only [unread, receive, h, Nat.zero_add, List.getElem_map, List.getElem_range,
      if_neg (Nat.not_le.2 hi)]
  · rw [List.getElem_append_right (by simpa using hi)]
    simp only [length_unread, receive] at h1
    have hlt : i - b.bytes < data.length := by omega
    simp only [unread, receive, h, Nat.zero_add, List.getElem_map, List.getElem_range,
      if_pos (Nat.not_lt.1 hi), List.length_map, List.length_range, List.getElem?_eq_getElem hlt,
      Option.getD_some]

theorem unread_skip : (b.skip n).unread = b.unread.drop n := by
  refine List.ext_getElem (by simp [skip]) fun i h1 h2 => ?_
  simp [unread, skip, Nat.add_assoc]

theorem unread_eq_nil (h : b.bytes = 0) : b.unread = [] := by
  simp [unread, h]

end Buffer

end Twemcache
