import Mathlib.Logic.Function.Basic
import Mathlib.Data.List.Nodup

/-!
# Tail queues

The queues of the source are tail queues: a head with a pointer to its first element and the address
of the pointer that ends the queue, and in each element a pointer to the next one and the address of
the pointer that leads to it.  The macros that insert and remove elements write through these
addresses and check nothing.

A family of tail queues whose elements share one link field is faithful to a family of lists as long
as no element is inserted while it is in a queue and none is removed that is not in it
(`Holds.insertTail`, `Holds.insertHead`, `Holds.remove`).

## Main definitions

* `Addr` : the address of a pointer to an element.
* `Tailq` : the heads and the link fields.
* `Tailq.Queue` : the queue is made of these elements.
* `Tailq.Holds` : the queues are these lists.
-/

namespace Twemcache

/-- The address of a pointer to an element. -/
inductive Addr (κ α : Type*) where
  /-- `&TAILQ_FIRST(head)`. -/
  | first (q : κ)
  /-- `&TAILQ_NEXT(elm, field)`. -/
  | next (x : α)
  deriving DecidableEq

/-- Heads named by `κ`, and the link fields of elements. -/
structure Tailq (κ α : Type*) where
  /-- What is stored at an address. -/
  deref : Addr κ α → Option α
  /-- `tqh_last`. -/
  last : κ → Addr κ α
  /-- `tqe_prev`. -/
  prev : α → Addr κ α

namespace Tailq

variable {κ α : Type*}

/-- Empty queues, after `TAILQ_INIT`.  The link fields of elements, which are written before they
are read, are null. -/
def init [Inhabited κ] : Tailq κ α where
  deref := fun _ => none
  last := .first
  prev := fun _ => .first default

/-- The queue from address `a` on: its elements up to address `b`. -/
def Seg (t : Tailq κ α) : Addr κ α → List α → Addr κ α → Prop
  | a, [], b => a = b
  | a, x :: xs, b => t.deref a = some x ∧ t.prev x = a ∧ t.Seg (.next x) xs b

/-- The elements of the queue `q`, first to last, as a walk meets them. -/
structure Queue (t : Tailq κ α) (q : κ) (l : List α) : Prop where
  /-- The links lead from the head through the elements. -/
  seg : t.Seg (.first q) l (t.last q)
  /-- The last pointer is null. -/
  null : t.deref (t.last q) = none

/-- The pointers that belong to a queue. -/
def cells (q : κ) (l : List α) : List (Addr κ α) := .first q :: l.map .next

variable [DecidableEq κ] [DecidableEq α] (t : Tailq κ α) (q : κ) (x : α)

/-- `TAILQ_INSERT_TAIL`. -/
def insertTail : Tailq κ α where
  deref := Function.update (Function.update t.deref (.next x) none) (t.last q) (some x)
  last := Function.update t.last q (.next x)
  prev := Function.update t.prev x (t.last q)

/-- `TAILQ_INSERT_HEAD`. -/
def insertHead : Tailq κ α where
  deref := Function.update (Function.update t.deref (.next x) (t.deref (.first q)))
    (.first q) (some x)
  last := match t.deref (.first q) with
    | some _ => t.last
    | none => Function.update t.last q (.next x)
  prev := match t.deref (.first q) with
    | some y => Function.update (Function.update t.prev y (.next x)) x (.first q)
    | none => Function.update t.prev x (.first q)

/-- `TAILQ_REMOVE`. -/
def remove : Tailq κ α where
  deref := Function.update t.deref (t.prev x) (t.deref (.next x))
  last := match t.deref (.next x) with
    | some _ => t.last
    | none => Function.update t.last q (t.prev x)
  prev := match t.deref (.next x) with
    | some y => Function.update t.prev y (t.prev x)
    | none => t.prev

variable {t q x} {t' : Tailq κ α} {a b c : Addr κ α} {l m : List α} {qs : κ → List α} {i j : κ}

section

omit [DecidableEq κ] [DecidableEq α]

/-! ### Walking -/

theorem seg_append : t.Seg a (l ++ m) c ↔ ∃ b, t.Seg a l b ∧ t.Seg b m c := by
  induction l generalizing a with
  | nil => simp [Seg]
  | cons x xs ih => simp [Seg, ih, and_assoc]

/-- A walk ends where it started or behind an element that it met. -/
theorem Seg.end_mem (h : t.Seg a l b) : b = a ∨ ∃ x ∈ l, b = .next x := by
  induction l generalizing a with
  | nil => exact .inl h.symm
  | cons x xs ih =>
    obtain ⟨-, -, h⟩ := h
    obtain rfl | ⟨y, hy, rfl⟩ := ih h
    · exact .inr ⟨x, List.mem_cons_self, rfl⟩
    · exact .inr ⟨y, List.mem_cons_of_mem x hy, rfl⟩

/-- The pointers that a walk follows. -/
def sources : Addr κ α → List α → List (Addr κ α)
  | _, [] => []
  | a, x :: xs => a :: sources (.next x) xs

theorem Seg.congr (h : t.Seg a l b) (hderef : ∀ c ∈ sources a l, t'.deref c = t.deref c)
    (hprev : ∀ x ∈ l, t'.prev x = t.prev x) : t'.Seg a l b := by
  induction l generalizing a with
  | nil => exact h
  | cons x xs ih =>
    obtain ⟨hd, hp, h⟩ := h
    refine ⟨?_, ?_, ih h (fun c hc => hderef c (List.mem_cons_of_mem _ hc)) fun y hy =>
      hprev y (List.mem_cons_of_mem _ hy)⟩
    · rw [hderef a List.mem_cons_self, hd]
    · rw [hprev x List.mem_cons_self, hp]

theorem mem_sources (h : c ∈ sources a l) : c = a ∨ ∃ x ∈ l, c = .next x := by
  induction l generalizing a with
  | nil => cases h
  | cons x xs ih =>
    obtain rfl | h := List.mem_cons.1 h
    · exact .inl rfl
    · obtain rfl | ⟨y, hy, rfl⟩ := ih h
      · exact .inr ⟨x, List.mem_cons_self, rfl⟩
      · exact .inr ⟨y, List.mem_cons_of_mem x hy, rfl⟩

/-- A walk through different elements does not follow the pointer at which it ends. -/
theorem Seg.end_not_source (h : t.Seg a l b) (hnodup : l.Nodup) (ha : ∀ x ∈ l, a ≠ .next x) :
    b ∉ sources a l := by
  induction l generalizing a with
  | nil => exact List.not_mem_nil
  | cons x xs ih =>
    obtain ⟨-, -, h⟩ := h
    obtain ⟨hx, hnodup⟩ := List.nodup_cons.1 hnodup
    have hne : ∀ y ∈ xs, (Addr.next x : Addr κ α) ≠ .next y := fun y hy heq =>
      hx (Addr.next.inj heq ▸ hy)
    intro hmem
    obtain heq | hmem := List.mem_cons.1 hmem
    swap
    · exact ih h hnodup hne hmem
    obtain rfl | ⟨y, hy, rfl⟩ := h.end_mem
    · exact ha x List.mem_cons_self heq.symm
    · exact ha y (List.mem_cons_of_mem x hy) heq.symm

theorem mem_cells : a ∈ cells q l ↔ a = .first q ∨ ∃ x ∈ l, a = .next x := by
  simp [cells, eq_comm]

theorem Queue.last_mem (h : t.Queue q l) : t.last q ∈ cells q l := mem_cells.2 h.seg.end_mem

/-- Whoever leaves its pointers alone leaves a queue alone. -/
theorem Queue.frame (h : t.Queue q l) (hderef : ∀ c ∈ cells q l, t'.deref c = t.deref c)
    (hprev : ∀ x ∈ l, t'.prev x = t.prev x) (hlast : t'.last q = t.last q) : t'.Queue q l where
  seg := by
    rw [hlast]
    exact h.seg.congr (fun c hc => hderef c (mem_cells.2 (mem_sources hc))) hprev
  null := by rw [hlast, hderef _ h.last_mem, h.null]

theorem Queue.first_mem (h : t.Queue q l) (hx : t.deref (.first q) = some x) : x ∈ l := by
  cases l with
  | nil =>
    have hseg : (.first q : Addr κ α) = t.last q := h.seg
    rw [hseg, h.null] at hx
    cases hx
  | cons y ys =>
    rw [h.seg.1] at hx
    exact Option.some.inj hx ▸ List.mem_cons_self

/-- Where a removed element was. -/
theorem Queue.split (h : t.Queue q l) (hx : x ∈ l) : ∃ l₁ l₂, l = l₁ ++ x :: l₂ ∧
    t.Seg (.first q) l₁ (t.prev x) ∧ t.deref (t.prev x) = some x ∧
        t.Seg (.next x) l₂ (t.last q) := by
  obtain ⟨l₁, l₂, rfl⟩ := List.append_of_mem hx
  obtain ⟨b, h₁, hd, rfl, h₂⟩ := seg_append.1 h.seg
  exact ⟨l₁, l₂, rfl, h₁, hd, h₂⟩

/-! ### Families of queues -/

/-- The queues are these lists. -/
def Holds (t : Tailq κ α) (qs : κ → List α) : Prop := ∀ i, t.Queue i (qs i)

/-- No element is twice in the lists. -/
structure Apart (qs : κ → List α) : Prop where
  /-- Not in one. -/
  nodup : ∀ i, (qs i).Nodup
  /-- Not in two. -/
  eq : ∀ i j x, x ∈ qs i → x ∈ qs j → i = j

theorem Apart.not_mem_cells (h : Apart qs) (hij : i ≠ j) (ha : a ∈ cells i (qs i)) :
    a ∉ cells j (qs j) := by
  intro ha'
  obtain rfl | ⟨x, hx, rfl⟩ := mem_cells.1 ha
  · obtain heq | ⟨y, -, heq⟩ := mem_cells.1 ha'
    · exact hij (Addr.first.inj heq)
    · cases heq
  · obtain heq | ⟨y, hy, heq⟩ := mem_cells.1 ha'
    · cases heq
    · exact hij (h.eq i j x hx (Addr.next.inj heq ▸ hy))

theorem next_not_mem_cells (hx : x ∉ l) : (.next x : Addr κ α) ∉ cells q l := by
  intro hmem
  obtain heq | ⟨y, hy, heq⟩ := mem_cells.1 hmem
  · cases heq
  · exact hx (Addr.next.inj heq ▸ hy)

theorem holds_init [Inhabited κ] : init.Holds fun _ : κ => ([] : List α) := fun _ => ⟨rfl, rfl⟩

end

/-! ### The macros -/

theorem Queue.insertTail (h : t.Queue q l) (hnodup : l.Nodup) (hx : x ∉ l) :
    (t.insertTail q x).Queue q (l ++ [x]) := by
  have hlast : (.next x : Addr κ α) ≠ t.last q := fun heq =>
    next_not_mem_cells hx (heq ▸ h.last_mem)
  have hsrc := h.seg.end_not_source hnodup fun _ _ => nofun
  have hseg : (t.insertTail q x).Seg (.first q) l (t.last q) := by
    refine h.seg.congr (fun c hc => ?_) fun y hy => ?_
    · have hcx : c ≠ .next x := fun heq =>
        next_not_mem_cells hx (heq ▸ mem_cells.2 (mem_sources hc))
      have hcl : c ≠ t.last q := fun heq => hsrc (heq ▸ hc)
      simp [Tailq.insertTail, hcx, hcl]
    · have hyx : y ≠ x := fun heq => hx (heq ▸ hy)
      simp [Tailq.insertTail, hyx]
  refine ⟨seg_append.2 ⟨_, hseg, ?_⟩, ?_⟩
  · simp [Seg, Tailq.insertTail]
  · simp [Tailq.insertTail, hlast]

/-- **`TAILQ_INSERT_TAIL`** appends an element that is in no queue. -/
theorem Holds.insertTail (h : t.Holds qs) (hq : Apart qs) (hx : ∀ j, x ∉ qs j) :
    (t.insertTail i x).Holds (Function.update qs i (qs i ++ [x])) := by
  intro j
  by_cases hij : j = i
  · subst hij
    rw [Function.update_self]
    exact (h j).insertTail (hq.nodup j) (hx j)
  · rw [Function.update_of_ne hij]
    refine (h j).frame (fun c hc => ?_) (fun y hy => ?_) ?_
    · have hcx : c ≠ .next x := fun heq => next_not_mem_cells (hx j) (heq ▸ hc)
      have hcl : c ≠ t.last i := fun heq => hq.not_mem_cells (Ne.symm hij) (h i).last_mem (heq ▸ hc)
      simp [Tailq.insertTail, hcx, hcl]
    · have hyx : y ≠ x := fun heq => hx j (heq ▸ hy)
      simp [Tailq.insertTail, hyx]
    · simp [Tailq.insertTail, hij]

theorem Queue.insertHead (h : t.Queue q l) (hnodup : l.Nodup) (hx : x ∉ l) :
    (t.insertHead q x).Queue q (x :: l) := by
  cases l with
  | nil =>
    have hfirst : t.deref (.first q) = none := by
      have hseg : (.first q : Addr κ α) = t.last q := h.seg
      rw [hseg, h.null]
    refine ⟨⟨?_, ?_, ?_⟩, ?_⟩ <;> simp [Tailq.insertHead, hfirst, Seg]
  | cons y ys =>
    obtain ⟨hfirst, hprev, hseg⟩ := h.seg
    obtain ⟨hyx, hxs⟩ := List.ne_and_not_mem_of_not_mem_cons hx
    have hys := (List.nodup_cons.1 hnodup).1
    -- what lies behind `y` is not written to
    have hbehind : ∀ z ∈ y :: ys, (.next z : Addr κ α) ≠ .next x := fun z hz heq =>
      hx (Addr.next.inj heq ▸ hz)
    have hrest : (t.insertHead q x).Seg (.next y) ys (t.last q) := by
      refine hseg.congr (fun c hc => ?_) fun z hz => ?_
      · obtain ⟨z, hz, rfl⟩ : ∃ z ∈ y :: ys, c = .next z := by
          obtain rfl | ⟨z, hz, rfl⟩ := mem_sources hc
          · exact ⟨y, List.mem_cons_self, rfl⟩
          · exact ⟨z, List.mem_cons_of_mem y hz, rfl⟩
        simp [Tailq.insertHead, hbehind z hz]
      · have hzx : z ≠ x := fun heq => hxs (heq ▸ hz)
        have hzy : z ≠ y := fun heq => hys (heq ▸ hz)
        simp [Tailq.insertHead, hfirst, hzx, hzy]
    have hlast : (t.insertHead q x).last q = t.last q := by simp [Tailq.insertHead, hfirst]
    refine ⟨⟨?_, ?_, ?_, ?_, ?_⟩, ?_⟩
    · simp [Tailq.insertHead]
    · simp [Tailq.insertHead, hfirst]
    · simp [Tailq.insertHead, hfirst]
    · simp [Tailq.insertHead, hfirst, Ne.symm hyx]
    · rw [hlast]
      exact hrest
    · rw [hlast]
      obtain ⟨z, hz, heq⟩ : ∃ z ∈ y :: ys, t.last q = .next z := by
        obtain heq | ⟨z, hz, heq⟩ := hseg.end_mem
        · exact ⟨y, List.mem_cons_self, heq⟩
        · exact ⟨z, List.mem_cons_of_mem y hz, heq⟩
      have hnull := h.null
      rw [heq] at hnull ⊢
      simpa [Tailq.insertHead, hbehind z hz] using hnull

/-- **`TAILQ_INSERT_HEAD`** puts an element that is in no queue in front. -/
theorem Holds.insertHead (h : t.Holds qs) (hq : Apart qs) (hx : ∀ j, x ∉ qs j) :
    (t.insertHead i x).Holds (Function.update qs i (x :: qs i)) := by
  intro j
  by_cases hij : j = i
  · subst hij
    rw [Function.update_self]
    exact (h j).insertHead (hq.nodup j) (hx j)
  · rw [Function.update_of_ne hij]
    refine (h j).frame (fun c hc => ?_) (fun y hy => ?_) ?_
    · have hcx : c ≠ .next x := fun heq => next_not_mem_cells (hx j) (heq ▸ hc)
      have hcf : c ≠ .first i := fun heq =>
        hq.not_mem_cells (Ne.symm hij) (mem_cells.2 (.inl rfl)) (heq ▸ hc)
      simp [Tailq.insertHead, hcx, hcf]
    · have hyx : y ≠ x := fun heq => hx j (heq ▸ hy)
      cases hfirst : t.deref (.first i) with
      | none => simp [Tailq.insertHead, hfirst, hyx]
      | some z =>
        -- the old first element is in the other queue
        have hyz : y ≠ z := fun heq => hij (hq.eq j i y hy (heq ▸ (h i).first_mem hfirst))
        simp [Tailq.insertHead, hfirst, hyx, hyz]
    · cases hfirst : t.deref (.first i) <;> simp [Tailq.insertHead, hfirst, hij]

theorem Queue.remove (h : t.Queue q l) (hnodup : l.Nodup) (hx : x ∈ l) :
    (t.remove q x).Queue q (l.erase x) := by
  obtain ⟨l₁, l₂, rfl, h₁, hd, h₂⟩ := h.split hx
  obtain ⟨hn₁, hn₂, hdisj⟩ := List.nodup_append.1 hnodup
  have hx₁ : x ∉ l₁ := fun hmem => hdisj x hmem x List.mem_cons_self rfl
  rw [List.erase_append_right _ hx₁, List.erase_cons_head]
  have hsrc := h₁.end_not_source hn₁ fun _ _ => nofun
  cases l₂ with
  | nil =>
    have hlast : (.next x : Addr κ α) = t.last q := h₂
    have hnull : t.deref (.next x) = none := by rw [hlast, h.null]
    have hseg : (t.remove q x).Seg (.first q) l₁ (t.prev x) := by
      refine h₁.congr (fun c hc => ?_) fun y _ => ?_
      · have hcb : c ≠ t.prev x := fun heq => hsrc (heq ▸ hc)
        simp [Tailq.remove, hcb]
      · simp [Tailq.remove, hnull]
    rw [List.append_nil]
    refine ⟨?_, ?_⟩
    · simpa [Tailq.remove, hnull] using hseg
    · simp [Tailq.remove, hnull]
  | cons y ys =>
    obtain ⟨hy, -, hys⟩ := h₂
    have hynot := (List.nodup_cons.1 (List.nodup_cons.1 hn₂).2).1
    -- the pointer to `x` is not behind `y`
    have hbehind : ∀ z ∈ y :: ys, (.next z : Addr κ α) ≠ t.prev x := fun z hz heq => by
      obtain hb | ⟨w, hw, hb⟩ := h₁.end_mem
      · rw [hb] at heq
        cases heq
      · rw [hb] at heq
        exact hdisj w hw z (List.mem_cons_of_mem x hz) (Addr.next.inj heq).symm
    have hfront : (t.remove q x).Seg (.first q) l₁ (t.prev x) := by
      refine h₁.congr (fun c hc => ?_) fun z hz => ?_
      · have hcb : c ≠ t.prev x := fun heq => hsrc (heq ▸ hc)
        simp [Tailq.remove, hcb]
      · have hzy : z ≠ y := hdisj z hz y (List.mem_cons_of_mem x List.mem_cons_self)
        simp [Tailq.remove, hy, hzy]
    have hback : (t.remove q x).Seg (.next y) ys (t.last q) := by
      refine hys.congr (fun c hc => ?_) fun z hz => ?_
      · obtain ⟨z, hz, rfl⟩ : ∃ z ∈ y :: ys, c = .next z := by
          obtain rfl | ⟨z, hz, rfl⟩ := mem_sources hc
          · exact ⟨y, List.mem_cons_self, rfl⟩
          · exact ⟨z, List.mem_cons_of_mem y hz, rfl⟩
        simp [Tailq.remove, hbehind z hz]
      · have hzy : z ≠ y := fun heq => hynot (heq ▸ hz)
        simp [Tailq.remove, hy, hzy]
    have hlast : (t.remove q x).last q = t.last q := by simp [Tailq.remove, hy]
    refine ⟨?_, ?_⟩
    · rw [hlast]
      refine seg_append.2 ⟨_, hfront, ?_, ?_, hback⟩
      · simp [Tailq.remove, hy]
      · simp [Tailq.remove, hy]
    · rw [hlast]
      obtain ⟨z, hz, heq⟩ : ∃ z ∈ y :: ys, t.last q = .next z := by
        obtain heq | ⟨z, hz, heq⟩ := hys.end_mem
        · exact ⟨y, List.mem_cons_self, heq⟩
        · exact ⟨z, List.mem_cons_of_mem y hz, heq⟩
      have hnull := h.null
      rw [heq] at hnull ⊢
      simpa [Tailq.remove, hbehind z hz] using hnull

/-- **`TAILQ_REMOVE`** takes an element out of its queue. -/
theorem Holds.remove (h : t.Holds qs) (hq : Apart qs) (hx : x ∈ qs i) :
    (t.remove i x).Holds (Function.update qs i ((qs i).erase x)) := by
  intro j
  by_cases hij : j = i
  · subst hij
    rw [Function.update_self]
    exact (h j).remove (hq.nodup j) hx
  · rw [Function.update_of_ne hij]
    obtain ⟨l₁, l₂, hl, h₁, -, h₂⟩ := (h i).split hx
    have hprev : t.prev x ∈ cells i (qs i) := by
      obtain heq | ⟨w, hw, heq⟩ := h₁.end_mem
      · exact mem_cells.2 (.inl heq)
      · exact mem_cells.2 (.inr ⟨w, hl ▸ List.mem_append_left _ hw, heq⟩)
    refine (h j).frame (fun c hc => ?_) (fun y hy => ?_) ?_
    · have hcb : c ≠ t.prev x := fun heq => hq.not_mem_cells (Ne.symm hij) hprev (heq ▸ hc)
      simp [Tailq.remove, hcb]
    · cases hnext : t.deref (.next x) with
      | none => simp [Tailq.remove, hnext]
      | some z =>
        have hz : z ∈ qs i := by
          cases l₂ with
          | nil =>
            have hlast : (.next x : Addr κ α) = t.last i := h₂
            rw [hlast, (h i).null] at hnext
            cases hnext
          | cons w ws =>
            rw [h₂.1] at hnext
            rw [hl, ← Option.some.inj hnext]
            simp
        have hyz : y ≠ z := fun heq => hij (hq.eq j i y hy (heq ▸ hz))
        simp [Tailq.remove, hnext, hyz]
    · cases hnext : t.deref (.next x) <;> simp [Tailq.remove, hnext, hij]

end Tailq

end Twemcache
