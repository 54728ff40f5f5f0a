import Mks.Memory.Recursion
import Mks.Memory.Stock

set_option autoImplicit false

/-! # What `get_free_page` changes

Two kinds of memory in which the kernel can clear the free frames. In a `Mapped` one they are mapped
already; `get_free_page` then takes the first free frame and changes nothing else, whatever the page
tables look like. In an `Accessible` one the page fault handler and the special case of the frames
`0x3FD` may have to map them first, and one call takes a chain of frames: the frame it returns, a
page table for its block, a page table for the block of that one, and so on (`Allocates`).

The call returns 0 with frames left if none of them has a page table for its address
(`getFreePage_exact`).
-/

namespace Mks.Mem

variable {m m' m₁ : Mem} {i j : Nat} {js : List Nat}

/-! ## The memories -/

/-- The kernel reaches the free frames without a fault. -/
def Mapped (m : Mem) : Prop := ∀ i < PAGING_PAGES, m.memMap i = UNUSED → m.frameOf i = some i

/-- The kernel reaches the free frames by a fault for which there is a page table, or after the
special case of `get_free_page`. -/
structure Accessible (m : Mem) : Prop extends Regular m where
  reached : ∀ i < PAGING_PAGES, m.memMap i = UNUSED → m.Covered i ∨ i % 1024 = 1021

/-- No free frame has a page table for its address. -/
def Starved (m : Mem) : Prop := ∀ i < PAGING_PAGES, m.memMap i = UNUSED → ¬ m.Covered i

/-- The spare frames are those without a page table. -/
theorem Accessible.spare_iff (h : Accessible m) (hlt : i < PAGING_PAGES)
    (hun : m.memMap i = UNUSED) : m.stock.spare i = true ↔ ¬ m.Covered i := by
  rw [stock_spare]
  exact ⟨And.right, fun hno => ⟨(h.reached i hlt hun).resolve_left hno, hno⟩⟩

theorem Accessible.starved_iff (h : Accessible m) : m.Starved ↔ m.stock.next = none := by
  rw [Stock.next, List.find?_eq_none]
  constructor
  · intro hs i hi
    obtain ⟨hlt, hun⟩ := mem_frees.mp hi
    rw [(h.spare_iff hlt hun).mpr (hs i hlt hun)]
    exact Bool.false_ne_true
  · intro hall i hlt hun
    refine (h.spare_iff hlt hun).mp ?_
    have hi := hall i (mem_frees.mpr ⟨hlt, hun⟩)
    simpa using hi

/-- **`get_free_page` returns**, with a frame or with nothing changed. -/
theorem Accessible.getFreePage_cases (h : Accessible m) :
    (m.Starved ∧ ∃ k, ∀ n ≥ k, getFreePage n m = some (0, m)) ∨
      ∃ i js m', Allocates m i js m' ∧ ∃ k, ∀ n ≥ k, getFreePage n m = some (frameAddr i, m') := by
  rcases h.toRegular.getFreePage_cases with ⟨hn, hk⟩ | ⟨-, i, js, m', ha⟩ | ⟨hE, -⟩
  · exact .inl ⟨h.starved_iff.mpr hn, hk⟩
  · exact .inr ⟨i, js, m', ha, ha.getFreePage h.toRegular⟩
  · -- a frame that is not spare has its page table
    refine absurd (fun g hg => ?_) hE
    obtain ⟨hlt, hun⟩ := mem_frees.mp (List.mem_of_find?_eq_some hg)
    have hsp := List.find?_some hg
    rw [stock_covered]
    by_contra hno
    rw [(h.spare_iff hlt hun).mpr hno] at hsp
    cases hsp

theorem Mapped.getFreePage (h : m.Mapped) (hf : m.firstFree = some i) {n : Nat} (hn : 4 ≤ n) :
    getFreePage n m = some (frameAddr i, m.alloc i) := by
  obtain ⟨hlt, hun, -⟩ := firstFree_some hf
  have hi := h i hlt hun
  have hr : m.reach i = m := by
    rw [Mem.reach, hi]
    rfl
  have hget := getFreePage_covered hf (covered_of_frameOf hi) 0
  rw [Mem.grab, hr] at hget
  exact getFreePage_mono hget hn

end Mks.Mem
