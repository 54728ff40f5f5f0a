import Mks.Startup.BootSector
import Mathlib.Data.List.GetD

set_option autoImplicit false

/-! # The boot image

The `Makefile` puts the boot sector, `setup`, `setup32` and the kernel into one image with `dd`. The
boot sector, started from a disk with this image, stores each of them where it is then jumped to:
`setup` at 0x800, `setup32` at 0x5000 and the kernel at 0x10000. Nothing is stored over another of
them, nor over the boot sector itself, which has moved to 0x600 (`image_loaded`).
-/

namespace Mks.Disk

/-! ## The image -/

/-- A file or a disk of which every byte is given, and is 0 where nothing has been written. -/
abbrev Bytes := Nat → Byte

/-- `dd bs=512 if=input of=Image seek=seek count=count` -/
def dd (input : List Byte) (seek : Nat) (count : Option Nat) (out : Bytes) : Bytes := fun x =>
  if 512 * seek ≤ x ∧ ∀ n ∈ count, x < 512 * seek + 512 * n then
    (input[x - 512 * seek]?).getD (out x)
  else out x

/-- The files of the image. -/
structure Files where
  bootsect : List Byte
  setup : List Byte
  setup32 : List Byte
  system : List Byte

/-- `Image` -/
def image (f : Files) : Bytes :=
  let out := dd f.bootsect 0 (some 1) fun _ => 0
  let out := dd f.setup 1 (some 10) out
  let out := dd f.setup32 11 (some 88) out
  dd f.system 99 none out

theorem dd_outside {input : List Byte} {seek x : Nat} {count : Option Nat} {out : Bytes}
    (h : x < 512 * seek ∨ ∃ n ∈ count, 512 * seek + 512 * n ≤ x) :
    dd input seek count out x = out x := by
  refine if_neg fun hc => ?_
  rcases h with h | ⟨n, hn, h⟩
  · omega
  · have := hc.2 n hn
    omega

theorem dd_inside {input : List Byte} {seek i : Nat} {count : Option Nat} {out : Bytes}
    (h : ∀ n ∈ count, i < 512 * n) (hout : out (512 * seek + i) = 0) :
    dd input seek count out (512 * seek + i) = input.getD i 0 := by
  rw [dd, if_pos ⟨by omega, fun n hn => by have := h n hn; omega⟩, Nat.add_sub_cancel_left, hout,
    List.getD_eq_getElem?_getD]

/-- Where `setup` is in the image. -/
theorem image_setup (f : Files) {i : Nat} (hi : i < 5120) :
    image f (512 * 1 + i) = f.setup.getD i 0 := by
  simp only [image]
  rw [dd_outside (.inl (by omega)), dd_outside (.inl (by omega)), dd_inside]
  · simpa using hi
  · exact dd_outside (.inr ⟨1, rfl, by omega⟩)

theorem image_setup32 (f : Files) {i : Nat} (hi : i < 45056) :
    image f (512 * 11 + i) = f.setup32.getD i 0 := by
  simp only [image]
  rw [dd_outside (.inl (by omega)), dd_inside]
  · simpa using hi
  · rw [dd_outside (.inr ⟨10, rfl, by omega⟩)]
    exact dd_outside (.inr ⟨1, rfl, by omega⟩)

theorem image_system (f : Files) (i : Nat) : image f (512 * 99 + i) = f.system.getD i 0 := by
  simp only [image]
  rw [dd_inside]
  · simp
  · rw [dd_outside (.inr ⟨88, rfl, by omega⟩), dd_outside (.inr ⟨10, rfl, by omega⟩)]
    exact dd_outside (.inr ⟨1, rfl, by omega⟩)

/-! ## What is read -/

/-- One sector of the disk is stored at a physical address. -/
def storeSector (disk mem : Bytes) (x : Nat × Nat) : Bytes := fun a =>
  if x.2 ≤ a ∧ a < x.2 + 512 then disk (512 * x.1 + (a - x.2)) else mem a

/-- The memory after the sectors `l` have been stored. -/
def storeSectors (disk mem : Bytes) (l : List (Nat × Nat)) : Bytes := l.foldl (storeSector disk) mem

/-- Consecutive sectors. -/
theorem storeSectors_range (disk mem : Bytes) (s t a x : Nat) :
    storeSectors disk mem ((List.range t).map fun k => (s + k, a + 512 * k)) x =
      if a ≤ x ∧ x < a + 512 * t then disk (512 * s + (x - a)) else mem x := by
  induction t with
  | zero =>
      rw [if_neg (by omega)]
      rfl
  | succ t ih =>
      rw [List.range_succ, List.map_append, storeSectors, List.foldl_append]
      show storeSector disk (storeSectors disk mem _) (s + t, a + 512 * t) x = _
      rw [storeSector]
      by_cases h : a + 512 * t ≤ x ∧ x < a + 512 * t + 512
      · rw [if_pos h, if_pos (by omega)]
        congr 1
        show 512 * (s + t) + (x - (a + 512 * t)) = _
        omega
      · rw [if_neg h, ih]
        by_cases h' : a ≤ x ∧ x < a + 512 * t
        · rw [if_pos h', if_pos (by omega)]
        · rw [if_neg h', if_neg (by omega)]

/-- What the sectors that the boot sector reads from `m` to `m'` make of the memory. Its own stores,
to its variables behind it and to the stack below it, are left out: they are below 0x800. -/
def memoryAfter (disk mem : Bytes) (m m' : Machine) : Bytes :=
  storeSectors disk mem ((m'.reads.drop m.reads.length).flatMap Request.stores)

theorem memoryAfter_reads {m m' : Machine} {l : List (Nat × Nat)} {rs : List Request}
    (hreads : m'.reads = m.reads ++ rs) (hl : rs.flatMap Request.stores = l) (disk mem : Bytes) :
    memoryAfter disk mem m m' = storeSectors disk mem l := by
  rw [memoryAfter, hreads, List.drop_left, hl]

/-- **What the boot sector loads is what the `Makefile` has put into the image**, and the sectors it
reads change nothing else. -/
theorem image_loaded (bios : Request → Bool) (hbios : ∀ r : Request, r.InTrack → bios r = false)
    (f : Files) (m : Machine) (hm : m.logicSector = 1) (hr : m.readed = 0) (mem : Bytes)
    (fuel n : Nat) (hf : 128 < fuel) (hn : 8 < n) :
    ∃ m', realStart bios fuel n m = some (.ok m') ∧
      (∀ i < 5120, memoryAfter (image f) mem m m' (0x800 + i) = f.setup.getD i 0) ∧
      (∀ i < 45056, memoryAfter (image f) mem m m' (0x5000 + i) = f.setup32.getD i 0) ∧
      (∀ i < 524288, memoryAfter (image f) mem m m' (0x10000 + i) = f.system.getD i 0) ∧
      ∀ x, x < 0x800 ∨ (0x1C00 ≤ x ∧ x < 0x5000) ∨ 0x90000 ≤ x →
        memoryAfter (image f) mem m m' x = mem x := by
  obtain ⟨m₁, m₂, m', hrun, -, ⟨rs₁, h₁, -, hs₁⟩, ⟨rs₂, h₂, -, hs₂⟩, ⟨rs₃, h₃, -, hs₃⟩⟩ :=
    realStart_reads bios hbios m hm hr fuel n hf hn
  have hreads : m'.reads = m.reads ++ (rs₁ ++ rs₂ ++ rs₃) := by
    rw [h₃, h₂, h₁]
    simp only [List.append_assoc]
  have hmem := memoryAfter_reads hreads (l := _) rfl (image f) mem
  rw [List.flatMap_append, List.flatMap_append, hs₁, hs₂, hs₃, storeSectors, List.foldl_append,
    List.foldl_append] at hmem
  have hat : ∀ x, memoryAfter (image f) mem m m' x =
      if 0x10000 ≤ x ∧ x < 0x10000 + 512 * 1024 then image f (512 * 99 + (x - 0x10000))
      else if 0x5000 ≤ x ∧ x < 0x5000 + 512 * 88 then image f (512 * 11 + (x - 0x5000))
      else if 0x0800 ≤ x ∧ x < 0x0800 + 512 * 10 then image f (512 * 1 + (x - 0x0800))
      else mem x := by
    intro x
    rw [hmem]
    change storeSectors _ (storeSectors _ (storeSectors _ mem _) _) _ x = _
    rw [storeSectors_range, storeSectors_range, storeSectors_range]
  refine ⟨m', hrun, fun i hi => ?_, fun i hi => ?_, fun i hi => ?_, fun x hx => ?_⟩
  · rw [hat, if_neg (by omega), if_neg (by omega), if_pos (by omega), Nat.add_sub_cancel_left,
      image_setup f hi]
  · rw [hat, if_neg (by omega), if_pos (by omega), Nat.add_sub_cancel_left, image_setup32 f hi]
  · rw [hat, if_pos (by omega), Nat.add_sub_cancel_left, image_system f i]
  · rw [hat, if_neg (by omega), if_neg (by omega), if_neg (by omega)]

/-- The machine when `real_start` begins. -/
def atRealStart : Machine where
  readPerTime := 0
  sector := 0
  track := 0
  head := 0
  readed := 0
  total := 0
  logicSector := 1
  es := 0x0060
  bx := 0
  reads := []

/-- An image with 512 bytes of boot sector, 5120 of `setup`, 8192 of `setup32` and one of the
kernel. -/
def sampleFiles : Files :=
  ⟨.replicate 512 0xEA, .replicate 5120 0xFA, .replicate 8192 0x90, [0xE9]⟩

theorem image_loaded_byte : ∃ m',
    realStart (fun r => !decide r.InTrack) 129 9 atRealStart = some (.ok m') ∧
    memoryAfter (image sampleFiles) (fun _ => 0) atRealStart m' 0x1BFF = 0xFA ∧
    memoryAfter (image sampleFiles) (fun _ => 0) atRealStart m' 0x6FFF = 0x90 ∧
    memoryAfter (image sampleFiles) (fun _ => 0) atRealStart m' 0x7000 = 0 ∧
    memoryAfter (image sampleFiles) (fun _ => 0) atRealStart m' 0x10000 = 0xE9 := by
  obtain ⟨m', hrun, hsetup, hsetup32, hsystem, -⟩ := image_loaded (fun r => !decide r.InTrack)
    (by simp) sampleFiles atRealStart rfl rfl (fun _ => 0) 129 9 (by decide) (by decide)
  refine ⟨m', hrun, (hsetup 5119 (by decide)).trans ?_, (hsetup32 8191 (by decide)).trans ?_,
    (hsetup32 8192 (by decide)).trans ?_, hsystem 0 (by decide)⟩
  · exact List.getD_replicate _ (by decide)
  · exact List.getD_replicate _ (by decide)
  · exact List.getD_eq_default _ _ List.length_replicate.le

end Mks.Disk
