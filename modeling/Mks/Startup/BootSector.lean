import Mks.Startup.Disk

set_option autoImplicit false

/-! # The run of the boot sector

`real_start` loads `setup`, `setup32` and the kernel one after the other. The variables that one
function leaves are the position at which the next goes on, so the three images are read from one
stretch of the disk (`realStart_reads`).
-/

namespace Mks.Disk

section Bios

variable (bios : Request → Bool)

def loadSetup (m : Machine) : Except Stop Machine :=
  let m : Machine := { m with es := 0x0080, bx := 0, readPerTime := 10, track := 0, sector := 2 }
  -- `head` is a byte: the word that is stored there clears the lower byte of `readed` too
  let m : Machine :=
    { m with head := 0, readed := BitVec.setWidth 8 (m.readed >>> 8) ++ (0 : Byte) }
  readTrack bios m >>= updateOrthl

def loadSetup32 (fuel : Nat) (m : Machine) : Option (Except Stop Machine) :=
  loadSetup32Go bios fuel { m with es := 0x0500, bx := 0, total := 88, readed := 0 }

/-- The loop `load_kernel.go` over the segments; `none` if it does not end within `n` turns. -/
def loadKernelGo (fuel : Nat) : Nat → Machine → Option (Except Stop Machine)
  | 0, _ => none
  | n + 1, m =>
    let ax := m.es + 0x1000
    if 0x9000 ≤ ax then some (.ok m)
    else
      match inSegment bios fuel { m with es := ax, bx := 0, total := 128, readed := 0 } with
      | some (.ok m) => loadKernelGo fuel n m
      | r => r

def loadKernel (fuel n : Nat) (m : Machine) : Option (Except Stop Machine) :=
  loadKernelGo bios fuel n { m with es := 0 }

/-- The calls in `real_start`. -/
def realStart (fuel n : Nat) (m : Machine) : Option (Except Stop Machine) :=
  match loadSetup bios m with
  | .error e => some (.error e)
  | .ok m =>
    match loadSetup32 bios fuel m with
    | some (.ok m) => loadKernel bios fuel n m
    | r => r

end Bios

/-- The sectors that are read, each with the physical address where it is stored. -/
def Request.stores (r : Request) : List (Nat × Nat) :=
  r.transfers.map fun x => (x.1, r.es.toNat * 16 + x.2)

/-- From `m` to `m'` the requests were for `t` sectors from `s` on, which were stored from address `a`
on. -/
def Reads (m m' : Machine) (s t a : Nat) : Prop :=
  ∃ rs : List Request, m'.reads = m.reads ++ rs ∧ (∀ r ∈ rs, r.InTrack) ∧
    rs.flatMap Request.stores = (List.range t).map fun k => (s + k, a + 512 * k)

theorem Reads.refl (m : Machine) (s a : Nat) : Reads m m s 0 a :=
  ⟨[], (List.append_nil _).symm, by simp, rfl⟩

/-- Requests for sectors that follow each other on the disk and in memory. -/
theorem Reads.trans {m₁ m₂ m₃ : Machine} {s t t' a : Nat} (h : Reads m₁ m₂ s t a)
    (h' : Reads m₂ m₃ (s + t) t' (a + 512 * t)) : Reads m₁ m₃ s (t + t') a := by
  obtain ⟨rs, hrs, hin, htr⟩ := h
  obtain ⟨rs', hrs', hin', htr'⟩ := h'
  refine ⟨rs ++ rs', by rw [hrs', hrs, List.append_assoc], ?_, ?_⟩
  · intro r hr
    rcases List.mem_append.mp hr with hr | hr
    · exact hin r hr
    · exact hin' r hr
  · have happ := range_append (fun k => (s + k, a + 512 * k)) t t'
    rw [List.flatMap_append, htr, htr', ← happ]
    simp only [Nat.add_assoc, Nat.mul_add]

/-- The sectors of requests to one segment. -/
theorem flatMap_stores {rs : List Request} {e : Word16} (hes : ∀ r ∈ rs, r.es = e) {s t : Nat}
    (htr : rs.flatMap Request.transfers = (List.range t).map fun k => (s + k, 512 * k)) :
    rs.flatMap Request.stores =
      (List.range t).map fun k => (s + k, e.toNat * 16 + 512 * k) := by
  calc rs.flatMap Request.stores
      = rs.flatMap fun r => r.transfers.map fun x => (x.1, e.toNat * 16 + x.2) := by
        refine List.flatMap_congr fun r hr => ?_
        rw [Request.stores, hes r hr]
    _ = (rs.flatMap Request.transfers).map fun x => (x.1, e.toNat * 16 + x.2) :=
        List.map_flatMap.symm
    _ = (List.range t).map fun k => (s + k, e.toNat * 16 + 512 * k) := by
        rw [htr, List.map_map]
        rfl

section Run

variable {bios : Request → Bool} (hbios : ∀ r : Request, r.InTrack → bios r = false)

include hbios

/-- One of the loops of `load_setup32` and `load_kernel`, which fills the segment `e`. -/
theorem fill_segment {loop : Nat → Machine → Option (Except Stop Machine)}
    (hL : LoadLoop bios loop) {m : Machine} {s t : Nat} (hpos : Position m s) (ht : t ≤ 128)
    (hst : s + t < 18 * 256) (e : Word16) {fuel : Nat} (hf : t < fuel) :
    ∃ m', loop fuel { m with es := e, bx := 0, total := BitVec.ofNat 16 t, readed := 0 } =
        some (.ok m') ∧ Position m' (s + t) ∧ m'.es = e ∧ Reads m m' s t (e.toNat * 16) := by
  have hloaded : Loaded s t 0
      { m with es := e, bx := 0, total := BitVec.ofNat 16 t, readed := 0 } := by
    refine ⟨⟨hpos.logicSector, hpos.track, hpos.head⟩, rfl, ?_, rfl, Nat.zero_le t⟩
    exact (BitVec.toNat_ofNat t 16).trans (Nat.mod_eq_of_lt (by omega))
  obtain ⟨m', rs, hrun, hm', hes, hreads, hin, htr⟩ := hL.run hbios hloaded ht hst (by omega)
  simp only [Nat.zero_add, Nat.sub_zero] at htr
  exact ⟨m', hrun, hm'.position, hes, rs, hreads, fun r hr => (hin r hr).1,
    flatMap_stores (fun r hr => (hin r hr).2) htr⟩

theorem loadSetup_reads {m : Machine} (h : m.logicSector = 1) (hr : m.readed = 0) :
    ∃ m', loadSetup bios m = .ok m' ∧ Position m' 11 ∧ Reads m m' 1 10 0x0800 := by
  have hready (m : Machine) (h : m.logicSector = 1) : ReadsAt
      { m with es := 0x0080, bx := 0, readPerTime := 10, track := 0, sector := 2, head := 0,
               readed := 0 } 1 10 := by
    refine ⟨⟨?_, rfl, rfl⟩, by decide, rfl, rfl, by decide, by decide⟩
    change m.logicSector.toNat = 1
    rw [h]
    rfl
  obtain ⟨m', hstep, hadv⟩ := (hready m h).step hbios (by decide)
    (show (0 : Word16).toNat + 10 < 256 by decide)
  refine ⟨m', ?_, hadv.position, [_], hadv.reads, ?_, ?_⟩
  · rw [loadSetup, hr]
    exact hstep
  · intro r hmem
    rw [List.mem_singleton.mp hmem]
    exact (hready m h).inTrack
  · refine flatMap_stores (e := 0x0080) (fun r hmem => ?_) ?_
    · rw [List.mem_singleton.mp hmem]
      rfl
    · rw [List.flatMap_singleton, (hready m h).transfers]
      rfl

/-- The segments of the kernel that are left when the first `i` are filled. -/
theorem loadKernelGo_reads {m : Machine} {s i fuel n : Nat} (hpos : Position m s) (hi : i ≤ 8)
    (hes : m.es.toNat = 0x1000 * i) (hs : s + 128 * (8 - i) < 18 * 256) (hf : 128 < fuel)
    (hn : 8 - i < n) :
    ∃ m', loadKernelGo bios fuel n m = some (.ok m') ∧ Position m' (s + 128 * (8 - i)) ∧
      Reads m m' s (128 * (8 - i)) (0x10000 * (i + 1)) := by
  induction n generalizing m s i with
  | zero => omega
  | succ n ih =>
    have hax : (m.es + 0x1000).toNat = 0x1000 * (i + 1) := by
      rw [BitVec.toNat_add, hes]
      change (0x1000 * i + 0x1000) % 65536 = _
      omega
    rcases Nat.eq_or_lt_of_le hi with rfl | hlt
    · have hge : 0x9000 ≤ m.es + 0x1000 := by
        rw [BitVec.le_def, hax]
        decide
      refine ⟨m, ?_, hpos, Reads.refl m s _⟩
      rw [loadKernelGo]
      exact if_pos hge
    · have hnot : ¬ 0x9000 ≤ m.es + 0x1000 := by
        rw [BitVec.le_def, hax]
        change ¬ 0x9000 ≤ 0x1000 * (i + 1)
        omega
      obtain ⟨m₁, hrun, hpos₁, hes₁, hreads₁⟩ := fill_segment hbios (inSegment_loop bios) hpos
        (t := 128) le_rfl (by omega) (m.es + 0x1000) hf
      obtain ⟨m', hrest, hpos', hreads'⟩ := ih hpos₁ (i := i + 1) (by omega)
        (by rw [hes₁, hax]) (by omega) (by omega)
      have hsize : 128 + 128 * (8 - (i + 1)) = 128 * (8 - i) := by omega
      refine ⟨m', ?_, ?_, ?_⟩
      · have hseg : inSegment bios fuel
            { m with es := m.es + 0x1000, bx := 0, total := 128, readed := 0 } =
              some (.ok m₁) := hrun
        rw [loadKernelGo]
        simp only [if_neg hnot, hseg]
        exact hrest
      · rw [← hsize, ← Nat.add_assoc]
        exact hpos'
      · rw [← hsize]
        rw [hax, show 0x1000 * (i + 1) * 16 = 0x10000 * (i + 1) by ring] at hreads₁
        rw [show 0x10000 * (i + 1 + 1) = 0x10000 * (i + 1) + 512 * 128 by ring] at hreads'
        exact hreads₁.trans hreads'

end Run

/-- The boot sector reads the sectors 1 to 1122, `setup` to 0x800, `setup32` to 0x5000 and the eight
segments of the kernel to 0x10000. -/
theorem realStart_reads (bios : Request → Bool)
    (hbios : ∀ r : Request, r.InTrack → bios r = false) (m : Machine) (hm : m.logicSector = 1)
    (hr : m.readed = 0) (fuel n : Nat) (hf : 128 < fuel) (hn : 8 < n) :
    ∃ m₁ m₂ m', realStart bios fuel n m = some (.ok m') ∧ Position m' 1123 ∧
      Reads m m₁ 1 10 0x0800 ∧ Reads m₁ m₂ 11 88 0x5000 ∧ Reads m₂ m' 99 1024 0x10000 := by
  obtain ⟨m₁, hsetup, hpos₁, hreads₁⟩ := loadSetup_reads hbios hm hr
  obtain ⟨m₂, hsetup32, hpos₂, -, hreads₂⟩ := fill_segment hbios (loadSetup32Go_loop bios) hpos₁
    (t := 88) (by decide) (by decide) 0x0500 (show 88 < fuel by omega)
  obtain ⟨m', hkernel, hpos', hreads'⟩ := loadKernelGo_reads hbios (m := { m₂ with es := 0 })
    (s := 99) (i := 0) ⟨hpos₂.logicSector, hpos₂.track, hpos₂.head⟩ (by decide) rfl (by decide)
    hf (by omega)
  refine ⟨m₁, m₂, m', ?_, hpos', hreads₁, hreads₂, hreads'⟩
  have hset : loadSetup32 bios fuel m₁ = some (.ok m₂) := hsetup32
  rw [realStart, hsetup]
  simp only [hset]
  exact hkernel

end Mks.Disk
