import Mathlib.Data.BitVec
import Mathlib.Data.List.Flatten
import Mathlib.Tactic

set_option autoImplicit false

/-! # Loading from the floppy disk

The boot sector (`boot/bootsect.asm`) reads the kernel with the BIOS, at most the rest of a track at a
time. It keeps the position on the disk twice: as `logic_sector` and as `track` and `head`, which
`update_orthl` moves on at the end of a track. The two agree (`Position`), and so the sectors
are read one after the other (`load_consecutive`).

`bios` says which requests the BIOS fails. A request leaves `es`, `bx` and the variables of the boot
sector as they are.
-/

namespace Mks.Disk

abbrev Byte := BitVec 8
abbrev Word16 := BitVec 16

/-- The registers at `int 0x13` with `ah = 2`. -/
structure Request where
  al : Byte
  ch : Byte
  cl : Byte
  dh : Byte
  dl : Byte
  es : Word16
  bx : Word16

/-- The variables of the boot sector and the registers `es` and `bx`. -/
structure Machine where
  readPerTime : Byte
  sector : Byte
  track : Word16
  head : Byte
  readed : Word16
  total : Word16
  logicSector : Word16
  es : Word16
  bx : Word16
  /-- the requests to the BIOS so far -/
  reads : List Request

/-- Where the boot sector ends when it does not go on. -/
inductive Stop where
  | loadSetupFailed
  | loadKernelFailed
  | divideError

/-- `div`: the quotient and the remainder. A quotient that does not fit in `al` is an exception. -/
def div8 (ax : Word16) (d : Byte) : Option (Byte × Byte) :=
  if ax.toNat / d.toNat < 256 ∧ d ≠ 0 then
    some (BitVec.ofNat 8 (ax.toNat / d.toNat), BitVec.ofNat 8 (ax.toNat % d.toNat))
  else none

/-- The registers of `read_track` at `int 0x13`. -/
def trackRequest (m : Machine) : Request :=
  let ch := BitVec.setWidth 8 m.track
  let ah := BitVec.setWidth 8 (m.track >>> 8)
  let ah := ah &&& 0x03
  let ah := ah <<< 6
  let ah := ah + m.sector
  { al := m.readPerTime, ch := ch, cl := ah, dh := m.head, dl := 0, es := m.es, bx := m.bx }

section Bios

variable (bios : Request → Bool)

/-- `read_track`, which jumps to `load_setup_failed` also when it is called by `load_kernel`. -/
def readTrack (m : Machine) : Except Stop Machine :=
  if bios (trackRequest m) then .error .loadSetupFailed
  else .ok { m with reads := m.reads ++ [trackRequest m] }

/-- `update_orthl` -/
def updateOrthl (m : Machine) : Except Stop Machine :=
  let m : Machine := { m with bx := m.bx + (m.readPerTime.setWidth 16 <<< 9) }
  -- the sum is one of bytes, and leaves the upper byte of `readed`
  let ah := BitVec.setWidth 8 (m.readed >>> 8)
  let al := BitVec.setWidth 8 m.readed + m.readPerTime
  let m := { m with readed := ah ++ al }
  let m := { m with logicSector := m.logicSector + m.readPerTime.setWidth 16 }
  match div8 m.logicSector 18 with
  | none => .error .divideError
  | some (_, ah) =>
    if ah ≠ 0 then .ok m
    else
      let m := if m.head ≠ 1 then m else { m with track := m.track + 1 }
      .ok { m with head := m.head ^^^ 1 }

/-- The loop `load_setup32.go`; `none` if it does not end within `fuel` turns. -/
def loadSetup32Go : Nat → Machine → Option (Except Stop Machine)
  | 0, _ => none
  | fuel + 1, m =>
    let ax := m.total - m.readed
    if m.readed < m.total then
      match div8 m.logicSector 18 with
      | none => some (.error .divideError)
      | some (_, ah) =>
        let cl := 18 - ah
        let m := { m with sector := ah + 1 }
        let m := if cl.setWidth 16 ≤ ax then { m with readPerTime := cl }
          else { m with readPerTime := ax.setWidth 8 }
        match readTrack bios m >>= updateOrthl with
        | .error e => some (.error e)
        | .ok m => loadSetup32Go fuel m
    else if m.total < m.readed then some (.error .loadSetupFailed)
    else some (.ok m)

/-- The loop `.in_segment` of `load_kernel`. -/
def inSegment : Nat → Machine → Option (Except Stop Machine)
  | 0, _ => none
  | fuel + 1, m =>
    let ax := m.total - m.readed
    if m.total = m.readed then some (.ok m)
    else if m.total < m.readed then some (.error .loadKernelFailed)
    else
      match div8 m.logicSector 18 with
      | none => some (.error .divideError)
      | some (_, ah) =>
        let cl := 18 - ah
        let m := { m with sector := ah + 1 }
        let m := if ax < cl.setWidth 16 then { m with readPerTime := ax.setWidth 8 }
          else { m with readPerTime := cl }
        match readTrack bios m >>= updateOrthl with
        | .error e => some (.error e)
        | .ok m => inSegment fuel m

end Bios

/-! ## The disk

Eighteen sectors a track, two heads. -/

namespace Request

/-- The track's upper two bits are in `cl`. -/
def cylinder (r : Request) : Nat := r.ch.toNat + 256 * (r.cl.toNat / 64)

/-- The first sector, counted from 1. -/
def firstSector (r : Request) : Nat := r.cl.toNat % 64

/-- The number of the first sector on the disk. -/
def lba (r : Request) : Nat := (r.cylinder * 2 + r.dh.toNat) * 18 + (r.firstSector - 1)

/-- The request is for sectors of one track. -/
structure InTrack (r : Request) : Prop where
  head : r.dh.toNat < 2
  first : 1 ≤ r.firstSector
  count : 1 ≤ r.al.toNat
  last : r.firstSector + r.al.toNat ≤ 19

instance (r : Request) : Decidable r.InTrack :=
  decidable_of_iff (r.dh.toNat < 2 ∧ 1 ≤ r.firstSector ∧ 1 ≤ r.al.toNat ∧
    r.firstSector + r.al.toNat ≤ 19)
    ⟨fun h => ⟨h.1, h.2.1, h.2.2.1, h.2.2.2⟩, fun h => ⟨h.head, h.first, h.count, h.last⟩⟩

/-- The sectors that are read, each with the offset in the segment `es` where it is stored. -/
def transfers (r : Request) : List (Nat × Nat) :=
  (List.range r.al.toNat).map fun j => (r.lba + j, r.bx.toNat + 512 * j)

end Request

/-- The two positions on the disk are both `p`. -/
structure Position (m : Machine) (p : Nat) : Prop where
  logicSector : m.logicSector.toNat = p
  track : m.track.toNat = p / 36
  head : m.head.toNat = p / 18 % 2

/-! ## One turn of the loop -/

theorem div8_eighteen {ax : Word16} (h : ax.toNat < 18 * 256) :
    div8 ax 18 = some (BitVec.ofNat 8 (ax.toNat / 18), BitVec.ofNat 8 (ax.toNat % 18)) := by
  have h18 : (18 : Byte).toNat = 18 := rfl
  rw [div8, h18, if_pos ⟨by omega, by decide⟩]

/-- What `read_track` asks for at position `p`, for `n` sectors. -/
structure ReadsAt (m : Machine) (p n : Nat) : Prop where
  position : Position m p
  lt : p < 18 * 256
  sector : m.sector.toNat = p % 18 + 1
  count : m.readPerTime.toNat = n
  pos : 1 ≤ n
  le : p % 18 + n ≤ 18

/-- The track is below 128, so its upper bits add nothing to the sector. -/
theorem ReadsAt.registers {m : Machine} {p n : Nat} (h : ReadsAt m p n) :
    (trackRequest m).ch.toNat = p / 36 ∧ (trackRequest m).cl.toNat = p % 18 + 1 := by
  have hlt := h.lt
  have htrack := h.position.track
  have h0 : BitVec.setWidth 8 (m.track >>> 8) = 0 := by
    apply BitVec.eq_of_toNat_eq
    rw [BitVec.toNat_setWidth, BitVec.toNat_ushiftRight, htrack, Nat.shiftRight_eq_div_pow,
      Nat.div_eq_of_lt (by omega)]
    rfl
  constructor
  · change (BitVec.setWidth 8 m.track).toNat = p / 36
    rw [BitVec.toNat_setWidth, htrack]
    omega
  · change (((BitVec.setWidth 8 (m.track >>> 8) &&& 0x03) <<< 6 : Byte) + m.sector).toNat = _
    rw [h0, show ((0 : Byte) &&& 0x03) <<< 6 = 0 by decide, zero_add, h.sector]

theorem ReadsAt.inTrack {m : Machine} {p n : Nat} (h : ReadsAt m p n) :
    (trackRequest m).InTrack := by
  have hreg := h.registers.2
  have hhead : (trackRequest m).dh.toNat = p / 18 % 2 := h.position.head
  have hal : (trackRequest m).al.toNat = n := h.count
  have hle := h.le
  have hpos := h.pos
  constructor
  · omega
  · rw [Request.firstSector]
    omega
  · omega
  · rw [Request.firstSector]
    omega

theorem ReadsAt.transfers {m : Machine} {p n : Nat} (h : ReadsAt m p n) :
    (trackRequest m).transfers =
      (List.range n).map fun j => (p + j, m.bx.toNat + 512 * j) := by
  obtain ⟨hch, hcl⟩ := h.registers
  have hhead : (trackRequest m).dh.toNat = p / 18 % 2 := h.position.head
  have hal : (trackRequest m).al.toNat = n := h.count
  have hlt := h.lt
  have hlba : (trackRequest m).lba = p := by
    rw [Request.lba, Request.cylinder, Request.firstSector, hch, hcl, hhead]
    omega
  rw [Request.transfers, hal, hlba]
  rfl

/-- The sum of bytes does not overflow while at most 255 sectors have been read. -/
theorem readed_toNat {readed : Word16} {n : Byte} (h : readed.toNat + n.toNat < 256) :
    (BitVec.setWidth 8 (readed >>> 8) ++ (BitVec.setWidth 8 readed + n) : Word16).toNat =
      readed.toNat + n.toNat := by
  have h0 : BitVec.setWidth 8 (readed >>> 8) = 0 := by
    apply BitVec.eq_of_toNat_eq
    rw [BitVec.toNat_setWidth, BitVec.toNat_ushiftRight, Nat.shiftRight_eq_div_pow,
      Nat.div_eq_of_lt (by omega)]
    rfl
  have hzero (x : Byte) : ((0 : Byte) ++ x).toNat = x.toNat := by
    rw [BitVec.toNat_append]
    simp
  rw [h0]
  change ((0 : Byte) ++ (BitVec.setWidth 8 readed + n)).toNat = _
  rw [hzero, BitVec.toNat_add, BitVec.toNat_setWidth]
  omega

/-- `m'` comes after `m` has read `n` sectors from position `p` on. -/
structure Advanced (m : Machine) (p n : Nat) (m' : Machine) : Prop where
  position : Position m' (p + n)
  readed : m'.readed.toNat = m.readed.toNat + n
  bx : m'.bx.toNat = (m.bx.toNat + 512 * n) % 65536
  total : m'.total = m.total
  es : m'.es = m.es
  reads : m'.reads = m.reads

theorem ReadsAt.update {m : Machine} {p n : Nat} (h : ReadsAt m p n) (hlt : p + n < 18 * 256)
    (hr : m.readed.toNat + n < 256) : ∃ m', updateOrthl m = .ok m' ∧ Advanced m p n m' := by
  obtain ⟨⟨hlogic, htrack, hhead⟩, -, -, hn, hpos, hle⟩ := h
  have hrpt : (m.readPerTime.setWidth 16 : Word16).toNat = n := by
    rw [BitVec.toNat_setWidth, hn]
    omega
  have hlogic' : (m.logicSector + m.readPerTime.setWidth 16).toNat = p + n := by
    rw [BitVec.toNat_add, hlogic, hrpt]
    omega
  have hsum : m.readed.toNat + m.readPerTime.toNat < 256 := by omega
  have hreaded := readed_toNat hsum
  rw [hn] at hreaded
  have hbx : (m.bx + (m.readPerTime.setWidth 16 <<< 9)).toNat =
      (m.bx.toNat + 512 * n) % 65536 := by
    rw [BitVec.toNat_add, BitVec.toNat_shiftLeft, hrpt, Nat.shiftLeft_eq]
    omega
  have hrem : (BitVec.ofNat 8 ((p + n) % 18)).toNat = (p + n) % 18 := by
    rw [BitVec.toNat_ofNat]
    omega
  rw [updateOrthl]
  simp only [div8_eighteen (hlogic'.symm ▸ hlt), hlogic']
  by_cases hend : (p + n) % 18 = 0
  · -- the end of a track
    rw [if_neg (by rw [hend]; decide)]
    by_cases h1 : m.head = 1
    · rw [if_neg (not_not.mpr h1)]
      rw [h1] at hhead
      refine ⟨_, rfl, ⟨hlogic', ?_, ?_⟩, hreaded, hbx, rfl, rfl, rfl⟩
      · change (m.track + 1).toNat = _
        rw [BitVec.toNat_add, htrack]
        change 1 = _ at hhead
        change (p / 36 + 1) % 65536 = _
        omega
      · change (m.head ^^^ 1).toNat = _
        rw [h1]
        change 1 = _ at hhead
        change 0 = _
        omega
    · rw [if_pos h1]
      have h0 : m.head.toNat = 0 := by
        have hne : m.head.toNat ≠ 1 := fun he => h1 (BitVec.eq_of_toNat_eq he)
        omega
      have hz : m.head = 0 := BitVec.eq_of_toNat_eq h0
      refine ⟨_, rfl, ⟨hlogic', ?_, ?_⟩, hreaded, hbx, rfl, rfl, rfl⟩
      · change m.track.toNat = _
        omega
      · change (m.head ^^^ 1).toNat = _
        rw [hz]
        change 1 = _
        omega
  · rw [if_pos fun h0 => hend (by rw [← hrem, h0]; rfl)]
    refine ⟨_, rfl, ⟨hlogic', ?_, ?_⟩, hreaded, hbx, rfl, rfl, rfl⟩
    · change m.track.toNat = _
      omega
    · change m.head.toNat = _
      omega

/-- `read_track` and `update_orthl`. -/
theorem ReadsAt.step {bios : Request → Bool} (hbios : ∀ r : Request, r.InTrack → bios r = false)
    {m : Machine} {p n : Nat} (h : ReadsAt m p n) (hlt : p + n < 18 * 256)
    (hr : m.readed.toNat + n < 256) :
    ∃ m', (readTrack bios m >>= updateOrthl) = .ok m' ∧
      Advanced { m with reads := m.reads ++ [trackRequest m] } p n m' := by
  have hread : readTrack bios m = .ok { m with reads := m.reads ++ [trackRequest m] } := by
    rw [readTrack, hbios _ h.inTrack]
    rfl
  have h' : ReadsAt { m with reads := m.reads ++ [trackRequest m] } p n :=
    ⟨⟨h.position.logicSector, h.position.track, h.position.head⟩, h.lt, h.sector, h.count, h.pos,
      h.le⟩
  obtain ⟨m', hup, hadv⟩ := h'.update hlt hr
  exact ⟨m', by rw [hread]; exact hup, hadv⟩

/-! ## The loops -/

/-- `k` of `t` sectors from position `s` on have been read, to the start of the segment. -/
structure Loaded (s t k : Nat) (m : Machine) : Prop where
  position : Position m (s + k)
  readed : m.readed.toNat = k
  total : m.total.toNat = t
  bx : m.bx.toNat = 512 * k % 65536
  le : k ≤ t

/-- The number of sectors that the next turn reads: those to the end of the track, or all that are
left. -/
def turnSize (s t k : Nat) : Nat := min (18 - (s + k) % 18) (t - k)

/-- The machine before `read_track`, for the remainder `ah` of the division. -/
def nextRead (m : Machine) (ah : Byte) : Machine :=
  { m with
    sector := ah + 1
    readPerTime := if (18 - ah).setWidth 16 ≤ m.total - m.readed then 18 - ah
      else (m.total - m.readed).setWidth 8 }

section Turn

variable {bios : Request → Bool} {s t k : Nat} {m : Machine}

theorem Loaded.readsAt (h : Loaded s t k m) (hk : k < t) (ht : t ≤ 128) (hst : s + t < 18 * 256) :
    ReadsAt (nextRead m (BitVec.ofNat 8 ((s + k) % 18))) (s + k) (turnSize s t k) := by
  obtain ⟨hpos, hreaded, htotal, -, -⟩ := h
  have hah : (BitVec.ofNat 8 ((s + k) % 18)).toNat = (s + k) % 18 := by
    rw [BitVec.toNat_ofNat]
    omega
  have hcl : (18 - BitVec.ofNat 8 ((s + k) % 18)).toNat = 18 - (s + k) % 18 := by
    rw [BitVec.toNat_sub, hah]
    change (256 - (s + k) % 18 + 18) % 256 = _
    omega
  have hcx : ((18 - BitVec.ofNat 8 ((s + k) % 18)).setWidth 16 : Word16).toNat =
      18 - (s + k) % 18 := by
    rw [BitVec.toNat_setWidth, hcl]
    omega
  have hax : (m.total - m.readed).toNat = t - k := by
    rw [BitVec.toNat_sub, hreaded, htotal]
    omega
  have hcount : (nextRead m (BitVec.ofNat 8 ((s + k) % 18))).readPerTime.toNat =
      turnSize s t k := by
    change (if _ then _ else _ : Byte).toNat = _
    rw [turnSize]
    split_ifs with hle
    · rw [BitVec.le_def, hcx, hax] at hle
      rw [hcl]
      omega
    · rw [BitVec.le_def, hcx, hax] at hle
      rw [BitVec.toNat_setWidth, hax]
      omega
  refine ⟨⟨hpos.logicSector, hpos.track, hpos.head⟩, by omega, ?_, hcount, ?_, ?_⟩
  · change (BitVec.ofNat 8 ((s + k) % 18) + 1).toNat = _
    rw [BitVec.toNat_add, hah]
    change ((s + k) % 18 + 1) % 256 = _
    omega
  · rw [turnSize]
    omega
  · rw [turnSize]
    omega

/-- A turn reads the next sectors. -/
theorem Loaded.turn (hbios : ∀ r : Request, r.InTrack → bios r = false) (h : Loaded s t k m)
    (hk : k < t) (ht : t ≤ 128) (hst : s + t < 18 * 256) :
    ∃ (m' : Machine) (r : Request),
      (readTrack bios (nextRead m (BitVec.ofNat 8 ((s + k) % 18))) >>= updateOrthl) = .ok m' ∧
      Loaded s t (k + turnSize s t k) m' ∧ m'.es = m.es ∧ m'.reads = m.reads ++ [r] ∧
      r.InTrack ∧ r.es = m.es ∧
      r.transfers = (List.range (turnSize s t k)).map fun j => (s + k + j, 512 * (k + j)) := by
  have hr := h.readsAt hk ht hst
  have hsize : turnSize s t k ≤ t - k := min_le_right _ _
  generalize hm₀ : nextRead m (BitVec.ofNat 8 ((s + k) % 18)) = m₀ at hr ⊢
  have hbx₀ : m₀.bx = m.bx := by rw [← hm₀]; rfl
  have hes₀ : m₀.es = m.es := by rw [← hm₀]; rfl
  have hreads₀ : m₀.reads = m.reads := by rw [← hm₀]; rfl
  have hreaded₀ : m₀.readed = m.readed := by rw [← hm₀]; rfl
  have htotal₀ : m₀.total = m.total := by rw [← hm₀]; rfl
  have hreaded := h.readed
  have hbx := h.bx
  obtain ⟨m', hup, hadv⟩ := hr.step hbios (by omega) (by rw [hreaded₀]; omega)
  refine ⟨m', trackRequest m₀, hup, ⟨?_, ?_, ?_, ?_, by omega⟩, hadv.es.trans hes₀,
    hadv.reads.trans (by rw [hreads₀]), hr.inTrack, hes₀, ?_⟩
  · rw [← Nat.add_assoc]
    exact hadv.position
  · rw [hadv.readed]
    change m₀.readed.toNat + _ = _
    rw [hreaded₀, hreaded]
  · rw [hadv.total]
    change m₀.total.toNat = t
    rw [htotal₀, h.total]
  · rw [hadv.bx]
    change (m₀.bx.toNat + _) % 65536 = _
    rw [hbx₀, hbx]
    omega
  · rw [hr.transfers, hbx₀, hbx]
    refine List.map_congr_left fun j hj => ?_
    rw [List.mem_range] at hj
    rw [Nat.mod_eq_of_lt (by omega), Nat.mul_add]

end Turn

/-- What the two loops have in common. They differ in the order of the comparisons and in where they
end when more sectors have been read than there are. -/
structure LoadLoop (bios : Request → Bool) (loop : Nat → Machine → Option (Except Stop Machine)) :
    Prop where
  turn : ∀ fuel m m', m.readed < m.total → m.logicSector.toNat < 18 * 256 →
    (readTrack bios (nextRead m (BitVec.ofNat 8 (m.logicSector.toNat % 18))) >>= updateOrthl) =
      .ok m' → loop (fuel + 1) m = loop fuel m'
  done : ∀ fuel m, m.readed = m.total → loop (fuel + 1) m = some (.ok m)

theorem loadSetup32Go_loop (bios : Request → Bool) : LoadLoop bios (loadSetup32Go bios) where
  turn fuel m m' hlt hsec hturn := by
    have hm (c : Byte) : (if (18 - c).setWidth 16 ≤ m.total - m.readed
          then { m with sector := c + 1, readPerTime := 18 - c }
          else { m with sector := c + 1, readPerTime := (m.total - m.readed).setWidth 8 }) =
        nextRead m c := by
      rw [nextRead]
      split_ifs <;> rfl
    rw [loadSetup32Go]
    simp only [if_pos hlt, div8_eighteen hsec, hm, hturn]
  done fuel m h := by
    have hlt : ¬ m.readed < m.total := by
      rw [h]
      exact BitVec.lt_irrefl _
    have hgt : ¬ m.total < m.readed := by
      rw [h]
      exact BitVec.lt_irrefl _
    rw [loadSetup32Go, if_neg hlt, if_neg hgt]

theorem inSegment_loop (bios : Request → Bool) : LoadLoop bios (inSegment bios) where
  turn fuel m m' hlt hsec hturn := by
    have hm (c : Byte) : (if m.total - m.readed < (18 - c).setWidth 16
          then { m with sector := c + 1, readPerTime := (m.total - m.readed).setWidth 8 }
          else { m with sector := c + 1, readPerTime := 18 - c }) = nextRead m c := by
      rw [nextRead]
      -- the comparison the other way
      simp only [← BitVec.not_le]
      split_ifs <;> rfl
    have hne : m.total ≠ m.readed := fun h => BitVec.lt_irrefl _ (h ▸ hlt)
    have hgt : ¬ m.total < m.readed := BitVec.lt_asymm hlt
    rw [inSegment]
    simp only [if_neg hne, if_neg hgt, div8_eighteen hsec, hm, hturn]
  done fuel m h := by rw [inSegment, if_pos h.symm]

section Run

variable {bios : Request → Bool} {loop : Nat → Machine → Option (Except Stop Machine)}
  {s t k : Nat} {m : Machine}

theorem range_append {α : Type} (f : Nat → α) (a b : Nat) :
    (List.range a).map f ++ (List.range b).map (fun j => f (a + j)) =
      (List.range (a + b)).map f := by
  rw [List.range_add, List.map_append, List.map_map]
  rfl

/-- The loop reads all that is left, by induction on the bound: every turn reads a sector at
least. -/
theorem LoadLoop.run (hL : LoadLoop bios loop) (hbios : ∀ r : Request, r.InTrack → bios r = false)
    (h : Loaded s t k m) (ht : t ≤ 128) (hst : s + t < 18 * 256) {fuel : Nat}
    (hf : t - k < fuel) :
    ∃ (m' : Machine) (rs : List Request), loop fuel m = some (.ok m') ∧ Loaded s t t m' ∧
      m'.es = m.es ∧ m'.reads = m.reads ++ rs ∧ (∀ r ∈ rs, r.InTrack ∧ r.es = m.es) ∧
      rs.flatMap Request.transfers =
        (List.range (t - k)).map fun j => (s + (k + j), 512 * (k + j)) := by
  induction fuel generalizing k m with
  | zero => omega
  | succ fuel ih =>
    have hle := h.le
    rcases Nat.eq_or_lt_of_le hle with rfl | hlt
    · have heq : m.readed = m.total := BitVec.eq_of_toNat_eq (h.readed.trans h.total.symm)
      exact ⟨m, [], hL.done fuel m heq, h, rfl, (List.append_nil _).symm, by simp, by simp⟩
    · obtain ⟨m₁, r, hturn, h₁, hes, hreads, hin, hres, htr⟩ := h.turn hbios hlt ht hst
      have hsec := h.position.logicSector
      have hsize : 1 ≤ turnSize s t k ∧ turnSize s t k ≤ t - k := by
        rw [turnSize]
        omega
      have hstep := hL.turn fuel m m₁ (by rw [BitVec.lt_def, h.readed, h.total]; exact hlt)
        (by omega) (by rw [hsec]; exact hturn)
      obtain ⟨m', rs, hrun, hm', hes', hreads', hins, htrs⟩ := ih h₁ (by omega)
      refine ⟨m', r :: rs, hstep.trans hrun, hm', hes'.trans hes, ?_, ?_, ?_⟩
      · rw [hreads', hreads, List.append_assoc]
        rfl
      · intro q hq
        rcases List.mem_cons.mp hq with rfl | hq
        · exact ⟨hin, hres⟩
        · exact ⟨(hins q hq).1, (hins q hq).2.trans hes⟩
      · have happ := range_append (fun j => (s + (k + j), 512 * (k + j))) (turnSize s t k)
          (t - (k + turnSize s t k))
        rw [show turnSize s t k + (t - (k + turnSize s t k)) = t - k by omega] at happ
        rw [List.flatMap_cons, htr, htrs, ← happ]
        simp only [Nat.add_assoc]

end Run

/-- Both loops, from position `s` with nothing read yet, read the sectors `s`, …, `s + t - 1` in
this order to the start of the segment, no request for more than the rest of a track, and end at
position `s + t`. -/
theorem load_consecutive (bios : Request → Bool)
    (hbios : ∀ r : Request, r.InTrack → bios r = false) (m : Machine) (s t : Nat) (ht : t ≤ 128)
    (hst : s + t < 18 * 256) (hpos : Position m s) (htotal : m.total.toNat = t)
    (hreaded : m.readed = 0) (hbx : m.bx = 0) (loop : Nat → Machine → Option (Except Stop Machine))
    (hloop : loop = loadSetup32Go bios ∨ loop = inSegment bios) (fuel : Nat) (hf : t < fuel) :
    ∃ (m' : Machine) (rs : List Request), loop fuel m = some (.ok m') ∧ Position m' (s + t) ∧
      m'.reads = m.reads ++ rs ∧ (∀ r ∈ rs, r.InTrack ∧ r.es = m.es) ∧
      rs.flatMap Request.transfers = (List.range t).map fun k => (s + k, 512 * k) := by
  have hL : LoadLoop bios loop := by
    rcases hloop with rfl | rfl
    · exact loadSetup32Go_loop bios
    · exact inSegment_loop bios
  have h0 : Loaded s t 0 m := by
    refine ⟨hpos, ?_, htotal, ?_, Nat.zero_le t⟩
    · rw [hreaded]
      rfl
    · rw [hbx]
      rfl
  obtain ⟨m', rs, hrun, hm', -, hreads, hins, htrs⟩ := hL.run hbios h0 ht hst (by omega)
  refine ⟨m', rs, hrun, hm'.position, hreads, hins, ?_⟩
  rw [htrs]
  simp only [Nat.zero_add, Nat.sub_zero]

/-- The machine when `load_setup32` enters its loop: ten sectors have been read from sector 1 on. -/
def setup32Start : Machine where
  readPerTime := 10
  sector := 2
  track := 0
  head := 0
  readed := 0
  total := 88
  logicSector := 11
  es := 0x0500
  bx := 0
  reads := []

theorem load_consecutive_setup32 :
    ∃ (m' : Machine) (rs : List Request),
      loadSetup32Go (fun r => !decide r.InTrack) 89 setup32Start = some (.ok m') ∧
        Position m' (11 + 88) ∧ m'.reads = [] ++ rs ∧ (∀ r ∈ rs, r.InTrack ∧ r.es = 0x0500) ∧
        rs.flatMap Request.transfers = (List.range 88).map fun k => (11 + k, 512 * k) :=
  load_consecutive (fun r => !decide r.InTrack) (by simp) setup32Start 11 88 (by decide)
    (by decide) ⟨rfl, rfl, rfl⟩ rfl rfl rfl _ (.inl rfl) 89 (by decide)

end Mks.Disk
