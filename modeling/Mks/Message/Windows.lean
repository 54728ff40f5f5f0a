import Mks.Memory.Boot
import Mks.Memory.Footprint
import Mks.Message.System

set_option autoImplicit false

/-! # Big messages and the windows of the processes

The message page of a call lies in the caller's own window exactly when `get_msg_entry` of the
pointer is below 64MB, which the kernel does not check. As long as it is, and no counter of a frame
overflows, big messages change page tables only for the two processes that are paired.
-/

namespace Mks

/-- The function that puts a request into a queue for big messages. -/
def MsgQueue.bigCode : MsgQueue → Int
  | .bigSend => 3
  | .bigReceive => 4
  | .smallSend | .smallReceive => 0

namespace Kernel

open Mem

variable {L : Layout} {M : MainMemory} {k k' : Kernel}

/-! ## Addresses -/

/-- The process whose window a page lies in. -/
def windowOf (n : Nat) : Int := (n / 16384 : Nat)

theorem windowOf_mapNr (a : Word) : windowOf (mapNr a) = window a := by
  rw [windowOf, mapNr_eq, window, BitVec.toNat_ushiftRight, Nat.shiftRight_eq_div_pow,
    Nat.div_div_eq_div_mul]

/-- A process's window lies above that of the kernel. -/
theorem ge_of_window {a : Word} {p : Int} (ha : window a = p) (hp : 1 ≤ p) : a ≥ WINDOW := by
  refine ge_window ?_
  rw [← windowOf_mapNr, windowOf] at ha
  omega

/-- The page that `do_intr_msg` computes lies in the caller's window exactly when the entry lies
within the segment. -/
theorem window_msgEntry {p msg : Int} (hp : 1 ≤ p) (hp' : p < NR_PROCS) :
    window (msgEntry p msg) = p ↔ getMsgEntry (BitVec.ofInt 32 msg) < WINDOW := by
  have hlt := (getMsgEntry (BitVec.ofInt 32 msg)).isLt
  obtain ⟨n, rfl⟩ := Int.eq_ofNat_of_zero_le (show 0 ≤ p by omega)
  have hn : n < 64 := by
    have : (n : Int) < 64 := hp'
    omega
  have hbase : (BitVec.ofInt 32 ((n : Int) * 0x4000000)).toNat = n * 67108864 := by
    rw [show (n : Int) * 0x4000000 = ((n * 67108864 : Nat) : Int) by omega, BitVec.ofInt_natCast,
      BitVec.toNat_ofNat, Nat.mod_eq_of_lt (by omega)]
  rw [window, msgEntry, BitVec.toNat_ushiftRight, BitVec.toNat_add, hbase,
    Nat.shiftRight_eq_div_pow, BitVec.lt_def]
  show (((_ + n * 67108864) % 4294967296 / 67108864 : Nat) : Int) = n ↔ _ < 67108864
  omega

/-! ## One call -/

/-- The calls for big messages. -/
def IsBig : Op → Prop
  | .msg f _ _ => f = 3 ∨ f = 4
  | _ => False

/-- The message page of a call lies within the segment. -/
def Inside : Op → Prop
  | .msg f _ ecx => f = 3 ∨ f = 4 → getMsgEntry (BitVec.ofInt 32 ecx) < WINDOW
  | _ => True

theorem step_caller {f ebx ecx r : Int} (hs : Step L k (.msg f ebx ecx, r) k') :
    k.sched.procCurrent ≠ PROC_IDLE_NR := by
  obtain ⟨n, hs⟩ := hs
  rw [exec] at hs
  split at hs
  · cases hs
  · assumption

/-- An accepted call of function `f` by process `p`, with its message page at `a`: the page is
recorded, or shared with that of a waiting request, which leaves its queue. -/
inductive Passed (f p : Int) (a : Word) (k k' : Kernel) : Prop
  | recorded (q : MsgQueue) (x : Request) (hq : q.isBig = true) (hf : q.bigCode = f)
      (howner : x.owner = p) (haddr : x.addr = a)
      (hreq : k'.requests = Function.update k.requests q (k.requests q ++ [x]))
      (hmem : k'.mem = k.mem)
  | shared (q : MsgQueue) (x : Request) (l₁ l₂ : List Request) (hq : q.isBig = true)
      (hl : k.requests q = l₁ ++ x :: l₂)
      (hreq : k'.requests = Function.update k.requests q (l₁ ++ l₂))
      (hshare : ∃ n, k.mem.sharePage n a x.addr = some k'.mem ∨
        k.mem.sharePage n x.addr a = some k'.mem)

theorem step_passed {f ebx ecx r : Int} (h : Ok L k) (hf : f = 3 ∨ f = 4)
    (hs : Step L k (.msg f ebx ecx, r) k') :
    (r = 1 ∧ Passed f k.sched.procCurrent (msgEntry k.sched.procCurrent ecx) k k') ∨
      (r = -1 ∧ k'.mem = k.mem ∧ k'.requests = k.requests) := by
  have hsaved := h.saved_requests ebx ecx
  have haddr : ∀ p : Int, BitVec.ofInt 32 (msgEntry p ecx).toInt = msgEntry p ecx := fun p =>
    BitVec.ofInt_toInt
  cases (step_cases h hs).2 with
  | rejected h0 hr => exact .inr ⟨rfl, rfl, hsaved⟩
  | sent z h0 hne hsent =>
      cases z with
      | small => exact absurd hf (by decide)
      | big =>
          cases hsent with
          | invalid _ | crossed | full => exact .inr ⟨rfl, rfl, hsaved⟩
          | delivered l₁ l₂ b hl hb hl₁ hreq hcells hmem hstate =>
              rw [hsaved] at hl hreq
              obtain ⟨n, hn⟩ := hmem
              refine .inl ⟨rfl, .shared .bigReceive b l₁ l₂ rfl hl hreq ⟨n, .inl ?_⟩⟩
              rw [← haddr]
              exact hn
          | queued hno hcross hreq hcells hmem hstate =>
              rw [hsaved] at hreq
              refine .inl ⟨rfl, .recorded .bigSend _ rfl rfl ?_ ?_ hreq hmem⟩
              · rfl
              · exact haddr _
  | received z h0 hne hrec =>
      cases z with
      | small => exact absurd hf (by decide)
      | big =>
          cases hrec with
          | invalid _ | crossed => exact .inr ⟨rfl, rfl, hsaved⟩
          | taken l₁ l₂ a hl ha hl₁ hreq hcells hmem hstate =>
              rw [hsaved] at hl hreq
              obtain ⟨n, hn⟩ := hmem
              refine .inl ⟨rfl, .shared .bigSend a l₁ l₂ rfl hl hreq ⟨n, .inr ?_⟩⟩
              rw [← haddr]
              exact hn
          | queued hno hcross hreq hcells hmem hstate =>
              rw [hsaved] at hreq
              refine .inl ⟨rfl, .recorded .bigReceive _ rfl rfl ?_ ?_ hreq hmem⟩
              · rfl
              · exact haddr _

/-- What happens to the memory between two calls for big messages: nothing, an access of process
`p`, or a store of the kernel. -/
inductive Accessed (p : Int) (m : Mem) : Mem → Prop
  | same : Accessed p m m
  | read {n : Nat} {a v : Word} {m' : Mem} (h0 : p ≠ PROC_IDLE_NR) (ha : InSegment p a)
      (h : m.userRead n a = some (v, m')) : Accessed p m m'
  | write {n : Nat} {a v : Word} {m' : Mem} (h0 : p ≠ PROC_IDLE_NR) (ha : InSegment p a)
      (h : m.userWrite n a v = some m') : Accessed p m m'
  | kernelStore {a v : Word} (ha : IsKernelFrame (mapNr a)) : Accessed p m (m.store a v)

/-- The other operations leave the requests for big messages alone. -/
theorem step_other {e : Op × Int} (h : Ok L k) (hno : ¬ IsBig e.1) (hs : Step L k e k') :
    (∀ q, q.isBig = true → k'.requests q = k.requests q) ∧
      Accessed k.sched.procCurrent k.mem k'.mem := by
  have hsame : ∀ {k' : Kernel}, k'.mem = k.mem → Accessed k.sched.procCurrent k.mem k'.mem :=
    fun hmem => hmem ▸ .same
  have hq : ∀ {q : MsgQueue} {l : List Request} {f : MsgQueue → List Request}, q.isBig = false →
      k'.requests = Function.update f q l → ∀ q', q'.isBig = true → k'.requests q' = f q' := by
    intro q l f hsmall hreq q' hbig
    have hne : q' ≠ q := by
      rintro rfl
      rw [hsmall] at hbig
      cases hbig
    rw [hreq, Function.update_of_ne hne]
  cases (step_cases h hs).2 with
  | @rejected f ebx ecx h0 hr => exact ⟨fun q _ => congrFun (h.saved_requests ebx ecx) q, .same⟩
  | @sent z ebx ecx r k' h0 hne hsent =>
      have hsaved := h.saved_requests ebx ecx
      cases z with
      | big => exact absurd (.inl rfl) hno
      | small =>
          cases hsent with
          | invalid _ | crossed | full => exact ⟨fun q _ => congrFun hsaved q, .same⟩
          | delivered l₁ l₂ b hl hb hl₁ hreq hcells hmem hstate =>
              exact ⟨hq rfl (hsaved ▸ hreq), hsame hmem⟩
          | queued hno hcross hreq hcells hmem hstate =>
              exact ⟨hq rfl (hsaved ▸ hreq), hsame hmem⟩
  | @received z ebx ecx r k' h0 hne hrec =>
      have hsaved := h.saved_requests ebx ecx
      cases z with
      | big => exact absurd (.inr rfl) hno
      | small =>
          cases hrec with
          | invalid _ | crossed => exact ⟨fun q _ => congrFun hsaved q, .same⟩
          | taken l₁ l₂ a hl ha hl₁ hreq hcells hmem hstate =>
              exact ⟨hq rfl (hsaved ▸ hreq), hsame hmem⟩
          | queued hno hcross hreq hcells hmem hstate =>
              exact ⟨hq rfl (hsaved ▸ hreq), hsame hmem⟩
  | hardware hsent =>
      cases hsent with
      | invalid _ | crossed | full => exact ⟨fun q _ => rfl, .same⟩
      | delivered l₁ l₂ b hl hb hl₁ hreq hcells hmem hstate => exact ⟨hq rfl hreq, hsame hmem⟩
      | queued hno hcross hreq hcells hmem hstate => exact ⟨hq rfl hreq, hsame hmem⟩
  | clock hst => exact ⟨fun q _ => rfl, .same⟩
  | read h0 ha hread hr => exact ⟨fun q _ => rfl, .read h0 ha hread⟩
  | write h0 ha hwrite => exact ⟨fun q _ => rfl, .write h0 ha hwrite⟩
  | kernelStore ha => exact ⟨fun q _ => rfl, .kernelStore ha⟩

/-! ## The invariant -/

/-- The request of a process, for a page in its window. -/
structure InWindow (x : Request) : Prop where
  owner_ge : 1 ≤ x.owner
  owner_lt : x.owner < NR_PROCS
  window : window x.addr = x.owner

theorem InWindow.ge {x : Request} (h : InWindow x) : x.addr ≥ WINDOW :=
  ge_of_window h.window h.owner_ge

/-- Waiting requests are for pages of their owners, and the page tables are in order unless a
counter has overflowed. -/
structure Guarded (L : Layout) (M : MainMemory) (k : Kernel) : Prop where
  ok : Ok L k
  paged : k.mem.InUse → Paged M k.mem
  recorded : ∀ q, q.isBig = true → ∀ x ∈ k.requests q, InWindow x

/-- What a call of process `p` does to the page tables: nothing, or it changes entries of pages in
the windows of `p` and of the process whose request it serves. -/
inductive Confined (p : Int) (k k' : Kernel) : Prop
  | same (hmem : k'.mem = k.mem)
  | served (q : MsgQueue) (x : Request) (l₁ l₂ : List Request) (hq : q.isBig = true)
      (hl : k.requests q = l₁ ++ x :: l₂) (hl' : k'.requests q = l₁ ++ l₂) (hx : InWindow x)
      (hpte : ∀ n < 1048576, k'.mem.pte n ≠ k.mem.pte n → windowOf n = p ∨ windowOf n = x.owner)

/-- A process reaches the pages of its window and the page after them. For process 63 that is page
0 of the kernel window. -/
def Reach (p : Int) (n : Nat) : Prop := windowOf n = p ∨ (n : Int) = (p + 1) * 16384 % 1048576

theorem InSegment.reach {p : Int} {a : Word} (h : InSegment p a) (hge : 1 ≤ p) (hlt : p < NR_PROCS) :
    Reach p (mapNr a) ∧ (a ≥ WINDOW ∨ mapNr a = 0) := by
  obtain ⟨n, rfl⟩ := Int.eq_ofNat_of_zero_le (show 0 ≤ p by omega)
  have hn : n < 64 := by
    have : (n : Int) < 64 := hlt
    omega
  have hbase : (BitVec.ofInt 32 ((n : Int) * 0x4000000)).toNat = n * 67108864 := by
    rw [show (n : Int) * 0x4000000 = ((n * 67108864 : Nat) : Int) by omega, BitVec.ofInt_natCast,
      BitVec.toNat_ofNat, Nat.mod_eq_of_lt (by omega)]
  have ha := a.isLt
  rw [InSegment, BitVec.toNat_sub, hbase] at h
  have hnr := mapNr_eq a
  refine ⟨?_, ?_⟩
  · unfold Reach windowOf
    omega
  · by_cases hlow : mapNr a = 0
    · exact .inr hlow
    · refine .inl (ge_window ?_)
      omega

theorem Ok.caller_bound (h : Ok L k) (h0 : k.sched.procCurrent ≠ PROC_IDLE_NR) :
    1 ≤ k.sched.procCurrent ∧ k.sched.procCurrent < NR_PROCS := by
  obtain ⟨hge, hlt⟩ := h.current_bound
  have : k.sched.procCurrent ≠ 0 := h0
  exact ⟨by omega, hlt⟩

/-- Sharing a page of process `p` with a page of another process. -/
theorem share_confined {a b : Word} {n : Nat} {m m' : Mem} (h : Paged M m) (ha : a ≥ WINDOW)
    (hb : b ≥ WINDOW) (hr : m.sharePage n a b = some m') :
    (m'.InUse → Paged M m') ∧
      ∀ n < 1048576, m'.pte n ≠ m.pte n → windowOf n = window a ∨ windowOf n = window b := by
  refine ⟨fun hu => h.sharePage_paged ha hb hr hu, fun c hc hne => ?_⟩
  have hpages : c = mapNr a ∨ c = mapNr b := by
    by_contra hno
    exact hne ((h.sharePage_leaves ha hb hr).1.pte c hc hno)
  rw [← windowOf_mapNr, ← windowOf_mapNr]
  exact hpages.imp (congrArg windowOf) (congrArg windowOf)

theorem Passed.guarded {f p : Int} {a : Word} (hp : Passed f p a k k') (h : Guarded L M k)
    (hok : Ok L k') (hge : 1 ≤ p) (hlt : p < NR_PROCS) (ha : window a = p) (hu : k.mem.InUse) :
    Guarded L M k' ∧ Confined p k k' := by
  cases hp with
  | recorded q x hq _ howner haddr hreq hmem =>
      refine ⟨⟨hok, fun _ => hmem ▸ h.paged hu, fun q' hq' y hy => ?_⟩, .same hmem⟩
      by_cases hqq : q' = q
      · subst hqq
        rw [hreq, Function.update_self] at hy
        rcases List.mem_append.mp hy with hy | hy
        · exact h.recorded q' hq' y hy
        · rw [List.mem_singleton.mp hy]
          exact ⟨howner ▸ hge, howner ▸ hlt, by rw [haddr, ha, howner]⟩
      · rw [hreq, Function.update_of_ne hqq] at hy
        exact h.recorded q' hq' y hy
  | shared q x l₁ l₂ hq hl hreq hshare =>
      have hx : InWindow x := h.recorded q hq x (by rw [hl]; simp)
      have hself : k'.requests q = l₁ ++ l₂ := by rw [hreq, Function.update_self]
      have hpaged := h.paged hu
      have hage := ge_of_window ha hge
      obtain ⟨n, hn⟩ := hshare
      -- the page of the caller is the one that is given or the one that gets the frame
      have hboth : (k'.mem.InUse → Paged M k'.mem) ∧ ∀ n < 1048576,
          k'.mem.pte n ≠ k.mem.pte n → windowOf n = p ∨ windowOf n = x.owner := by
        rcases hn with hn | hn
        · obtain ⟨hP, hpte⟩ := share_confined hpaged hage hx.ge hn
          rw [ha, hx.window] at hpte
          exact ⟨hP, hpte⟩
        · obtain ⟨hP, hpte⟩ := share_confined hpaged hx.ge hage hn
          rw [ha, hx.window] at hpte
          exact ⟨hP, fun n hn hne => (hpte n hn hne).symm⟩
      refine ⟨⟨hok, hboth.1, fun q' hq' y hy => ?_⟩, .served q x l₁ l₂ hq hl hself hx hboth.2⟩
      by_cases hqq : q' = q
      · subst hqq
        refine h.recorded q' hq' y ?_
        rw [hself] at hy
        rw [hl]
        simp only [List.mem_append, List.mem_cons] at hy ⊢
        tauto
      · rw [hreq, Function.update_of_ne hqq] at hy
        exact h.recorded q' hq' y hy

/-- Accesses and stores of the kernel keep the page tables in order. -/
theorem Accessed.paged {p : Int} {m m' : Mem} (hacc : Accessed p m m') (h : Paged M m)
    (hge : 0 ≤ p) (hlt : p < NR_PROCS) : Paged M m' := by
  have hpos : p ≠ PROC_IDLE_NR → 1 ≤ p := fun (h0 : p ≠ 0) => by omega
  cases hacc with
  | same => exact h
  | read h0 ha hread =>
      rcases (ha.reach (hpos h0) hlt).2 with hge | hzero
      · exact ((h.userRead_spec hge hread).1.quiet h (mem_pages_of_ge hge)).paged
      · rwa [h.userRead_kernel (by omega) hread]
  | write h0 ha hwrite =>
      rcases (ha.reach (hpos h0) hlt).2 with hge | hzero
      · exact (h.userWrite_written hge hwrite).paged
      · rw [h.userWrite_kernel (by omega) hwrite, hzero]
        exact h.kernelStore (by decide) _ _
  | kernelStore ha => exact h.kernelStore ha _ _

/-- **One operation.** -/
theorem Guarded.step {e : Op × Int} (h : Guarded L M k) (hs : Step L k e k') (hin : Inside e.1)
    (hu : k.mem.InUse) :
    Guarded L M k' ∧ (IsBig e.1 → Confined k.sched.procCurrent k k') := by
  have hok := (step_cases h.ok hs).1
  have hpaged := h.paged hu
  by_cases hbig : IsBig e.1
  · obtain ⟨op, r⟩ := e
    cases op with
    | msg f ebx ecx =>
        rcases step_passed h.ok hbig hs with ⟨-, hp⟩ | ⟨-, hmem, hreq⟩
        · obtain ⟨hge, hlt⟩ := h.ok.caller_bound (step_caller hs)
          have ha := (window_msgEntry hge hlt).mpr (hin hbig)
          obtain ⟨hg, hc⟩ := hp.guarded h hok hge hlt ha hu
          exact ⟨hg, fun _ => hc⟩
        · exact ⟨⟨hok, fun _ => hmem ▸ hpaged, hreq ▸ h.recorded⟩, fun _ => .same hmem⟩
    | hardware | clock | read | write | kernelStore => exact hbig.elim
  · obtain ⟨hreq, hmem⟩ := step_other h.ok hbig hs
    have hrec : ∀ q, q.isBig = true → ∀ x ∈ k'.requests q, InWindow x := fun q hq x hx =>
      h.recorded q hq x (hreq q hq ▸ hx)
    obtain ⟨hge, hlt⟩ := h.ok.current_bound
    exact ⟨⟨hok, fun _ => hmem.paged hpaged hge hlt, hrec⟩, fun hb => absurd hb hbig⟩

/-! ## Runs -/

section
variable {n : Nat} {image : Mem} {memSize : Word} {k₀ : Kernel}
  {tr : List (Kernel × (Op × Int) × Kernel)}

/-- The page tables and the waiting requests, in runs whose message pages lie within the
segments. -/
theorem run_guarded (hb : Bare image) (hm : boot n image memSize = some k₀.mem) (h₀ : Start k₀)
    (hr : Run (Step L) k₀ tr k) (hc : ∀ t ∈ tr, Inside t.2.1.1 ∧ t.1.mem.InUse) :
    Guarded L (mainFrames memSize) k := by
  have hstart : Guarded L (mainFrames memSize) k₀ := by
    refine ⟨h₀.ok, fun _ => (boot_booted hb hm).paged, fun q _ x hx => ?_⟩
    rw [h₀.requests] at hx
    cases hx
  exact hr.invariant_of (C := fun k e _ => Inside e.1 ∧ k.mem.InUse) hc hstart
    fun h hs hc => (h.step hs hc.1 hc.2).1

/-- Request `x` comes from a call of function `f` by its owner, with the pointer `buf`. -/
def Posted (tr : List (Kernel × (Op × Int) × Kernel)) (f : Int) (x : Request) (buf : Int) : Prop :=
  x.addr = msgEntry x.owner buf ∧
    ∃ t ∈ tr, t.1.sched.procCurrent = x.owner ∧ ∃ ebx, t.2.1 = (.msg f ebx buf, 1)

/-- Every waiting request comes from a call. -/
theorem run_posted (h₀ : Start k₀) (hr : Run (Step L) k₀ tr k) {q : MsgQueue}
    (hq : q.isBig = true) : ∀ x ∈ k.requests q, ∃ buf, Posted tr q.bigCode x buf := by
  induction hr with
  | nil =>
      rw [h₀.requests]
      simp
  | @snoc tr k₁ k₂ e hr hs ih =>
      have hok := run_ok h₀ hr
      have hold : ∀ x ∈ k₁.requests q, ∃ buf, Posted (tr ++ [(k₁, e, k₂)]) q.bigCode x buf := by
        intro x hx
        obtain ⟨buf, haddr, t, ht, hcall⟩ := ih x hx
        exact ⟨buf, haddr, t, List.mem_append_left _ ht, hcall⟩
      by_cases hbig : IsBig e.1
      · obtain ⟨op, r⟩ := e
        cases op with
        | msg f ebx ecx =>
            rcases step_passed hok hbig hs with ⟨rfl, hp⟩ | ⟨-, -, hreq⟩
            · cases hp with
              | recorded q' y _ hf howner haddr hreq _ =>
                  by_cases hqq : q = q'
                  · subst hqq
                    rw [hreq, Function.update_self]
                    intro x hx
                    rcases List.mem_append.mp hx with hx | hx
                    · exact hold x hx
                    · obtain rfl := List.mem_singleton.mp hx
                      refine ⟨ecx, howner ▸ haddr, _,
                        List.mem_append_right _ (List.mem_singleton.mpr rfl), howner.symm, ebx, ?_⟩
                      rw [hf]
                  · rw [hreq, Function.update_of_ne hqq]
                    exact hold
              | shared q' y l₁ l₂ _ hl hreq _ =>
                  by_cases hqq : q = q'
                  · subst hqq
                    rw [hreq, Function.update_self]
                    intro x hx
                    refine hold x ?_
                    rw [hl]
                    simp only [List.mem_append, List.mem_cons] at hx ⊢
                    tauto
                  · rw [hreq, Function.update_of_ne hqq]
                    exact hold
            · rw [hreq]
              exact hold
        | hardware | clock | read | write | kernelStore => exact hbig.elim
      · rw [(step_other hok hbig hs).1 q hq]
        exact hold

end

/-- Process 2 calls for a big message from process 1 and waits. -/
theorem receive_run (mem : Mem) (msg : Int) : ∃ tr k x,
    Run (Step (stackLayout 0x18000)) (start mem) tr k ∧
    tr.map (fun t => t.2.1) = [(.clock 3, 0), (.msg 4 1 msg, 1)] ∧
    (∀ t ∈ tr, t.1.mem = mem ∧ (Inside (.msg 4 1 msg) → Inside t.2.1.1)) ∧
    k.mem = mem ∧ k.sched.procCurrent = 1 ∧
    k.requests .bigReceive = [x] ∧ x.owner = 2 ∧ x.peer = 1 ∧ x.addr = msgEntry 2 msg := by
  have hex : (execs 0 (stackLayout 0x18000) [.clock 3, .msg 4 1 msg] (start mem)).map (fun r =>
      (r.1.map fun t => (t.2.1, t.1.mem), r.2.mem, r.2.sched.procCurrent,
        (r.2.requests .bigReceive).map fun x => (x.owner, x.peer)))
      = some ([((.clock 3, 0), mem), ((.msg 4 1 msg, 1), mem)], mem, 1, [(2, 1)]) := rfl
  obtain ⟨⟨tr, k⟩, hk, he⟩ := Option.map_eq_some_iff.mp hex
  simp only [Prod.mk.injEq] at he
  obtain ⟨hpairs, hmem, hcur, hreq⟩ := he
  have hlabels : tr.map (fun t => t.2.1) = [(.clock 3, 0), (.msg 4 1 msg, 1)] := by
    have := congrArg (List.map Prod.fst) hpairs
    rwa [List.map_map] at this
  have hr := execs_run hk
  obtain ⟨x, hx, hpair⟩ := List.map_eq_singleton_iff.mp hreq
  obtain ⟨howner, hpeer⟩ := Prod.mk.injEq .. ▸ hpair
  refine ⟨tr, k, x, hr, hlabels, fun t ht => ?_, hmem, hcur, hx, howner, hpeer, ?_⟩
  · have ht := List.mem_map_of_mem (f := fun t => (t.2.1, t.1.mem)) ht
    rw [hpairs] at ht
    simp only [List.mem_cons, List.not_mem_nil, or_false, Prod.mk.injEq] at ht
    rcases ht with ⟨hop, hmem⟩ | ⟨hop, hmem⟩
    · rw [hop]
      exact ⟨hmem, fun _ => trivial⟩
    · rw [hop]
      exact ⟨hmem, fun h => h⟩
  · -- the pointer is that of the call
    obtain ⟨buf, haddr, t, ht, -, ebx, hcall⟩ :=
      run_posted (start_start mem) hr (q := .bigReceive) rfl x (by rw [hx]; simp)
    have ht := List.mem_map_of_mem (f := fun t => t.2.1) ht
    rw [hlabels, hcall] at ht
    have hbuf : ebx = 1 ∧ buf = msg := by simpa [MsgQueue.bigCode] using ht
    rw [haddr, howner, hbuf.2]

section
variable {n : Nat} {image : Mem} {memSize : Word} {k₀ : Kernel}
  {tr : List (Kernel × (Op × Int) × Kernel)}

/-- **Big messages stay in the windows.** In every run whose message pages lie within the segments
and in which no counter overflows, only pages of the caller's window are recorded, and calls change
page-table entries only in the windows of the two processes. In the state reached, a call has its
message page in the window exactly when that page lies within the segment. -/
theorem big_messages_confined (hb : Bare image) (hm : boot n image memSize = some k₀.mem)
    (h₀ : Start k₀) (hr : Run (Step L) k₀ tr k)
    (hc : ∀ t ∈ tr, Inside t.2.1.1 ∧ t.1.mem.InUse) :
    (∀ q, q.isBig = true → ∀ x ∈ k.requests q, InWindow x) ∧
    (∀ t ∈ tr, IsBig t.2.1.1 → Confined t.1.sched.procCurrent t.1 t.2.2) ∧
    ∀ f ebx ecx k', f = 3 ∨ f = 4 → Step L k (.msg f ebx ecx, 1) k' →
      ∃ a, Passed f k.sched.procCurrent a k k' ∧
        (window a = k.sched.procCurrent ↔ Inside (.msg f ebx ecx)) := by
  have hg := run_guarded hb hm h₀ hr hc
  refine ⟨hg.recorded, fun t ht => ?_, fun f ebx ecx k' hf hs => ?_⟩
  · obtain ⟨tr₁, tr₂, rfl⟩ := List.append_of_mem ht
    obtain ⟨hr₁, hs⟩ := hr.split
    have hg₁ := run_guarded hb hm h₀ hr₁ fun t ht => hc t (by simp [ht])
    obtain ⟨hin, hu⟩ := hc t ht
    exact (hg₁.step hs hin hu).2
  · rcases step_passed hg.ok hf hs with ⟨-, hp⟩ | ⟨hr, -⟩
    · obtain ⟨hge, hlt⟩ := hg.ok.caller_bound (step_caller hs)
      refine ⟨_, hp, (window_msgEntry hge hlt).trans ?_⟩
      exact ⟨fun h _ => h, fun h => h hf⟩
    · exact absurd hr (by decide)

end

/-- Process 2 records a page of its window. -/
theorem big_messages_confined_receive : ∃ m₀ tr k, boot 20 emptyImage 0x1000000 = some m₀ ∧
    Run (Step (stackLayout 0x18000)) (start m₀) tr k ∧
    tr.map (fun t => t.2.1) = [(.clock 3, 0), (.msg 4 1 0x400000, 1)] ∧
    (∀ x ∈ k.requests .bigReceive, InWindow x) ∧
    ∀ t ∈ tr, IsBig t.2.1.1 → Confined t.1.sched.procCurrent t.1 t.2.2 := by
  obtain ⟨m₀, h₀, -⟩ := boot_returns
  obtain ⟨tr, k, x, hr, hlabels, htr, -⟩ := receive_run m₀ 0x400000
  have hu := (boot_booted emptyImage_bare h₀).paged.inUse
  obtain ⟨hrec, hconf, -⟩ := big_messages_confined emptyImage_bare h₀ (start_start m₀) hr
    fun t ht => ⟨(htr t ht).2 fun _ => by decide, (htr t ht).1 ▸ hu⟩
  exact ⟨m₀, tr, k, h₀, hr, hlabels, hrec .bigReceive rfl, hconf⟩

/-- Process 2 passes a pointer beyond its segment and records page 0 of the kernel window, which
the answer of process 1 will map to a page of its own. -/
theorem message_outside : ∃ m₀ tr k, boot 20 emptyImage 0x1000000 = some m₀ ∧
    Run (Step (stackLayout 0x18000)) (start m₀) tr k ∧
    tr.map (fun t => t.2.1) = [(.clock 3, 0), (.msg 4 1 0xF7FFF000, 1)] ∧
    ∃ x ∈ k.requests .bigReceive, x.owner = 2 ∧ x.addr = 0 ∧ window x.addr ≠ 2 := by
  obtain ⟨m₀, h₀, -⟩ := boot_returns
  obtain ⟨tr, k, x, hr, hlabels, -, -, -, hx, howner, -, haddr⟩ := receive_run m₀ 0xF7FFF000
  have hzero : x.addr = 0 := haddr.trans (by decide)
  refine ⟨m₀, tr, k, h₀, hr, hlabels, x, by rw [hx]; simp, howner, hzero, ?_⟩
  rw [hzero]
  decide

end Kernel

end Mks
