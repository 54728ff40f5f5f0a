import Mks.Message.Windows

set_option autoImplicit false

/-! # Delivery of big messages

When a send and a receive of a big message are paired, in whichever order they come, the receiver
gets the frame of the sender's message page. Nothing else that a process sees changes, except that
processes 1 and 2 see the first 640KB, where the kernel has its variables and the page directory.
-/

namespace Mks.Kernel

open Mem

variable {L : Layout} {M : MainMemory} {k k' : Kernel}

/-! ## The message page of a buffer -/

theorem getMsgEntry_toNat (a : Word) :
    (getMsgEntry a).toNat = (a.toNat / 4096 * 4096 + 4096) % 4294967296 := by
  have ha := a.isLt
  rw [getMsgEntry, BitVec.toNat_add, BitVec.toNat_and]
  show ((a.toNat &&& (2 ^ 20 - 1) <<< 12) + 4096) % 2 ^ 32 = _
  rw [and_ones]
  omega

/-- A buffer of 8192 bytes in the segment. -/
def Fits (buf : Word) : Prop := buf.toNat + 8192 ≤ 0x4000000

/-- The page at `entry` is part of the buffer. -/
def PartOf (entry buf : Word) : Prop :=
  buf.toNat ≤ entry.toNat ∧ entry.toNat + 4096 ≤ buf.toNat + 8192

theorem Fits.entry {buf : Word} (h : Fits buf) :
    PartOf (getMsgEntry buf) buf ∧ getMsgEntry buf < WINDOW := by
  unfold Fits at h
  rw [PartOf, BitVec.lt_def, getMsgEntry_toNat]
  show _ ∧ _ < 67108864
  omega

/-! ## Pairs -/

/-- The call `op` of the current process pairs message `a` with the receive call `b`: one of them
is made by `op`, the other is the first one waiting that it meets. -/
inductive Pairs (k : Kernel) : Op → Request → Request → Prop
  | send {dest buf : Int} {b : Request} (h0 : k.sched.procCurrent ≠ PROC_IDLE_NR)
      (hb : (k.requests .bigReceive).find? (meets ⟨k.sched.procCurrent, dest,
        (msgEntry k.sched.procCurrent buf).toInt⟩) = some b) :
      Pairs k (.msg 3 dest buf)
        ⟨k.sched.procCurrent, dest, (msgEntry k.sched.procCurrent buf).toInt⟩ b
  | receive {src buf : Int} {a : Request} (h0 : k.sched.procCurrent ≠ PROC_IDLE_NR)
      (ha : (k.requests .bigSend).find? (fun a => meets a ⟨k.sched.procCurrent, src,
        (msgEntry k.sched.procCurrent buf).toInt⟩) = some a) :
      Pairs k (.msg 4 src buf) a
        ⟨k.sched.procCurrent, src, (msgEntry k.sched.procCurrent buf).toInt⟩

/-- The owner of a waiting request for a big message sleeps, so it is not the caller. -/
theorem Ok.waiting_owner (h : Ok L k) {q : MsgQueue} (hq : q.isBig = true) {x : Request}
    (hx : x ∈ k.requests q) :
    0 ≤ x.owner ∧ x.owner < NR_PROCS ∧ x.owner ≠ k.sched.procCurrent := by
  rcases h.owner_asleep hx with hs | ⟨-, rfl⟩
  · obtain ⟨hge, hlt⟩ := Sched.OkWith.pid_bound h.queues.sched hs
    refine ⟨hge, hlt, fun e => ?_⟩
    rw [e, Sched.currentRuns_iff.mp h.runs] at hs
    exact absurd hs (by decide)
  · cases hq

/-- A call that meets a waiting receiver shares the two pages. -/
theorem send_shares {f dest buf r : Int} {b : Request} (h : Ok L k) (hf : f = 3)
    (hb : (k.requests .bigReceive).find? (meets ⟨k.sched.procCurrent, dest,
      (msgEntry k.sched.procCurrent buf).toInt⟩) = some b)
    (hs : Step L k (.msg f dest buf, r) k') :
    r = 1 ∧ ∃ n, k.mem.sharePage n (msgEntry k.sched.procCurrent buf) b.addr = some k'.mem := by
  have hmem := List.mem_of_find?_eq_some hb
  have hmeets := List.find?_some hb
  have hpeer : dest = b.owner := (of_decide_eq_true hmeets).1
  obtain ⟨hge, hlt, hne⟩ := h.waiting_owner (q := .bigReceive) rfl hmem
  have hsaved := h.saved_requests dest buf
  have hmeet : ∃ b ∈ (k.saved L dest buf).requests .bigReceive, meets ⟨k.sched.procCurrent, dest,
      (msgEntry k.sched.procCurrent buf).toInt⟩ b = true := ⟨b, hsaved ▸ hmem, hmeets⟩
  cases (step_cases h hs).2 with
  | rejected h0 hr =>
      rcases hr with hself | hno
      · exact absurd (hpeer.symm.trans hself) hne
      · exact absurd hf (hno .big).1
  | received z => cases z <;> exact absurd hf (by decide)
  | sent z h0 hself hsent =>
      cases z with
      | small => exact absurd hf (by decide)
      | big =>
          cases hsent with
          | invalid hi =>
              have hi : dest < 0 ∨ dest ≥ NR_PROCS := hi
              omega
          | crossed hz => cases hz
          | full ha =>
              have hcur := h.current_bound.1
              have ha : k.sched.procCurrent = MSG_HARDWARE := ha
              rw [ha] at hcur
              exact absurd hcur (by decide)
          | delivered l₁ l₂ b' hl hb' hl₁ hreq hcells hshare hstate =>
              obtain rfl := Option.some.inj ((find?_of_first hl hb' hl₁).symm.trans (hsaved ▸ hb))
              obtain ⟨n, hn⟩ := hshare
              refine ⟨rfl, n, ?_⟩
              rw [← BitVec.ofInt_toInt (x := msgEntry k.sched.procCurrent buf)]
              exact hn
          | queued hno =>
              obtain ⟨b', hb', hm⟩ := hmeet
              cases (hno b' hb').symm.trans hm

/-- So does a call that meets a waiting sender. -/
theorem receive_shares {f src buf r : Int} {a : Request} (h : Ok L k) (hf : f = 4)
    (ha : (k.requests .bigSend).find? (fun a => meets a ⟨k.sched.procCurrent, src,
      (msgEntry k.sched.procCurrent buf).toInt⟩) = some a)
    (hs : Step L k (.msg f src buf, r) k') :
    r = 1 ∧ ∃ n, k.mem.sharePage n a.addr (msgEntry k.sched.procCurrent buf) = some k'.mem := by
  have hmem := List.mem_of_find?_eq_some ha
  have hmeets := List.find?_some ha
  have hpeer : src = a.owner ∨ src = MSG_ANY := (of_decide_eq_true hmeets).2
  obtain ⟨hge, hlt, hne⟩ := h.waiting_owner (q := .bigSend) rfl hmem
  have hany : MSG_ANY = -1 := rfl
  have hprocs : NR_PROCS = 64 := rfl
  have hsaved := h.saved_requests src buf
  have hmeet : ∃ a ∈ (k.saved L src buf).requests .bigSend, meets a ⟨k.sched.procCurrent, src,
      (msgEntry k.sched.procCurrent buf).toInt⟩ = true := ⟨a, hsaved ▸ hmem, hmeets⟩
  cases (step_cases h hs).2 with
  | rejected h0 hr =>
      rcases hr with hself | hno
      · have hcur := h.current_bound.1
        omega
      · exact absurd hf (hno .big).2
  | sent z => cases z <;> exact absurd hf (by decide)
  | received z h0 hself hrec =>
      cases z with
      | small => exact absurd hf (by decide)
      | big =>
          cases hrec with
          | invalid hi =>
              have hi : src < 0 ∧ src ≠ MSG_ANY ∧ _ ∨ src ≥ NR_PROCS := hi
              omega
          | crossed hno =>
              obtain ⟨a', ha', hm⟩ := hmeet
              cases (hno a' ha').symm.trans hm
          | taken l₁ l₂ a' hl ha' hl₁ hreq hcells hshare hstate =>
              obtain rfl := Option.some.inj
                ((find?_of_first (p := fun a => meets a _) hl ha' hl₁).symm.trans (hsaved ▸ ha))
              obtain ⟨n, hn⟩ := hshare
              refine ⟨rfl, n, ?_⟩
              rw [← BitVec.ofInt_toInt (x := msgEntry k.sched.procCurrent buf)]
              exact hn
          | queued hno =>
              obtain ⟨a', ha', hm⟩ := hmeet
              cases (hno a' ha').symm.trans hm

theorem addr_toInt (owner peer : Int) (a : Word) : Request.addr ⟨owner, peer, a.toInt⟩ = a :=
  BitVec.ofInt_toInt

/-- **A pair is served** by sharing the sender's page with the receiver's. -/
theorem Pairs.shares {op : Op} {a b : Request} {r : Int} (hp : Pairs k op a b) (h : Ok L k)
    (hs : Step L k (op, r) k') : r = 1 ∧ ∃ n, k.mem.sharePage n a.addr b.addr = some k'.mem := by
  cases hp with
  | @send dest buf b h0 hb =>
      obtain ⟨hr, n, hn⟩ := send_shares h rfl hb hs
      refine ⟨hr, n, ?_⟩
      rw [addr_toInt]
      exact hn
  | @receive src buf a h0 ha =>
      obtain ⟨hr, n, hn⟩ := receive_shares h rfl ha hs
      refine ⟨hr, n, ?_⟩
      rw [addr_toInt]
      exact hn

theorem Pairs.ne {op : Op} {a b : Request} (hp : Pairs k op a b) (h : Ok L k) :
    a.owner ≠ b.owner := by
  cases hp with
  | send h0 hb =>
      exact (h.waiting_owner (q := .bigReceive) rfl (List.mem_of_find?_eq_some hb)).2.2.symm
  | receive h0 ha => exact (h.waiting_owner (q := .bigSend) rfl (List.mem_of_find?_eq_some ha)).2.2

/-- A call that pairs nothing leaves the memory alone. -/
theorem unpaired_mem {f peer buf r : Int} (h : Ok L k) (hs : Step L k (.msg f peer buf, r) k')
    (hno : ∀ a b, ¬ Pairs k (.msg f peer buf) a b) : k'.mem = k.mem := by
  have hsaved := h.saved_requests peer buf
  cases (step_cases h hs).2 with
  | rejected h0 hr => rfl
  | sent z h0 hne hsent =>
      cases hsent with
      | invalid _ | crossed | full => rfl
      | queued hno' hcross hreq hcells hmem hstate => exact hmem
      | delivered l₁ l₂ b hl hb hl₁ hreq hcells hmem hstate =>
          cases z with
          | small => exact hmem
          | big =>
              have hfind := find?_of_first hl hb hl₁
              rw [hsaved] at hfind
              exact (hno _ b (.send h0 hfind)).elim
  | received z h0 hne hrec =>
      cases hrec with
      | invalid _ | crossed => rfl
      | queued hno' hcross hreq hcells hmem hstate => exact hmem
      | taken l₁ l₂ a hl ha hl₁ hreq hcells hmem hstate =>
          cases z with
          | small => exact hmem
          | big =>
              have hfind := find?_of_first (p := fun a => meets a _) hl ha hl₁
              rw [hsaved] at hfind
              exact (hno a _ (.receive h0 hfind)).elim

/-! ## Arrival -/

/-- The receiver of `b` sees in its message page what the sender of `a` sees in its own. All other
pages keep their contents, unless they show memory of the kernel. -/
structure Arrived (a b : Request) (k k' : Kernel) : Prop where
  same : k'.mem.contents (mapNr b.addr) = k'.mem.contents (mapNr a.addr)
  unchanged : ∀ n ∈ pages, n ≠ mapNr b.addr → ¬ k.mem.ShowsKernel n →
    k'.mem.contents n = k.mem.contents n

def Op.isKernelStore : Op → Bool
  | .kernelStore _ _ => true
  | _ => false

/-- From `k` to `k'` the kernel stores to its own memory. -/
def Stores (L : Layout) (k k' : Kernel) : Prop :=
  ∃ tr, Run (Step L) k tr k' ∧ ∀ t ∈ tr, Op.isKernelStore t.2.1.1 = true

theorem Stores.leaves (h : Stores L k k') (hk : TablesApart k.mem) :
    Leaves ∅ ∅ k.mem k'.mem := by
  obtain ⟨tr, hr, hst⟩ := h
  suffices h : TablesApart k'.mem ∧ Leaves ∅ ∅ k.mem k'.mem from h.2
  induction hr with
  | nil => exact ⟨hk, .refl⟩
  | @snoc tr k₁ k₂ e hr hs ih =>
      obtain ⟨hap, hl⟩ := ih fun t ht => hst t (by simp [ht])
      obtain ⟨op, r⟩ := e
      obtain ⟨n, hs⟩ := hs
      have hop : Op.isKernelStore op = true := hst (k₁, (op, r), k₂) (by simp)
      cases op with
      | kernelStore a v =>
          simp only [exec] at hs
          split_ifs at hs with ha
          obtain ⟨-, rfl⟩ := Prod.mk.injEq .. ▸ Option.some.inj hs
          exact ⟨hap.kernelStore ha _ _, hl.trans (hap.leaves_kernelStore ha _ _)⟩
      | _ => cases hop

/-- Both requests of a pair are for pages in the windows of their owners. -/
theorem Pairs.inWindow {op : Op} {a b : Request} (hp : Pairs k op a b) (h : Guarded L M k)
    (hin : Inside op) : InWindow a ∧ InWindow b := by
  cases hp with
  | @send dest buf b h0 hb =>
      obtain ⟨hge, hlt⟩ := h.ok.caller_bound h0
      refine ⟨⟨hge, hlt, ?_⟩, h.recorded .bigReceive rfl b (List.mem_of_find?_eq_some hb)⟩
      rw [addr_toInt]
      exact (window_msgEntry hge hlt).mpr (hin (.inl rfl))
  | @receive src buf a h0 ha =>
      obtain ⟨hge, hlt⟩ := h.ok.caller_bound h0
      refine ⟨h.recorded .bigSend rfl a (List.mem_of_find?_eq_some ha), ⟨hge, hlt, ?_⟩⟩
      rw [addr_toInt]
      exact (window_msgEntry hge hlt).mpr (hin (.inr rfl))

theorem Pairs.arrived {op : Op} {a b : Request} {r : Int} {k₁ : Kernel} (hp : Pairs k op a b)
    (h : Guarded L M k) (hu : k.mem.InUse) (hin : Inside op) (hs : Step L k (op, r) k₁)
    (hst : Stores L k₁ k') : r = 1 ∧ Arrived a b k k' := by
  obtain ⟨ha, hb⟩ := hp.inWindow h hin
  obtain ⟨hr, n, hn⟩ := hp.shares h.ok hs
  have hpaged := h.paged hu
  obtain ⟨hl, f, hfa, hfb⟩ := hpaged.sharePage_leaves ha.ge hb.ge hn
  have hl' := hst.leaves (hpaged.sharePage_tablesApart ha.ge hb.ge hn)
  have hframe : ∀ c < 1048576, k'.mem.frameOf c = k₁.mem.frameOf c := fun c hc => by
    rw [frameOf, hl'.pte c hc (Set.notMem_empty _), frameOf]
  refine ⟨hr, ?_, fun c hc hne hk => ?_⟩
  · rw [contents_some ((hframe _ (mapNr_lt _)).trans hfa),
      contents_some ((hframe _ (mapNr_lt _)).trans hfb)]
  · rw [hl'.contents c hc (Set.notMem_empty _) (hl.kernel c hc hne hk), hl.contents c hc hne hk]

/-- A call returns when three frames are free. -/
theorem Guarded.msg_returns (h : Guarded L M k) (hu : k.mem.InUse) (hfree : Frees k.mem 3)
    (h0 : k.sched.procCurrent ≠ PROC_IDLE_NR) {f ebx ecx : Int} (hin : Inside (.msg f ebx ecx)) :
    ∃ r k', Step L k (.msg f ebx ecx, r) k' := by
  have hpaged := h.paged hu
  obtain ⟨hge, hlt⟩ := h.ok.caller_bound h0
  have hex : (∃ r k', k.exec 7 L (.msg f ebx ecx) = some (r, k')) ∨ _ := exec_returns h.ok 7 h0
  rcases hex with ⟨r, k', hk'⟩ | ⟨ebx', ecx', hop, hst⟩
  · exact ⟨r, k', 7, hk'⟩
  · exfalso
    have hin' : getMsgEntry (BitVec.ofInt 32 ecx') < WINDOW := by
      rcases hop with hop | hop <;> rw [hop] at hin
      · exact hin (.inl rfl)
      · exact hin (.inr rfl)
    have hage := ge_of_window ((window_msgEntry hge hlt).mpr hin') hge
    obtain ⟨q, x, hq, hx, hnone⟩ := hst
    have hxge := (h.recorded q hq x hx).ge
    rcases hnone with hnone | hnone
    · obtain ⟨m', hm'⟩ := hpaged.sharePage_returns (k := 0) (b := x.addr) hage hfree
      cases hnone.symm.trans hm'
    · obtain ⟨m', hm'⟩ := hpaged.sharePage_returns (k := 0)
        (b := msgEntry k.sched.procCurrent ecx') hxge hfree
      cases hnone.symm.trans hm'

theorem Pairs.returns {op : Op} {a b : Request} (hp : Pairs k op a b) (h : Guarded L M k)
    (hu : k.mem.InUse) (hin : Inside op) (hfree : Frees k.mem 3) : ∃ k', Step L k (op, 1) k' := by
  have hret : ∃ r k', Step L k (op, r) k' := by
    cases hp with
    | send h0 hb => exact h.msg_returns hu hfree h0 hin
    | receive h0 ha => exact h.msg_returns hu hfree h0 hin
  obtain ⟨r, k', hs⟩ := hret
  obtain ⟨rfl, -⟩ := hp.shares h.ok hs
  exact ⟨k', hs⟩

/-- Where the two requests of a pair come from. -/
theorem Pairs.posted {op : Op} {a b : Request} {k₀ : Kernel}
    {tr : List (Kernel × (Op × Int) × Kernel)} (hp : Pairs k op a b) (h₀ : Start k₀)
    (hr : Run (Step L) k₀ tr k) :
    ∃ buf buf', Posted (tr ++ [(k, (op, 1), k')]) 3 a buf ∧
      Posted (tr ++ [(k, (op, 1), k')]) 4 b buf' := by
  have hold : ∀ {f x buf}, Posted tr f x buf → Posted (tr ++ [(k, (op, 1), k')]) f x buf := by
    rintro f x buf ⟨haddr, t, ht, hcall⟩
    exact ⟨haddr, t, List.mem_append_left _ ht, hcall⟩
  have hlast : (k, (op, 1), k') ∈ tr ++ [(k, (op, 1), k')] := by simp
  cases hp with
  | @send dest buf b h0 hb =>
      obtain ⟨buf', hb'⟩ :=
        run_posted h₀ hr (q := .bigReceive) rfl b (List.mem_of_find?_eq_some hb)
      exact ⟨buf, buf', ⟨addr_toInt .., _, hlast, rfl, dest, rfl⟩, hold hb'⟩
  | @receive src buf a h0 ha =>
      obtain ⟨buf', ha'⟩ := run_posted h₀ hr (q := .bigSend) rfl a (List.mem_of_find?_eq_some ha)
      exact ⟨buf', buf, hold ha', ⟨addr_toInt .., _, hlast, rfl, src, rfl⟩⟩

/-- **A big message arrives.** In every run whose message pages lie within the segments and in
which no counter overflows, a call that pairs a send with a receive returns when three frames are
free. Whatever the kernel then stores to its own memory, the receiver sees at its message page what
the sender sees at its own; both pages are those of the pointers that the two processes passed, and
part of their buffers. -/
theorem big_message_arrives {n : Nat} {image : Mem} {memSize : Word} {k₀ : Kernel}
    {tr : List (Kernel × (Op × Int) × Kernel)} {op : Op} {a b : Request} (hb : Bare image)
    (hm : boot n image memSize = some k₀.mem) (h₀ : Start k₀) (hr : Run (Step L) k₀ tr k)
    (hc : ∀ t ∈ tr, Inside t.2.1.1 ∧ t.1.mem.InUse) (hu : k.mem.InUse) (hin : Inside op)
    (hp : Pairs k op a b) :
    (Frees k.mem 3 → ∃ k', Step L k (op, 1) k') ∧
    ∀ r k₁ k', Step L k (op, r) k₁ → Stores L k₁ k' → r = 1 ∧ Arrived a b k k' ∧ InWindow a ∧
      InWindow b ∧ a.owner ≠ b.owner ∧ ∃ buf buf', Posted (tr ++ [(k, (op, 1), k₁)]) 3 a buf ∧
        Posted (tr ++ [(k, (op, 1), k₁)]) 4 b buf' ∧
        ∀ x ∈ [BitVec.ofInt 32 buf, BitVec.ofInt 32 buf'], Fits x → PartOf (getMsgEntry x) x := by
  have hg := run_guarded hb hm h₀ hr hc
  refine ⟨hp.returns hg hu hin, fun r k₁ k' hs hst => ?_⟩
  obtain ⟨ha, hb⟩ := hp.inWindow hg hin
  obtain ⟨hr', harr⟩ := hp.arrived hg hu hin hs hst
  obtain ⟨buf, buf', hposted⟩ := hp.posted h₀ hr
  exact ⟨hr', harr, ha, hb, hp.ne hg.ok, buf, buf', hposted.1, hposted.2, fun x _ hx => hx.entry.1⟩

/-- Process 2 waits for a big message, and process 1 is about to send one. -/
theorem pair_run : ∃ m₀ tr k a b, boot 20 emptyImage 0x1000000 = some m₀ ∧
    Run (Step (stackLayout 0x18000)) (start m₀) tr k ∧
    tr.map (fun t => t.2.1) = [(.clock 3, 0), (.msg 4 1 0x400000, 1)] ∧
    (∀ t ∈ tr, Inside t.2.1.1 ∧ t.1.mem.InUse) ∧ k.mem = m₀ ∧ k.mem.InUse ∧
    Inside (.msg 3 2 0x400000) ∧ Pairs k (.msg 3 2 0x400000) a b ∧
    a.addr = msgEntry 1 0x400000 ∧ b.addr = msgEntry 2 0x400000 := by
  obtain ⟨m₀, h₀, -⟩ := boot_returns
  obtain ⟨tr, k, x, hr, hlabels, htr, hmem, hcur, hx, howner, hpeer, haddr⟩ :=
    receive_run m₀ 0x400000
  have hu := (boot_booted emptyImage_bare h₀).paged.inUse
  refine ⟨m₀, tr, k, ⟨1, 2, (msgEntry 1 0x400000).toInt⟩, x, h₀, hr, hlabels, fun t ht => ?_, hmem,
    hmem ▸ hu, fun _ => by decide, ?_, addr_toInt 1 2 _, haddr⟩
  · exact ⟨(htr t ht).2 fun _ => by decide, (htr t ht).1 ▸ hu⟩
  · have hpair : Pairs k (.msg 3 2 0x400000)
        ⟨k.sched.procCurrent, 2, (msgEntry k.sched.procCurrent 0x400000).toInt⟩ x := by
      refine .send (by rw [hcur]; decide) ?_
      rw [hx, List.find?_cons_of_pos]
      rw [meets, howner, hpeer, hcur]
      rfl
    rwa [hcur] at hpair

/-- Process 1 sends a big message to process 2, which waits for it. -/
theorem paired_run : ∃ m₀ tr k k' a b, boot 20 emptyImage 0x1000000 = some m₀ ∧
    Run (Step (stackLayout 0x18000)) (start m₀) (tr ++ [(k, (.msg 3 2 0x400000, 1), k')]) k' ∧
    (tr ++ [(k, (.msg 3 2 0x400000, 1), k')]).map (fun t => t.2.1)
      = [(.clock 3, 0), (.msg 4 1 0x400000, 1), (.msg 3 2 0x400000, 1)] ∧
    (∀ t ∈ tr ++ [(k, (.msg 3 2 0x400000, 1), k')], Inside t.2.1.1 ∧ t.1.mem.InUse) ∧
    Pairs k (.msg 3 2 0x400000) a b ∧ a.addr = msgEntry 1 0x400000 ∧
    b.addr = msgEntry 2 0x400000 := by
  obtain ⟨m₀, tr, k, a, b, h₀, hr, hlabels, hc, hmem, hu, hin, hp, ha, hb⟩ := pair_run
  obtain ⟨m, hm, hfree, -⟩ := boot_returns
  obtain rfl := Option.some.inj (h₀.symm.trans hm)
  have hg := run_guarded emptyImage_bare h₀ (start_start m₀) hr hc
  obtain ⟨k', hs⟩ := hp.returns hg hu hin (by rw [hmem]; exact hfree.mono (by omega))
  refine ⟨m₀, tr, k, k', a, b, h₀, hr.snoc hs, ?_, fun t ht => ?_, hp, ha, hb⟩
  · rw [List.map_append, hlabels]
    rfl
  · rcases List.mem_append.mp ht with ht | ht
    · exact hc t ht
    · rw [List.mem_singleton.mp ht]
      exact ⟨hin, hu⟩

/-- Process 2 gets the message of process 1, and the kernel stores to a variable. -/
theorem big_message_arrives_pair : ∃ m₀ tr k k₁ k' a b, boot 20 emptyImage 0x1000000 = some m₀ ∧
    Run (Step (stackLayout 0x18000)) (start m₀) tr k ∧
    tr.map (fun t => t.2.1) = [(.clock 3, 0), (.msg 4 1 0x400000, 1)] ∧
    Step (stackLayout 0x18000) k (.msg 3 2 0x400000, 1) k₁ ∧
    Step (stackLayout 0x18000) k₁ (.kernelStore 0x18000 1, 0) k' ∧ Arrived a b k k' ∧
    a.addr = msgEntry 1 0x400000 ∧ b.addr = msgEntry 2 0x400000 := by
  obtain ⟨m₀, tr, k, a, b, h₀, hr, hlabels, hc, hmem, hu, hin, hp, ha, hb⟩ := pair_run
  obtain ⟨m, hm, hfree, -⟩ := boot_returns
  obtain rfl := Option.some.inj (h₀.symm.trans hm)
  have hboot : boot 20 emptyImage 0x1000000 = some (start m₀).mem := h₀
  obtain ⟨hret, hall⟩ := big_message_arrives emptyImage_bare hboot (start_start m₀) hr hc hu hin hp
  obtain ⟨k₁, hs⟩ := hret (by rw [hmem]; exact hfree.mono (by omega))
  have hstore : Step (stackLayout 0x18000) k₁ (.kernelStore 0x18000 1, 0)
      { k₁ with mem := k₁.mem.store 0x18000 1 } := ⟨0, by rw [exec, if_pos (by decide)]⟩
  exact ⟨m₀, tr, k, k₁, _, a, b, h₀, hr, hlabels, hs, hstore,
    (hall 1 k₁ _ hs ⟨_, Run.nil.snoc hstore, by simp [Op.isKernelStore]⟩).2.1, ha, hb⟩

/-- Page 7 of process 1 is mapped to the page directory, which changes when process 2 gets a page
table for its message page. -/
theorem directory_seen : ∃ m₀ tr k k', boot 20 emptyImage 0x1000000 = some m₀ ∧
    Run (Step (stackLayout 0x18000)) (start m₀) tr k ∧
    tr.map (fun t => t.2.1) = [(.clock 3, 0), (.msg 4 1 0x400000, 1)] ∧
    (∀ t ∈ tr, Inside t.2.1.1 ∧ t.1.mem.InUse) ∧ k.mem.InUse ∧ Frees k.mem 7 ∧ Fits 0x400000 ∧
    Step (stackLayout 0x18000) k (.msg 3 2 0x400000, 1) k' ∧
    ∃ n ∈ pages, windowOf n = 1 ∧ n ≠ mapNr (msgEntry 2 0x400000) ∧
      k'.mem.contents n ≠ k.mem.contents n := by
  obtain ⟨m₀, tr, k, a, b, h₀, hr, hlabels, hc, hmem, hu, hin, hp, ha, hb⟩ := pair_run
  obtain ⟨m, hm, hfree, -, ht, hdir⟩ := boot_returns
  obtain rfl := Option.some.inj (h₀.symm.trans hm)
  have hboot : boot 20 emptyImage 0x1000000 = some (start m₀).mem := h₀
  have hg := run_guarded emptyImage_bare hboot (start_start m₀) hr hc
  have hpaged := hg.paged hu
  rw [← hmem] at ht hdir hfree
  obtain ⟨k', hs⟩ := hp.returns hg hu hin (hfree.mono (by omega))
  obtain ⟨hwa, hwb⟩ := hp.inWindow hg hin
  obtain ⟨-, n, hn⟩ := hp.shares hg.ok hs
  obtain ⟨hleaves, f, -, hf⟩ := hpaged.sharePage_leaves hwa.ge hwb.ge hn
  refine ⟨m₀, tr, k, k', h₀, hr, hlabels, hc, hu, hfree, by unfold Fits; decide, hs, 16391,
    by decide, by decide, by decide, fun hsame => ?_⟩
  have hdir' : k'.mem.frameOf 16391 = some 7 := by
    rw [frameOf, hleaves.pte 16391 (by decide) ?_, ← frameOf, hdir]
    rw [ha, hb]
    decide
  rw [contents_some hdir, contents_some hdir'] at hsame
  -- the directory has an entry for the block of the message page now
  obtain ⟨t, ht'⟩ := tableOf_of_frameOf hf
  rw [hb, show mapNr (msgEntry 2 0x400000) / 1024 = 33 by decide, tableOf, hsame, ← tableOf, ht]
    at ht'
  cases ht'

end Mks.Kernel
