import Mks.Message.Slices
import Mathlib.Data.BitVec

set_option autoImplicit false

/-! # The clock's accounts

`do_intr_clock` counts every interrupt in `jiffies`, and in `utime` or `stime` of the process that it
has interrupted. Nothing else in the kernel touches these counters, whoever runs in between: no
interrupt is lost, and none is charged to another process (`clock_accounted`). The counters have 32
bits, and so does what is counted.
-/

namespace Mks.Sched

/-! ## What `schedule` leaves alone -/

theorem addProc_links {s s' : Sched} {i : Int} (h : s.addProc i = some s') :
    ∃ l, s' = { s with links := l } := by
  unfold addProc at h
  split at h
  · cases h
    exact ⟨s.links, rfl⟩
  split at h
  · obtain ⟨q, -, h⟩ := Option.bind_eq_some_iff.mp h
    split at h
    · cases h
      exact ⟨_, rfl⟩
    obtain ⟨flag, -, h⟩ := Option.bind_eq_some_iff.mp h
    split at h
    · cases h
      exact ⟨s.links, rfl⟩
    · obtain ⟨t, -, rfl⟩ := Option.map_eq_some_iff.mp h
      exact ⟨_, rfl⟩
  · cases h
    exact ⟨s.links, rfl⟩

theorem addRunningProc_links {s s' : Sched} (h : s.addRunningProc = some s') :
    ∃ l, s' = { s with links := l } := by
  unfold addRunningProc at h
  generalize pids = is at h
  induction is generalizing s with
  | nil =>
      obtain rfl := Option.some.inj h
      exact ⟨_, rfl⟩
  | cons i is ih =>
      rw [List.foldlM_cons] at h
      obtain ⟨s₁, h₁, h⟩ := Option.bind_eq_some_iff.mp h
      obtain ⟨l₁, rfl⟩ := addProc_links h₁
      obtain ⟨l, rfl⟩ := ih h
      exact ⟨l, rfl⟩

theorem pick_links {s s' : Sched} {flag n : Int} (h : s.pick flag = some (n, s')) :
    ∃ l, s' = { s with links := l } := by
  have take : ∀ q, s.takeHead q = some (n, s') → ∃ l, s' = { s with links := l } := by
    intro q hq
    obtain ⟨p, -, hq⟩ := Option.bind_eq_some_iff.mp hq
    obtain ⟨pr, -, he⟩ := Option.map_eq_some_iff.mp hq
    obtain ⟨-, rfl⟩ := Prod.mk.injEq .. ▸ he
    exact ⟨_, rfl⟩
  unfold pick at h
  split_ifs at h
  · exact take _ h
  · exact take _ h
  · exact take _ h
  · cases h
    exact ⟨s.links, rfl⟩

theorem requeue_links {s s' : Sched} {t : Int} (h : s.requeue t = some s') :
    ∃ l, s' = { s with links := l } := by
  unfold requeue at h
  simp only [] at h
  split at h
  · cases h
    exact ⟨_, rfl⟩
  split at h
  · cases h
    exact ⟨_, rfl⟩
  · obtain ⟨z, -, h⟩ := Option.bind_eq_some_iff.mp h
    obtain ⟨b, -, rfl⟩ := Option.map_eq_some_iff.mp h
    exact ⟨_, rfl⟩

/-! ## The accounts -/

/-- `utime` and `stime` of a process. -/
def times (s : Sched) (i : Int) : Word × Word :=
  match s.proc i with
  | some pr => (pr.utime, pr.stime)
  | none => 0

/-- `jiffies`, and the times of all processes. -/
def account (s : Sched) : Word × (Int → Word × Word) := (s.jiffies, s.times)

/-- What a clock interrupt at privilege level `cpl` adds to the times of process `i`. -/
def charge (cpl i : Int) : Int → Word × Word := Pi.single i (if cpl ≠ 0 then (1, 0) else (0, 1))

theorem account_modify {s s' : Sched} {p : Int} {f : ProcStruct → ProcStruct} {d : Word × Word}
    (hs : s.modify p f = some s')
    (hf : ∀ pr, ((f pr).utime, (f pr).stime) = (pr.utime, pr.stime) + d) :
    s'.account = s.account + (0, Pi.single p d) := by
  obtain ⟨pr, hp, rfl⟩ := Option.map_eq_some_iff.mp hs
  refine Prod.ext (add_zero _).symm (funext fun i => ?_)
  by_cases hi : i = p
  · subst hi
    simp only [account, times, Prod.snd_add, Pi.add_apply, Pi.single_eq_same, hp,
      Function.update_self]
    exact hf pr
  · simp only [account, times, Prod.snd_add, Pi.add_apply, Pi.single_eq_of_ne hi, add_zero,
      Function.update_of_ne hi]

theorem account_keep {s s' : Sched} {p : Int} {f : ProcStruct → ProcStruct}
    (hs : s.modify p f = some s') (hu : ∀ pr, (f pr).utime = pr.utime)
    (hst : ∀ pr, (f pr).stime = pr.stime) : s'.account = s.account := by
  have h := account_modify (d := 0) hs fun pr => by rw [hu, hst, add_zero]
  rwa [Pi.single_zero, Prod.mk_zero_zero, add_zero] at h

theorem account_links {s s' : Sched} (h : ∃ l, s' = { s with links := l }) :
    s'.account = s.account := by
  obtain ⟨l, rfl⟩ := h
  rfl

theorem switchTo_account {s s' : Sched} {n counter : Int} (hs : s.switchTo n counter = some s') :
    s'.account = s.account := by
  obtain ⟨s₁, h₁, rfl⟩ := Option.map_eq_some_iff.mp hs
  have h : s₁.account = s.account := account_keep h₁ (fun _ => rfl) fun _ => rfl
  exact h

/-- `schedule` charges nobody. -/
theorem schedule_account {s s' : Sched} (hs : s.schedule = some s') : s'.account = s.account := by
  unfold schedule at hs
  obtain ⟨cur, -, hs⟩ := Option.bind_eq_some_iff.mp hs
  obtain ⟨s₁, h₁, hs⟩ := Option.bind_eq_some_iff.mp hs
  obtain ⟨⟨n, s₂⟩, h₂, hs⟩ := Option.bind_eq_some_iff.mp hs
  have hpick : s₂.account = s.account :=
    (account_links (pick_links h₂)).trans (account_links (addRunningProc_links h₁))
  simp only [] at hs
  split_ifs at hs
  · exact (account_keep hs (fun _ => rfl) fun _ => rfl).trans hpick
  · obtain rfl := Option.some.inj hs
    exact hpick
  · exact (switchTo_account hs).trans hpick
  · obtain ⟨s₃, h₃, hs⟩ := Option.bind_eq_some_iff.mp hs
    exact (switchTo_account hs).trans ((account_links (requeue_links h₃)).trans hpick)
  · exact (switchTo_account hs).trans hpick

/-- **One clock interrupt.** -/
theorem doIntrClock_account {s s' : Sched} {cpl : Int} (hs : s.doIntrClock cpl = some s') :
    s'.account = s.account + (1, charge cpl s.procCurrent) := by
  unfold doIntrClock at hs
  obtain ⟨s₁, h₁, hs⟩ := Option.bind_eq_some_iff.mp hs
  have hcount : s₁.account = s.account + (1, charge cpl s.procCurrent) := by
    refine (account_modify h₁ (d := if cpl ≠ 0 then (1, 0) else (0, 1)) fun pr => ?_).trans ?_
    · split_ifs
      · exact Prod.ext rfl (add_zero _).symm
      · exact Prod.ext (add_zero _).symm rfl
    · exact Prod.ext (add_zero _) rfl
  obtain ⟨cur, -, hs⟩ := Option.bind_eq_some_iff.mp hs
  split at hs
  · obtain rfl := Option.some.inj hs
    exact hcount
  obtain ⟨s₂, h₂, hs⟩ := Option.bind_eq_some_iff.mp hs
  have hexpire : s₂.account = s₁.account := account_keep h₂ (fun _ => rfl) fun _ => rfl
  split at hs
  · obtain rfl := Option.some.inj hs
    exact hexpire.trans hcount
  · exact (schedule_account hs).trans (hexpire.trans hcount)

end Mks.Sched

namespace Mks.Kernel

open Sched

variable {L : Layout} {k k' : Kernel}

theorem Effect.account {s s' : Sched} {r : Int} (he : Effect s r s') :
    s'.account = s.account := by
  cases he with
  | none => rfl
  | schedule hs => exact schedule_account hs
  | wake h₁ hs =>
      exact (schedule_account hs).trans (account_keep h₁ (fun _ => rfl) fun _ => rfl)
  | sleep _ h₁ hs =>
      exact (schedule_account hs).trans (account_keep h₁ (fun _ => rfl) fun _ => rfl)

/-- What an operation adds to the accounts. -/
def charged (t : Kernel × (Op × Int) × Kernel) : Word × (Int → Word × Word) :=
  match t.2.1.1 with
  | .clock cpl => (1, charge cpl t.1.sched.procCurrent)
  | _ => 0

theorem step_account {e : Op × Int} (h : Ok L k) (hs : Step L k e k') :
    k'.sched.account = k.sched.account + charged (k, e, k') := by
  obtain ⟨op, r⟩ := e
  obtain ⟨n, hs⟩ := hs
  cases op with
  | msg f ebx ecx =>
      simp only [exec] at hs
      split_ifs at hs with h0
      exact (intrMsg_effect h.queues.sched h0 hs).account.trans (add_zero _).symm
  | hardware dest msg =>
      exact (smallSend_effect (.inl rfl) hs).account.trans (add_zero _).symm
  | clock cpl =>
      obtain ⟨s', hs', he⟩ := Option.map_eq_some_iff.mp hs
      obtain ⟨-, rfl⟩ := Prod.mk.injEq .. ▸ he
      exact doIntrClock_account hs'
  | read | write | kernelStore =>
      obtain ⟨mem, rfl⟩ := exec_access rfl hs
      exact (add_zero _).symm

/-! ## Runs -/

/-- A clock interrupt. -/
def isTick (t : Kernel × (Op × Int) × Kernel) : Bool :=
  match t.2.1.1 with
  | .clock _ => true
  | _ => false

/-- A clock interrupt of process `i`, in user mode or in the kernel. -/
def isTickOf (i : Int) (user : Bool) (t : Kernel × (Op × Int) × Kernel) : Bool :=
  match t.2.1.1 with
  | .clock cpl => t.1.sched.procCurrent = i ∧ (cpl ≠ 0 ↔ user = true)
  | _ => false

theorem charged_sum (tr : List (Kernel × (Op × Int) × Kernel)) :
    (tr.map charged).sum = ((tr.countP isTick : Word), fun i =>
      ((tr.countP (isTickOf i true) : Word), (tr.countP (isTickOf i false) : Word))) := by
  induction tr with
  | nil => rfl
  | cons t tr ih =>
      rw [List.map_cons, List.sum_cons, ih]
      obtain ⟨k, ⟨op, r⟩, k'⟩ := t
      cases op with
      | clock cpl =>
          refine Prod.ext ?_ (funext fun i => ?_)
          · rw [List.countP_cons_of_pos rfl, Nat.cast_succ]
            exact add_comm _ _
          · simp only [List.countP_cons]
            show charge cpl k.sched.procCurrent i + _ = _
            by_cases hi : k.sched.procCurrent = i
            · subst hi
              by_cases hc : cpl = 0
              · simp [charge, isTickOf, hc, add_comm]
              · simp [charge, isTickOf, hc, add_comm]
            · simp [charge, isTickOf, hi]
      | _ => exact zero_add _

/-- All the time that has been charged. -/
def total (s : Sched) : Word :=
  ∑ i ∈ Finset.range NR_PROCS.toNat, ((s.times i).1 + (s.times i).2)

theorem sum_charge (cpl : Int) {p : Nat} (hp : p < NR_PROCS.toNat) :
    ∑ i ∈ Finset.range NR_PROCS.toNat, ((charge cpl p i).1 + (charge cpl p i).2) = 1 := by
  rw [Finset.sum_eq_single p (fun i _ hi => ?_) fun h => absurd (Finset.mem_range.mpr hp) h]
  · rw [charge, Pi.single_eq_same]
    split_ifs <;> rfl
  · rw [charge, Pi.single_eq_of_ne fun he => hi (Int.ofNat_inj.mp he)]
    rfl

/-- A clock interrupt is charged to a process of the table. -/
theorem step_total {e : Op × Int} (h : Ok L k) (hs : Step L k e k') :
    total k'.sched - k'.sched.jiffies = total k.sched - k.sched.jiffies := by
  have hacc := step_account h hs
  have hj : k'.sched.jiffies = k.sched.jiffies + (charged (k, e, k')).1 := congrArg Prod.fst hacc
  have ht : k'.sched.times = k.sched.times + (charged (k, e, k')).2 := congrArg Prod.snd hacc
  have htotal : total k'.sched = total k.sched + ∑ i ∈ Finset.range NR_PROCS.toNat,
      (((charged (k, e, k')).2 i).1 + ((charged (k, e, k')).2 i).2) := by
    rw [total, total, ht, ← Finset.sum_add_distrib]
    refine Finset.sum_congr rfl fun i _ => ?_
    rw [Pi.add_apply, Prod.fst_add, Prod.snd_add]
    ring
  obtain ⟨cur, hcur⟩ := h.queues.sched.current
  obtain ⟨h0, hlt, -⟩ := h.queues.sched.table _ _ hcur
  obtain ⟨op, r⟩ := e
  have hsum : ∑ i ∈ Finset.range NR_PROCS.toNat, (((charged (k, (op, r), k')).2 i).1 +
      ((charged (k, (op, r), k')).2 i).2) = (charged (k, (op, r), k')).1 := by
    cases op with
    | clock cpl =>
        obtain ⟨p, hp⟩ := Int.eq_ofNat_of_zero_le h0
        have hsum := sum_charge cpl (p := p) (by omega)
        rw [← hp] at hsum
        exact hsum
    | _ => exact Finset.sum_eq_zero fun _ _ => rfl
  rw [htotal, hsum, hj]
  exact add_sub_add_right_eq_sub ..

/-- **The clock's accounts.** In every run `jiffies` goes up by the number of clock interrupts, and
`utime` and `stime` of a process by the number of those that have interrupted it in user mode and in
the kernel, as 32-bit numbers; so the times of all processes go up by as much as `jiffies`. -/
theorem clock_accounted {k₀ : Kernel} {tr₀ tr : List (Kernel × (Op × Int) × Kernel)}
    (h₀ : Start k₀) (hr₀ : Run (Step L) k₀ tr₀ k) (hr : Run (Step L) k tr k') :
    k'.sched.jiffies = k.sched.jiffies + tr.countP isTick ∧
    (∀ i pr pr', k.sched.proc i = some pr → k'.sched.proc i = some pr' →
      pr'.utime = pr.utime + tr.countP (isTickOf i true) ∧
        pr'.stime = pr.stime + tr.countP (isTickOf i false)) ∧
    total k'.sched - total k.sched = k'.sched.jiffies - k.sched.jiffies := by
  have hok : Ok L k := run_ok h₀ hr₀
  have hacc := hr.account (I := Ok L) (f := fun k => k.sched.account) (d := charged) hok
    fun h hs => ⟨(step_cases h hs).1, step_account h hs⟩
  rw [charged_sum] at hacc
  have htotal := hr.account (I := Ok L) (f := fun k => total k.sched - k.sched.jiffies)
    (d := fun _ => 0) hok fun h hs => ⟨(step_cases h hs).1, (step_total h hs).trans (by simp)⟩
  refine ⟨congrArg Prod.fst hacc, fun i pr pr' hp hp' => ?_, ?_⟩
  · have hi := congrFun (congrArg Prod.snd hacc) i
    simp only [Sched.account, times, hp, hp', Pi.add_apply, Prod.mk_add_mk,
      Prod.mk.injEq] at hi
    exact hi
  · simp only [List.map_const', List.sum_replicate, smul_zero, add_zero] at htotal
    exact sub_eq_sub_iff_sub_eq_sub.mp htotal

/-- Processes 1 and 2 are interrupted in user mode, ten times and once. -/
theorem clock_accounted_users : ∃ tr k, Run (Step (stackLayout 0x18000)) users tr k ∧
    k.sched.procCurrent = 2 ∧ k.sched.jiffies = 12 ∧ tr.countP (isTickOf 1 true) = 10 ∧
    k.sched.proc 1 = some ⟨3, 0, 0, 1, 10, 0⟩ := by
  have hex : (execs 0 (stackLayout 0x18000) (List.replicate 12 (.clock 3)) users).map
      (fun r => (r.2.sched.procCurrent, r.1.countP isTick, r.1.countP (isTickOf 1 true),
        r.2.sched.proc 1)) = some (2, 12, 10, some ⟨3, 0, 0, 1, 10, 0⟩) := by decide +kernel
  obtain ⟨⟨tr, k⟩, hk, he⟩ := Option.map_eq_some_iff.mp hex
  simp only [Prod.mk.injEq] at he
  obtain ⟨hcur, hticks, hticks₁, hproc⟩ := he
  have hr := execs_run hk
  obtain ⟨hj, -, -⟩ := clock_accounted users_start.toStart .nil hr
  refine ⟨tr, k, hr, hcur, ?_, hticks₁, hproc⟩
  rw [hj, hticks]
  rfl

end Mks.Kernel
