import Cpu16.Proofs.Listing.Boundaries
import Cpu16.Proofs.Run.Refinement

set_option relaxedAutoImplicit false
set_option autoImplicit false

/-!
# Progress

A step goes on to a higher address, whether it succeeds or faults, unless it transfers control or
stops on a `halt`. At the end of memory nothing can be fetched, and every further step faults in the
same way. So a run without end must go back again and again, and one that goes back nowhere makes at
most as many steps as there are addresses from its start on.

Memory may be written at every step, the program included. It plays no role in the argument: each
instruction is judged when it is executed.

## Main definitions

* `Cpu16.GoesBack` — a step completes a jump, a call or a return to its own address or a lower one.
* `Cpu16.Makes` — a run makes a step, since it does not end before.

## Main results

* `Cpu16.pc_lt_of_faulted`, `Cpu16.pc_lt_of_proceeds` — progress in a step.
* `Cpu16.stepTimes_of_lastAddress_le` — nothing happens at the end of memory.
* `Cpu16.add_le_pc_machineAfter` — progress in some steps.
* `Cpu16.exists_run_of_not_goesBack` — a run that goes back nowhere ends.
* `Cpu16.progress` — all of it together.
* `Cpu16.run_nops` — the bound is reached.
-/

universe u v

namespace Cpu16

/-! ## One step -/

section Step

variable {σ : Type u} {dev : Device σ} {sink : Sink σ} {m m' : Machine} {s s' : σ} {o : Outcome}

/-- The program counter past an instruction is higher, as long as there is an address left. -/
theorem lt_pcPast {pc w : Word} (hpc : pc < lastAddress) : pc < pcPast pc (wordSize w) := by
  have hlt := lt_lastAddress_iff.mp hpc
  have hone : 1 ≤ wordSize w := by
    unfold wordSize
    split <;> decide
  have hpast := toNat_pcPast pc (wordSize w)
  rw [BitVec.lt_def]
  omega

/-- **A step that faults makes progress** before the reserved address. -/
theorem pc_lt_of_faulted {f : Fault} (hm : m.memory.size = spaceSize)
    (hpc : m.regs.pc < lastAddress) (h : step dev sink m s = (.faulted f, m', s')) :
    m.regs.pc < m'.regs.pc := by
  rw [(faultTrail_of_step h).pc_eq_pcPast hm hpc]
  exact lt_pcPast hpc

/-- **A step that lets execution proceed makes progress** unless it transfers control. It has
started before the reserved address. -/
theorem pc_lt_of_proceeds (h : step dev sink m s = (o, m', s')) (ho : o.endsRun = false)
    (hback : ¬(m.Transfers o ∧ m'.regs.pc ≤ m.regs.pc)) :
    m.regs.pc < lastAddress ∧ m.regs.pc < m'.regs.pc := by
  rcases faulted_or_executed h with ⟨f, rfl, -, -⟩ | ⟨i, reply, hx⟩
  · exact absurd ho (by simp [Outcome.endsRun])
  obtain ⟨hpc, -, -⟩ := Machine.fetch_eq_ok_iff.mp hx.fetch
  refine ⟨hpc, ?_⟩
  by_cases hh : i.opcode = .halt
  · rw [(hx.stopped_of_halt hh).1] at ho
    exact absurd ho (by simp [Outcome.endsRun])
  cases ht : i.transfers m with
  | true =>
    have htransfers : m.Transfers o := ⟨hx.ne_faulted, i, hx.fetch, ht⟩
    exact BitVec.not_le.mp fun hle => hback ⟨htransfers, hle⟩
  | false =>
    rw [hx.pc_eq_pcPast ht hh]
    exact lt_pcPast hpc

/-- A step at the reserved address or past it only records that nothing can be fetched there. -/
theorem step_of_lastAddress_le (hpc : lastAddress ≤ m.regs.pc) :
    step dev sink m s = (.faulted .pcOutOfRange,
      { m with status := .faulted .pcOutOfRange, faultPc := some m.regs.pc },
      sink (.faulted .pcOutOfRange m.regs.pc) s) := by
  have hf : m.fetch = .error .pcOutOfRange :=
    Machine.fetch_eq_error_iff.mpr (.inl ⟨.inl hpc, rfl⟩)
  exact step_of_refused hf

end Step

/-! ## Some steps -/

section Steps

variable {σ : Type u} {dev : Device σ} {sink : Sink σ} {m : Machine} {s : σ} {n : Nat}

/-- **The end of memory is absorbing.** However many steps are made there, each faults in the same
way, and nothing changes but the record of it. -/
theorem stepTimes_of_lastAddress_le (hpc : lastAddress ≤ m.regs.pc) (n : Nat) :
    outcomeAfter dev sink (n + 1) m s = .faulted .pcOutOfRange ∧
      machineAfter dev sink (n + 1) m s =
        { m with status := .faulted .pcOutOfRange, faultPc := some m.regs.pc } := by
  induction n with
  | zero =>
    have hstep := @step_of_lastAddress_le σ dev sink m s hpc
    exact ⟨congrArg (·.1) hstep, congrArg (·.2.1) hstep⟩
  | succ n ih =>
    have hpc' : lastAddress ≤ (machineAfter dev sink (n + 1) m s).regs.pc := by
      rw [ih.2]
      exact hpc
    have hstep := step_machineAfter dev sink (n + 1) m s
    rw [step_of_lastAddress_le hpc', ih.2] at hstep
    exact ⟨(congrArg (·.1) hstep).symm, (congrArg (·.2.1) hstep).symm⟩

/-- Step `k` from `m`, counted from zero, completes a jump or a call that is taken, or a return, and
this leads to the address of the instruction itself or to a lower one. -/
def GoesBack (dev : Device σ) (sink : Sink σ) (m : Machine) (s : σ) (k : Nat) : Prop :=
  (machineAfter dev sink k m s).Transfers (outcomeAfter dev sink (k + 1) m s) ∧
    (machineAfter dev sink (k + 1) m s).regs.pc ≤ (machineAfter dev sink k m s).regs.pc

/-- **Some steps make progress**, one address each, if all of them let execution proceed and none
goes back.

**Proof sketch.** Induction on the number of steps; one step is `pc_lt_of_proceeds`. -/
theorem add_le_pc_machineAfter
    (hgo : ∀ k < n, (outcomeAfter dev sink (k + 1) m s).endsRun = false)
    (hback : ∀ k < n, ¬GoesBack dev sink m s k) :
    m.regs.pc.toNat + n ≤ (machineAfter dev sink n m s).regs.pc.toNat := by
  induction n with
  | zero => exact le_rfl
  | succ n ih =>
    have hle := ih (fun k hk => hgo k (Nat.lt_succ_of_lt hk))
      fun k hk => hback k (Nat.lt_succ_of_lt hk)
    obtain ⟨-, hlt⟩ := pc_lt_of_proceeds (step_machineAfter dev sink n m s)
      (hgo n (Nat.lt_succ_self n)) (hback n (Nat.lt_succ_self n))
    rw [BitVec.lt_def] at hlt
    omega

/-- There are not as many such steps as there are addresses: the last one would have to start at
the reserved address or past it. -/
theorem exists_endsRun_or_goesBack (hpc : m.regs.pc ≤ lastAddress) :
    ∃ k < 0x8000 - m.regs.pc.toNat,
      (outcomeAfter dev sink (k + 1) m s).endsRun = true ∨ GoesBack dev sink m s k := by
  rw [le_lastAddress_iff] at hpc
  by_contra hnone
  push Not at hnone
  have hgo : ∀ k < 0x8000 - m.regs.pc.toNat,
      (outcomeAfter dev sink (k + 1) m s).endsRun = false :=
    fun k hk => Bool.eq_false_iff.mpr (hnone k hk).1
  have hback := fun k hk => (hnone k hk).2
  -- All steps but the last one bring the program counter to the reserved address.
  obtain ⟨n, hn⟩ : ∃ n, 0x8000 - m.regs.pc.toNat = n + 1 := ⟨0x7FFF - m.regs.pc.toNat, by omega⟩
  rw [hn] at hgo hback
  have hle := add_le_pc_machineAfter (fun k hk => hgo k (Nat.lt_succ_of_lt hk))
    fun k hk => hback k (Nat.lt_succ_of_lt hk)
  obtain ⟨hlt, -⟩ := pc_lt_of_proceeds (step_machineAfter dev sink n m s)
    (hgo n (Nat.lt_succ_self n)) (hback n (Nat.lt_succ_self n))
  rw [lt_lastAddress_iff] at hlt
  omega

end Steps

/-! ## Runs -/

section Run

variable {ε : Type u} {dev : Device (Session ε)} {sink : Sink (Session ε)} {m : Machine}
  {s : Session ε}

/-- The run makes step `k`, counted from zero: its control has no pending stop, and it does not end
before. -/
def Makes (dev : Device (Session ε)) (sink : Sink (Session ε)) (m : Machine) (s : Session ε)
    (k : Nat) : Prop :=
  s.control.phase ≠ .cancelled ∧ ∀ j, 1 ≤ j → j ≤ k → ¬EndsAfter dev sink m s.armed j

/-- **A run that goes back nowhere ends**, after at most as many steps as there are addresses from
its start on.

**Proof sketch.** Among so many steps there is one after which execution does not proceed, or that
goes back (`exists_endsRun_or_goesBack`). The run ends after the former; the latter it does not
make, so it ends before. -/
theorem exists_run_of_not_goesBack (hpc : m.regs.pc ≤ lastAddress)
    (h : ∀ k < 0x8000 - m.regs.pc.toNat, Makes dev sink m s k →
      ¬GoesBack dev sink m s.armed k) :
    ∃ r, run dev sink (0x8000 - m.regs.pc.toNat) m s = some r ∧
      r.1.steps ≤ 0x8000 - m.regs.pc.toNat := by
  by_cases hs : s.control.phase = .cancelled
  · exact ⟨_, run_of_cancelled hs, Nat.zero_le _⟩
  have hends : ∃ k, 1 ≤ k ∧ k ≤ 0x8000 - m.regs.pc.toNat ∧ EndsAfter dev sink m s.armed k := by
    -- Single steps go on where a run has ended; only those that the run makes count.
    obtain ⟨k, hk, hend | hback⟩ := @exists_endsRun_or_goesBack _ dev sink m s.armed hpc
    · exact ⟨k + 1, by omega, by omega, .inl hend⟩
    · by_contra hnone
      push Not at hnone
      exact h k hk ⟨hs, fun j hj hjk => hnone j hj (by omega)⟩ hback
  classical
  obtain ⟨hone, hle, hend⟩ := Nat.find_spec hends
  have hleast : IsLeast {k | 1 ≤ k ∧ EndsAfter dev sink m s.armed k} (Nat.find hends) := by
    refine ⟨⟨hone, hend⟩, fun j hj => ?_⟩
    by_contra hlt
    exact hlt (Nat.find_min' hends ⟨hj.1, by omega, hj.2⟩)
  exact ⟨_, (run_eq_some_iff hs).mpr ⟨_, hle, hleast, rfl⟩, hle⟩

/-- Two bounds that let a run end give the same answer. -/
theorem run_unique {fuel fuel' : Nat} {r r' : RunResult × Machine × Session ε}
    (h : run dev sink fuel m s = some r) (h' : run dev sink fuel' m s = some r') : r = r' := by
  have hmax := run_mono (Nat.le_max_left fuel fuel') h
  have hmax' := run_mono (Nat.le_max_right fuel fuel') h'
  exact Option.some.inj (hmax.symm.trans hmax')

/-- A run that makes more steps than there are addresses from its start on goes back in one of
them. -/
theorem exists_goesBack_of_lt_steps (hpc : m.regs.pc ≤ lastAddress) {fuel : Nat}
    {r : RunResult × Machine × Session ε} (hr : run dev sink fuel m s = some r)
    (hlt : 0x8000 - m.regs.pc.toNat < r.1.steps) :
    ∃ k < r.1.steps, GoesBack dev sink m s.armed k := by
  by_contra hnone
  push Not at hnone
  obtain ⟨r', hr', hle⟩ := exists_run_of_not_goesBack hpc
    fun k hk _ => hnone k (by omega)
  obtain rfl := run_unique hr hr'
  omega

/-- **Faults make progress, and runs that only go forward end.** In every memory that fills the
address space, for every device and sink: a step that faults before the reserved address moves the
program counter up, and from the reserved address on every further step faults and changes nothing
but the record of it. From a program counter in the address space, a run that makes more steps than
there are addresses from there on completes a jump, a call or a return to its own address or a lower
one; and a run that completes none before it ends makes at most that many steps. -/
theorem progress {σ : Type v} (hm : m.memory.size = spaceSize) (dev : Device σ) (sink : Sink σ)
    (s : σ) (dev' : Device (Session ε)) (sink' : Sink (Session ε)) (t : Session ε) :
    (m.regs.pc ≤ 0x7FFE → ∀ f m' s', step dev sink m s = (.faulted f, m', s') →
        m.regs.pc < m'.regs.pc) ∧
      (0x7FFF ≤ m.regs.pc → ∀ n, outcomeAfter dev sink (n + 1) m s = .faulted .pcOutOfRange ∧
        machineAfter dev sink (n + 1) m s =
          { m with status := .faulted .pcOutOfRange, faultPc := some m.regs.pc }) ∧
      (m.regs.pc ≤ 0x7FFF →
        (∀ fuel r, run dev' sink' fuel m t = some r → 0x8000 - m.regs.pc.toNat < r.1.steps →
          ∃ k < r.1.steps, GoesBack dev' sink' m t.armed k) ∧
        ((∀ k, Makes dev' sink' m t k → ¬GoesBack dev' sink' m t.armed k) →
          ∃ r, run dev' sink' (0x8000 - m.regs.pc.toNat) m t = some r ∧
            r.1.steps ≤ 0x8000 - m.regs.pc.toNat)) := by
  refine ⟨?_, ?_, ?_⟩
  · intro hpc f m' s' h
    have hlt : m.regs.pc < lastAddress := by
      rw [lt_lastAddress_iff]
      bv_omega
    exact pc_lt_of_faulted hm hlt h
  · intro hpc n
    exact stepTimes_of_lastAddress_le hpc n
  · intro hpc
    refine ⟨fun fuel r hr hlt => exists_goesBack_of_lt_steps hpc hr hlt, fun h => ?_⟩
    exact exists_run_of_not_goesBack hpc fun k _ => h k

end Run

/-! ## A memory of nops -/

section Nops

variable {σ : Type u} {dev : Device σ} {sink : Sink σ} {m m' : Machine} {s s' : σ} {o : Outcome}
  {n : Nat}

/-- A word of zeros is a `nop`. -/
theorem fetch_nops (hm : m.memory = Memory.zeros spaceSize) (hpc : m.regs.pc < lastAddress) :
    m.fetch = .ok ⟨.nop, 0⟩ := by
  have hlt := lt_lastAddress_iff.mp hpc
  refine Machine.fetch_eq_ok_iff.mpr ⟨hpc, ?_, rfl⟩
  simp only [hm, Memory.get?, Memory.zeros, spaceSize]
  rw [Array.getElem?_replicate, if_pos (by omega)]

/-- A step goes on to the next word. -/
theorem step_nops (hm : m.memory = Memory.zeros spaceSize) (hpc : m.regs.pc < lastAddress)
    (h : step dev sink m s = (o, m', s')) :
    o = .proceed ∧ m'.memory = m.memory ∧ m'.regs.pc = m.regs.pc + 1 := by
  have hf := fetch_nops hm hpc
  have hx : execute dev (Instruction.operation ⟨.nop, 0⟩) m (sink (.started m.regs.pc 0) s) =
      (.ok { nextPc := m.regs.pc + 1 }, sink (.started m.regs.pc 0) s) :=
    execute_of_goesOn hf rfl rfl rfl rfl
  rw [step_of_succeeded hf hx] at h
  obtain ⟨rfl, hm', -⟩ : _ ∧ _ ∧ _ := by simpa only [Prod.mk.injEq] using h
  rw [← hm']
  exact ⟨rfl, rfl, rfl⟩

/-- No step writes anything. -/
theorem memory_machineAfter_nops (hm : m.memory = Memory.zeros spaceSize) (n : Nat) :
    (machineAfter dev sink n m s).memory = Memory.zeros spaceSize := by
  induction n with
  | zero => exact hm
  | succ n ih =>
    have hstep := step_machineAfter dev sink n m s
    by_cases hpc : (machineAfter dev sink n m s).regs.pc < lastAddress
    · exact (step_nops ih hpc hstep).2.1.trans ih
    · rw [step_of_lastAddress_le (BitVec.not_lt.mp hpc)] at hstep
      exact (congrArg (·.2.1.memory) hstep).symm.trans ih

/-- No step goes back. -/
theorem not_goesBack_nops (hm : m.memory = Memory.zeros spaceSize) (k : Nat) :
    ¬GoesBack dev sink m s k := by
  rintro ⟨⟨-, i, hf, ht⟩, -⟩
  obtain ⟨hpc, -, -⟩ := Machine.fetch_eq_ok_iff.mp hf
  obtain rfl := Except.ok.inj (hf.symm.trans (fetch_nops (memory_machineAfter_nops hm k) hpc))
  exact absurd ht (by simp [Instruction.transfers])

/-- Each step goes from one word to the next, as long as there is one. -/
theorem pc_machineAfter_nops (hm : m.memory = Memory.zeros spaceSize)
    (hn : m.regs.pc.toNat + n ≤ 0x7FFF) :
    outcomeAfter dev sink n m s = .proceed ∧
      (machineAfter dev sink n m s).regs.pc.toNat = m.regs.pc.toNat + n := by
  induction n with
  | zero => exact ⟨rfl, rfl⟩
  | succ n ih =>
    obtain ⟨-, hpc⟩ := ih (by omega)
    have hlt : (machineAfter dev sink n m s).regs.pc < lastAddress := by
      rw [lt_lastAddress_iff]
      omega
    obtain ⟨ho, -, hpc'⟩ := step_nops (memory_machineAfter_nops hm n) hlt
      (step_machineAfter dev sink n m s)
    refine ⟨ho, ?_⟩
    rw [hpc']
    bv_omega

end Nops

/-- **The bound is reached.** In a memory of nops, with a device and a sink that do nothing, a run
makes one step for each address from its start on, and ends with a fault at the last one. -/
theorem run_nops {ε : Type u} {m : Machine} {s : Session ε} (hs : s.control.phase ≠ .cancelled)
    (hm : m.memory = Memory.zeros spaceSize) (hpc : m.regs.pc ≤ lastAddress) :
    ∃ r, run Device.silent Sink.ignore (0x8000 - m.regs.pc.toNat) m s = some r ∧
      r.1 = ⟨0x8000 - m.regs.pc.toNat, .faulted .pcOutOfRange⟩ := by
  rw [le_lastAddress_iff] at hpc
  obtain ⟨n, hn⟩ : ∃ n, 0x8000 - m.regs.pc.toNat = n + 1 := ⟨0x7FFF - m.regs.pc.toNat, by omega⟩
  rw [hn]
  have hgo : ∀ k ≤ n, outcomeAfter Device.silent Sink.ignore k m.enterRun s.armed = .proceed ∧
      (machineAfter Device.silent Sink.ignore k m.enterRun s.armed).regs.pc.toNat =
        m.regs.pc.toNat + k :=
    fun k hk => pc_machineAfter_nops (m := m.enterRun) hm (by
      show m.regs.pc.toNat + k ≤ 0x7FFF
      omega)
  have hlast : (outcomeAfter Device.silent Sink.ignore (n + 1) m.enterRun s.armed) =
      .faulted .pcOutOfRange := by
    have hle : lastAddress ≤
        (machineAfter Device.silent Sink.ignore n m.enterRun s.armed).regs.pc := by
      rw [BitVec.le_def, (hgo n le_rfl).2, toNat_lastAddress]
      omega
    have hstep := step_machineAfter Device.silent Sink.ignore n m.enterRun s.armed
    rw [step_of_lastAddress_le hle] at hstep
    exact (congrArg (·.1) hstep).symm
  have hend : (outcomeAfter Device.silent Sink.ignore (n + 1) m.enterRun s.armed).endsRun =
      true := by
    rw [hlast]
    rfl
  exact ⟨_, run_of_proceeds hs (fun k hk => (hgo k hk).1) hend, congrArg _ hlast⟩

/-- The machine without a program runs through all of its memory, and goes back nowhere. -/
theorem progress_initial :
    ∃ r, run Device.silent Sink.ignore 0x8000 Machine.initial ⟨{}, ()⟩ = some r ∧
      r.1.steps ≤ 0x8000 := by
  have hsize : Machine.initial.memory.size = spaceSize := Memory.size_zeros spaceSize
  obtain ⟨-, -, hruns⟩ := progress hsize Device.silent Sink.ignore () Device.silent Sink.ignore
    ⟨{}, ()⟩
  exact (hruns (by decide)).2 fun k _ => not_goesBack_nops rfl k

end Cpu16
