import Cpu16.Proofs.Run.Program
import Cpu16.Proofs.Run.Refinement

set_option relaxedAutoImplicit false
set_option autoImplicit false

/-!
# Multiplication by a counted loop

A program that adds one number up as often as a counter is counted down. The counter wraps around,
so the loop is gone through 2^16 times if it starts at zero, and the sum wraps around, so it is the
product modulo 2^16 in any case.

## Main definitions

* `Cpu16.countedLoop` — the program, and `Cpu16.CountedLoop.rounds`, how often it goes through its
  loop.
* `Cpu16.CountedLoop.Holds` — the state of the program after a number of steps.
* `Cpu16.CountedLoop.Multiplies` — what the answer of its run is.

## Main results

* `Cpu16.CountedLoop.Holds.round` — what one round of the loop does.
* `Cpu16.CountedLoop.holds_rounds` — the loop invariant.
* `Cpu16.CountedLoop.run_multiplies` — the run of the program.
-/

universe u

namespace Cpu16

/-- The program `loadn R0, n; loadn R2, k; add R1, R1, R2; dec R0; jnz 4; halt`, of which the loop
is at addresses 4 to 7. -/
def countedLoop (n k : Word) : Array Word :=
  #[0xE000, n, 0xE100, k, 0x8094, 0x9040, 0x0900, 4, 0x3C00]

example : [0xE000, 0xE100, 0x8094, 0x9040, 0x0900, 0x3C00].filterMap
    (fun w => (Instruction.decode w).toOption.map (·.text)) =
      ["loadn R0", "loadn R2", "add R1, R1, R2", "dec R0", "jnz", "halt"] := by decide +kernel

namespace CountedLoop

/-! ## The number of rounds -/

/-- How often the loop is gone through if the counter starts at `n`. -/
def rounds (n : Word) : Nat :=
  if n = 0 then 0x10000 else n.toNat

/-- The loop makes at least one round: it tests its counter after the first one. -/
theorem rounds_pos (n : Word) : 0 < rounds n := by
  unfold rounds
  split <;> bv_omega

/-- The loop makes no more rounds than a word has values. -/
theorem rounds_le (n : Word) : rounds n ≤ 0x10000 := by
  unfold rounds
  split <;> bv_omega

/-- The number of rounds is the start of the counter modulo 2^16. -/
theorem ofNat_rounds (n : Word) : BitVec.ofNat 16 (rounds n) = n := by
  unfold rounds
  split <;> bv_omega

/-- The counter is zero after the last round and not before. -/
theorem sub_ofNat_eq_zero_iff {n : Word} {i : Nat} (hpos : 0 < i) (hi : i ≤ rounds n) :
    n - BitVec.ofNat 16 i = 0 ↔ i = rounds n := by
  unfold rounds at hi ⊢
  split at hi <;> split <;> bv_omega

/-! ## One round -/

section Loop

variable {σ : Type u} {dev : Device σ} {sink : Sink σ} {n k : Word} {s : σ} {j : Nat}
  {pc a b c : Word}

/-- The machine after `j` steps within a run of the program. -/
def machineAt (dev : Device σ) (sink : Sink σ) (n k : Word) (s : σ) (j : Nat) : Machine :=
  machineAfter dev sink j (Machine.ofProgram (countedLoop n k)).enterRun s

/-- The outcome of step `j` within a run of the program. -/
def outcomeAt (dev : Device σ) (sink : Sink σ) (n k : Word) (s : σ) (j : Nat) : Outcome :=
  outcomeAfter dev sink j (Machine.ofProgram (countedLoop n k)).enterRun s

/-- After `j` steps, each of which let execution proceed, the program is at `pc`, with `a` in the
counter, `b` in the sum and `c` in the number that is added up. -/
structure Holds (dev : Device σ) (sink : Sink σ) (n k : Word) (s : σ) (j : Nat) (pc a b c : Word) :
    Prop where
  /-- Every step has let execution proceed. -/
  proceeds : ∀ i ≤ j, outcomeAt dev sink n k s i = .proceed
  /-- The program is at `pc`. -/
  isAt : (machineAt dev sink n k s j).IsAt (countedLoop n k) pc j
  /-- The counter is in the first register. -/
  counter : (machineAt dev sink n k s j).regs.get 0 = a
  /-- The sum is in the second register. -/
  sum : (machineAt dev sink n k s j).regs.get 1 = b
  /-- The number that is added up is in the third register. -/
  addend : (machineAt dev sink n k s j).regs.get 2 = c

/-- One more step. -/
theorem step_machineAt (dev : Device σ) (sink : Sink σ) (n k : Word) (s : σ) (j : Nat) :
    step dev sink (machineAt dev sink n k s j)
        (stepTimes dev sink j (Machine.ofProgram (countedLoop n k)).enterRun s).2.2 =
      (outcomeAt dev sink n k s (j + 1), machineAt dev sink n k s (j + 1),
        (stepTimes dev sink (j + 1) (Machine.ofProgram (countedLoop n k)).enterRun s).2.2) :=
  step_machineAfter dev sink j _ s

namespace Holds

/-- One more step that lets execution proceed. -/
theorem succ {pc' a' b' c' : Word} (h : Holds dev sink n k s j pc a b c)
    (ho : outcomeAt dev sink n k s (j + 1) = .proceed)
    (hat : (machineAt dev sink n k s (j + 1)).IsAt (countedLoop n k) pc' (j + 1))
    (ha : (machineAt dev sink n k s (j + 1)).regs.get 0 = a')
    (hb : (machineAt dev sink n k s (j + 1)).regs.get 1 = b')
    (hc : (machineAt dev sink n k s (j + 1)).regs.get 2 = c') :
    Holds dev sink n k s (j + 1) pc' a' b' c' := by
  refine ⟨fun i hi => ?_, hat, ha, hb, hc⟩
  rcases Nat.lt_or_eq_of_le hi with hlt | rfl
  · exact h.proceeds i (Nat.le_of_lt_succ hlt)
  · exact ho

/-- At the start all registers are zero. -/
theorem start : Holds dev sink n k s 0 0 0 0 0 where
  proceeds i hi := by
    obtain rfl := Nat.le_zero.mp hi
    rfl
  isAt := .enterRun (countedLoop n k)
  counter := rfl
  sum := rfl
  addend := rfl

/-- The counter is loaded. -/
theorem loadCounter (h : Holds dev sink n k s j 0 a b c) :
    Holds dev sink n k s (j + 1) 2 n b c := by
  have hf := h.isAt.fetch (i := ⟨.loadn, 0xE000⟩) (by decide) rfl rfl
  obtain ⟨ho, hat, hrd, hothers⟩ :=
    h.isAt.loadn (by decide) hf rfl (step_machineAt dev sink n k s j)
  exact h.succ ho hat hrd ((hothers 1 (by decide)).trans h.sum)
    ((hothers 2 (by decide)).trans h.addend)

/-- The number to add up is loaded. -/
theorem loadAddend (h : Holds dev sink n k s j 2 a b c) : Holds dev sink n k s (j + 1) 4 a b k := by
  have hf := h.isAt.fetch (i := ⟨.loadn, 0xE100⟩) (by decide) rfl rfl
  obtain ⟨ho, hat, hrd, hothers⟩ :=
    h.isAt.loadn (by decide) hf rfl (step_machineAt dev sink n k s j)
  exact h.succ ho hat ((hothers 0 (by decide)).trans h.counter)
    ((hothers 1 (by decide)).trans h.sum) hrd

/-- The number is added to the sum. -/
theorem add (h : Holds dev sink n k s j 4 a b c) : Holds dev sink n k s (j + 1) 5 a (b + c) c := by
  have hf := h.isAt.fetch (i := ⟨.add, 0x8094⟩) (by decide) rfl rfl
  have hz : Instruction.exactResult? ⟨.add, 0x8094⟩ (machineAt dev sink n k s j) =
      some ((b.toNat : Int) + c.toNat) := by
    rw [← h.sum, ← h.addend]
    rfl
  obtain ⟨ho, hat, hadd⟩ := h.isAt.arithmetic hf rfl hz (step_machineAt dev sink n k s j)
  have hsum : (machineAt dev sink n k s (j + 1)).regs.get 1 = b + c := by
    have hresult : (((machineAt dev sink n k s (j + 1)).regs.get 1).toNat : Int) = _ := hadd.result
    bv_omega
  exact h.succ ho hat ((hadd.others 0 (by decide)).trans h.counter) hsum
    ((hadd.others 2 (by decide)).trans h.addend)

/-- The counter is counted down, and the zero flag tells whether it has come to zero. -/
theorem countDown (h : Holds dev sink n k s j 5 a b c) :
    Holds dev sink n k s (j + 1) 6 (a - 1) b c ∧
      (machineAt dev sink n k s (j + 1)).regs.flag .zero = decide (a - 1 = 0) := by
  have hf := h.isAt.fetch (i := ⟨.incDec, 0x9040⟩) (by decide) rfl rfl
  have hz : Instruction.exactResult? ⟨.incDec, 0x9040⟩ (machineAt dev sink n k s j) =
      some ((a.toNat : Int) + -1) := by
    rw [← h.counter]
    rfl
  obtain ⟨ho, hat, hdec⟩ := h.isAt.arithmetic hf rfl hz (step_machineAt dev sink n k s j)
  have hcounter : (machineAt dev sink n k s (j + 1)).regs.get 0 = a - 1 := by
    have hresult : (((machineAt dev sink n k s (j + 1)).regs.get 0).toNat : Int) = _ := hdec.result
    bv_omega
  refine ⟨h.succ ho hat hcounter ((hdec.others 1 (by decide)).trans h.sum)
    ((hdec.others 2 (by decide)).trans h.addend), ?_⟩
  rw [← hcounter]
  exact hdec.zero

/-- The program goes back to the start of the loop unless the zero flag is set. -/
theorem jumpBack (h : Holds dev sink n k s j 6 a b c)
    (hzero : (machineAt dev sink n k s j).regs.flag .zero = decide (a = 0)) :
    Holds dev sink n k s (j + 1) (if a = 0 then 8 else 4) a b c := by
  have hf := h.isAt.fetch (i := ⟨.jmp, 0x0900⟩) (by decide) rfl rfl
  have htarget : (4 : Word) ≤ 0x7FFF := by decide
  obtain ⟨ho, hat, hsame⟩ := h.isAt.jump (c := .notZero) (by decide) hf rfl rfl htarget
    (step_machineAt dev sink n k s j)
  have hholds : Condition.notZero.holds (machineAt dev sink n k s j).regs.flagWord =
      !decide (a = 0) := by
    rw [← hzero]
    rfl
  have hpc : (if Condition.notZero.holds (machineAt dev sink n k s j).regs.flagWord then
      (countedLoop n k).getD ((6 : Word) + 1).toNat 0 else (6 : Word) + 2) =
        if a = 0 then 8 else 4 := by
    rw [hholds]
    by_cases ha : a = 0
    · rw [decide_eq_true ha, if_pos ha]
      rfl
    · rw [decide_eq_false ha, if_neg ha]
      rfl
  rw [hpc] at hat
  exact h.succ ho hat ((hsame 0).trans h.counter) ((hsame 1).trans h.sum) ((hsame 2).trans h.addend)

/-- **One round of the loop** adds the number to the sum and counts the counter down. It leaves the
loop if the counter has come to zero. -/
theorem round (h : Holds dev sink n k s j 4 a b c) :
    Holds dev sink n k s (j + 3) (if a - 1 = 0 then 8 else 4) (a - 1) (b + c) c := by
  obtain ⟨hcounted, hzero⟩ := h.add.countDown
  exact hcounted.jumpBack hzero

end Holds

/-! ## The loop -/

/-- **The loop invariant.** After `i` rounds the counter is `i` less than at its start, and the sum
is `i` times the number that is added up. The last of the rounds leaves the loop.

**Proof sketch.** Induction on the number of rounds; one round is `Holds.round`. A round leaves the
loop if the counter has come to zero, which it does after all rounds and not before
(`sub_ofNat_eq_zero_iff`). -/
theorem holds_rounds (dev : Device σ) (sink : Sink σ) (n k : Word) (s : σ) {i : Nat}
    (hi : i ≤ rounds n) :
    Holds dev sink n k s (2 + 3 * i) (if i = rounds n then 8 else 4) (n - BitVec.ofNat 16 i)
      (BitVec.ofNat 16 i * k) k := by
  induction i with
  | zero =>
    -- The two loads before the loop establish the invariant.
    have hstart : Holds dev sink n k s 0 0 0 0 0 := .start
    have hloaded := hstart.loadCounter.loadAddend
    have hpos := rounds_pos n
    rw [if_neg (by omega), BitVec.sub_zero, BitVec.zero_mul]
    exact hloaded
  | succ i ih =>
    have hbefore := ih (Nat.le_of_succ_le hi)
    -- A round is left, so the program is at the start of the loop.
    rw [if_neg (by omega)] at hbefore
    have hround := hbefore.round
    have hcounter : n - BitVec.ofNat 16 i - 1 = n - BitVec.ofNat 16 (i + 1) := by bv_omega
    have hsum : BitVec.ofNat 16 i * k + k = BitVec.ofNat 16 (i + 1) * k := by
      rw [BitVec.ofNat_add, BitVec.add_mul, BitVec.one_mul]
    rw [hcounter, hsum] at hround
    rwa [if_congr (sub_ofNat_eq_zero_iff (Nat.succ_pos i) hi) rfl rfl] at hround

/-- After all rounds the product has been computed, and the `halt` comes next. -/
theorem holds_last (dev : Device σ) (sink : Sink σ) (n k : Word) (s : σ) :
    Holds dev sink n k s (2 + 3 * rounds n) 8 0 (n * k) k := by
  have h := holds_rounds dev sink n k s (le_refl (rounds n))
  rwa [if_pos rfl, ofNat_rounds, BitVec.sub_self] at h

end Loop

/-! ## The run -/

/-- The answer `r` of the run of the program: `n` times `k` has been computed. -/
structure Multiplies {ε : Type u} (n k : Word) (r : RunResult × Machine × Session ε) : Prop where
  /-- The run ends on the `halt`, after three steps for each round and three more. -/
  ends : r.1 = ⟨3 * rounds n + 3, .stopped .halt⟩
  /-- The counter is zero. -/
  counter : r.2.1.regs.get 0 = 0
  /-- The sum is the product modulo 2^16. -/
  product : (r.2.1.regs.get 1).toNat = n.toNat * k.toNat % 0x10000
  /-- The number that was added up is still there. -/
  addend : r.2.1.regs.get 2 = k
  /-- The program counter is at the `halt`. -/
  pc : r.2.1.regs.pc = 8
  /-- The stack pointer is at its initial value. -/
  sp : r.2.1.regs.sp = stackTop
  /-- Every step has been counted. -/
  count : r.2.1.count.toNat = 3 * rounds n + 3
  /-- Live memory is as the baseline. -/
  memory : r.2.1.memory.words = r.2.1.baseline.toArray

/-- The end of the run is read off the machine that has halted. -/
theorem Multiplies.of_halted {ε : Type u} {n k : Word} {m : Machine} (t : Session ε)
    (hat : m.IsAt (countedLoop n k) 8 (3 * rounds n + 3)) (hcounter : m.regs.get 0 = 0)
    (hsum : m.regs.get 1 = n * k) (haddend : m.regs.get 2 = k) :
    Multiplies n k (⟨3 * rounds n + 3, .stopped .halt⟩, m.leaveRun, t) where
  ends := rfl
  counter := hcounter
  product := by
    rw [← BitVec.toNat_mul, ← hsum]
    rfl
  addend := haddend
  pc := hat.pc
  sp := hat.sp
  count := by
    have hle := rounds_le n
    have hcount := congrArg BitVec.toNat hat.count
    rwa [BitVec.toNat_ofNat, Nat.mod_eq_of_lt (by omega)] at hcount
  memory := by
    show m.memory.words = m.baseline.toArray
    rw [hat.memory, hat.baseline, Machine.ofProgram, Machine.memory_loadWords,
      Machine.baseline_loadWords]

/-- **The counted loop computes a product.** For all numbers, the run of the program on an idle
control, with the silent device and without a trace, ends with the product modulo 2^16, after three
steps for each round and three more.

**Proof sketch.** After the last round (`holds_last`) the next step is the `halt`, the first one
that does not let execution proceed (`run_of_proceeds`). -/
theorem run_multiplies {ε : Type u} (n k : Word) (s : Session ε) (hs : s.control.phase = .idle) :
    ∃ r,
      run Device.silent Sink.ignore (3 * rounds n + 3) (.ofProgram (countedLoop n k)) s = some r ∧
      Multiplies n k r := by
  have h := holds_last Device.silent Sink.ignore n k s.armed
  have hf := h.isAt.fetch (i := ⟨.halt, 0x3C00⟩) (by decide) rfl rfl
  obtain ⟨ho, hat, hsame⟩ := h.isAt.halt hf rfl
    (step_machineAt Device.silent Sink.ignore n k s.armed (2 + 3 * rounds n))
  have hn : 2 + 3 * rounds n + 1 = 3 * rounds n + 3 := by omega
  have hend : (outcomeAt Device.silent Sink.ignore n k s.armed (2 + 3 * rounds n + 1)).endsRun =
      true := by
    rw [ho]
    rfl
  have hphase : s.control.phase ≠ .cancelled := by
    rw [hs]
    decide
  have hrun :
      run Device.silent Sink.ignore (2 + 3 * rounds n + 1) (.ofProgram (countedLoop n k)) s =
        some (⟨2 + 3 * rounds n + 1, outcomeAt Device.silent Sink.ignore n k s.armed _⟩,
          (machineAt Device.silent Sink.ignore n k s.armed _).leaveRun, s.armed.finished) :=
    run_of_proceeds hphase h.proceeds hend
  rw [ho, hn] at hrun
  rw [hn] at hat hsame
  exact ⟨_, hrun, .of_halted _ hat ((hsame 0).trans h.counter) ((hsame 1).trans h.sum)
    ((hsame 2).trans h.addend)⟩

/-- Ten times three is thirty, after 33 steps. -/
theorem run_multiplies_tenTimesThree :
    ∃ r, run Device.silent Sink.ignore 33 (.ofProgram (countedLoop 10 3)) ⟨{}, ()⟩ = some r ∧
      r.1.steps = 33 ∧ r.2.1.regs.get 1 = 30 := by
  obtain ⟨r, hr, h⟩ := run_multiplies 10 3 ⟨{}, ()⟩ rfl
  exact ⟨r, hr, congrArg RunResult.steps h.ends, BitVec.eq_of_toNat_eq h.product⟩

end CountedLoop

end Cpu16
