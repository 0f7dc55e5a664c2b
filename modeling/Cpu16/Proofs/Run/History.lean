import Cpu16.Proofs.Run.Refinement

set_option relaxedAutoImplicit false
set_option autoImplicit false

/-!
# Whatever a host does

A host loads programs, resets, edits words, registers and flags, and lets the machine step or run,
in any order. This file follows such a history of operations, and shows what holds of the machine
at the end of every one: the program counter and the stack pointer are in the address space, the
flag register has no bit without a meaning, and memory and baseline fill the address space. Nothing
but a load replaces the baseline.

## Main definitions

* `Cpu16.HostOp` — what a host may do; `HostOp.apply` does it, and `HostOp.applyAll` does one
  after another.
* `Cpu16.Memory.overwrite?` — the copy of an image over memory, for which the lengths must agree.
* `Cpu16.Machine.Sound` — what holds of every machine that a host can come to.

## Main results

* `Cpu16.Machine.Sound.step`, `Cpu16.Machine.Sound.machineAfter` — steps keep a machine sound,
  whether they succeed or fault.
* `Cpu16.HostOp.invariant_of_apply` — what an operation may come to.
* `Cpu16.Machine.Sound.apply` — everything that a host may do keeps a machine sound.
* `Cpu16.HostOp.baseline_apply` — only a load replaces the baseline.
* `Cpu16.sound_of_applyAll` — what a host can rely on after every history.
-/

universe u

namespace Cpu16

/-! ## What a host may do -/

/-- What a host may do to a machine. The steps and runs are each made with a device, a sink and a
world of their own. -/
inductive HostOp : Type (u + 1)
  | loadWords (ws : Array Word)
  /-- The image may be refused. -/
  | loadImage (bytes : Array Byte)
  | reset
  /-- The write may be refused. -/
  | write (a value : Word)
  /-- Change words of live memory in place. -/
  | patch (a : Word) (ws : Array Word)
  | setRegister (r : Register) (value : Word)
  | setFlags (value : Word)
  | step {σ : Type u} (dev : Device σ) (sink : Sink σ) (s : σ)
  /-- Run, for no more than `fuel` steps. -/
  | run {ε : Type u} (dev : Device (Session ε)) (sink : Sink (Session ε)) (fuel : Nat)
    (s : Session ε)

namespace HostOp

/-- The machine after an operation. What is refused leaves the machine as it is. Nothing is
answered for a run that does not end. -/
def apply : HostOp.{u} → Machine → Option Machine
  | loadWords ws, m => some (m.loadWords ws)
  | loadImage bytes, m => some ((m.loadImage bytes).toOption.getD m)
  | reset, m => some m.reset
  | write a value, m => some ((m.write a value).toOption.getD m)
  | patch a ws, m => some { m with memory := m.memory.patch a ws }
  | setRegister r value, m => some { m with regs := m.regs.set r value }
  | setFlags value, m => some { m with regs := m.regs.setFlagWord value }
  | step dev sink s, m => some (Cpu16.step dev sink m s).2.1
  | run dev sink fuel s, m => (Cpu16.run dev sink fuel m s).map fun r => r.2.1

/-- The machine after some operations, one after another. -/
def applyAll : List HostOp.{u} → Machine → Option Machine
  | [], m => some m
  | op :: ops, m => (op.apply m).bind (applyAll ops)

/-- Whether the operation is one of the two loads. -/
def isLoad : HostOp.{u} → Bool
  | loadWords _ | loadImage _ => true
  | _ => false

end HostOp

/-! ## Sound machines -/

/-- A step that faults never goes beyond the reserved address. -/
theorem FaultTrail.pc_le {m : Machine} {f : Fault} {pc : Word} {count : BitVec 64}
    {events : List Event} (h : FaultTrail m f pc count events) (hm : m.regs.pc ≤ 0x7FFF) :
    pc ≤ 0x7FFF := by
  cases h with
  | outOfRange hout => exact hm
  | unassigned hpc hw ho => bv_omega
  | failed hpc hw ho hpast => bv_omega

/-- The memory with all its words overwritten by those of `ws`. The copy is possible only if there
are as many of them. -/
def Memory.overwrite? (mem : Memory) (ws : Array Word) : Option Memory :=
  if mem.size = ws.size then some ⟨ws⟩ else none

namespace Machine

/-- What holds of every machine that a host can come to. -/
structure Sound (m : Machine) : Prop where
  /-- The program counter is in the address space. -/
  pc : m.regs.pc ≤ 0x7FFF
  /-- The stack pointer is in the address space. -/
  sp : m.regs.sp ≤ 0x7FFF
  /-- The flag register has no bit without a meaning. -/
  flags : m.regs.flagWord &&& ~~~Flags.activeMask = 0
  /-- Live memory fills the address space. -/
  memory : m.memory.size = 0x8000
  /-- The baseline fills the address space. -/
  baseline : m.baseline.toArray.size = 0x8000
  /-- A reset can copy the baseline over live memory. -/
  reset : m.memory.overwrite? m.baseline.toArray = some m.reset.memory
  /-- So can the reset at the end of a load, which copies the image that was loaded. -/
  load : ∀ image : Image spaceSize,
    m.memory.overwrite? image.toArray = some (m.load image).memory

/-- The word of a flag register has no bit outside the mask. -/
theorem flagWord_and_not_activeMask (m : Machine) :
    m.regs.flagWord &&& ~~~Flags.activeMask = 0 := by
  have hmask : m.regs.flagWord = m.regs.flagWord &&& Flags.activeMask := by
    rw [Registers.flagWord, ← Flags.toWord_ofWord, Flags.ofWord_toWord]
  rw [hmask, BitVec.and_assoc, BitVec.and_not_self]
  exact BitVec.and_zero

/-- A write by hand, refused or not, changes nothing but live memory, and not its length. -/
theorem exists_memory_of_write (m : Machine) (a value : Word) :
    ∃ memory : Memory, memory.size = m.memory.size ∧
      (m.write a value).toOption.getD m = { m with memory := memory } := by
  unfold Machine.write Memory.write
  cases Access.data.check a with
  | error f => exact ⟨m.memory, rfl, rfl⟩
  | ok _ =>
    by_cases hc : m.memory.contains a = true
    · rw [if_pos hc]
      exact ⟨m.memory.set a value, Memory.size_set _ _ _, rfl⟩
    · rw [if_neg hc]
      exact ⟨m.memory, rfl, rfl⟩

namespace Sound

variable {m m' : Machine}

/-- The flag register and the baseline cannot go wrong, so the rest is enough. -/
theorem of_inRange (hpc : m.regs.pc ≤ lastAddress) (hsp : m.regs.sp ≤ lastAddress)
    (hm : m.memory.size = spaceSize) : m.Sound where
  pc := hpc
  sp := hsp
  flags := m.flagWord_and_not_activeMask
  memory := hm
  baseline := m.baseline.size_toArray
  reset := if_pos (hm.trans m.baseline.size_toArray.symm)
  load image := if_pos (hm.trans image.size_toArray.symm)

/-- After a reset a machine is sound, whatever it was like before. -/
theorem of_reset (m : Machine) : m.reset.Sound := by
  have hpc : (0 : Word) ≤ lastAddress := by decide
  have hsp : stackTop ≤ lastAddress := by decide
  exact of_inRange hpc hsp m.baseline.size_toArray

/-- A new machine is sound. -/
theorem of_initial : initial.Sound :=
  of_inRange (by decide) (by decide) (Memory.size_zeros spaceSize)

/-- Live memory may be edited in any way that keeps its length. -/
theorem withMemory (h : m.Sound) {memory : Memory} (hsize : memory.size = m.memory.size) :
    Sound { m with memory := memory } :=
  of_inRange h.pc h.sp (hsize.trans h.memory)

/-- **A step keeps a machine sound.**

**Proof sketch.** If the step succeeds, the new program counter and stack pointer have been
checked. If it faults, the stack pointer is as before, and the program counter has gone on in one
of the ways of `FaultTrail`, none of which goes beyond the reserved address. -/
theorem step {σ : Type u} {dev : Device σ} {sink : Sink σ} {s s' : σ} {o : Outcome}
    (hs : m.Sound) (h : Cpu16.step dev sink m s = (o, m', s')) : m'.Sound := by
  have hsize : m'.memory.size = spaceSize := (size_memory_step h).trans hs.memory
  rcases faulted_or_executed h with ⟨f, -, hframe, htrail⟩ | ⟨i, reply, hx⟩
  · have hsp : m'.regs.sp ≤ lastAddress := by
      rw [hframe.sp]
      exact hs.sp
    exact of_inRange (htrail.pc_le hs.pc) hsp hsize
  · exact of_inRange hx.pc_le (hx.sp_le hs.sp) hsize

/-- Any number of steps keeps a machine sound. -/
theorem machineAfter {σ : Type u} (dev : Device σ) (sink : Sink σ) (h : m.Sound) (n : Nat)
    (s : σ) : (Cpu16.machineAfter dev sink n m s).Sound := by
  induction n with
  | zero => exact h
  | succ n ih => exact ih.step (step_machineAfter dev sink n m s)

end Sound

end Machine

/-! ## Runs as steps -/

/-- No number of steps changes the baseline. -/
theorem baseline_machineAfter {σ : Type u} (dev : Device σ) (sink : Sink σ) (n : Nat)
    (m : Machine) (s : σ) : (machineAfter dev sink n m s).baseline = m.baseline := by
  induction n with
  | zero => rfl
  | succ n ih => rw [baseline_step (step_machineAfter dev sink n m s), ih]

/-- A run that ends has made no step, and then the machine is the one before it, or some steps
within the run. -/
theorem steps_of_run {ε : Type u} {dev : Device (Session ε)} {sink : Sink (Session ε)}
    {fuel : Nat} {m : Machine} {s : Session ε} {r : RunResult × Machine × Session ε}
    (h : run dev sink fuel m s = some r) :
    (r.1.steps = 0 ∧ r.2.1 = m) ∨ ∃ n, r.1.steps = n + 1 ∧
      r.2.1 = (machineAfter dev sink (n + 1) m.enterRun s.armed).leaveRun := by
  by_cases hs : s.control.phase = .cancelled
  · rw [run_of_cancelled hs] at h
    obtain rfl := Option.some.inj h
    exact .inl ⟨rfl, rfl⟩
  · obtain ⟨n, -, hleast, rfl⟩ := (run_eq_some_iff hs).mp h
    obtain ⟨k, rfl⟩ : ∃ k, n = k + 1 := ⟨n - 1, by have := hleast.1.1; omega⟩
    exact .inr ⟨k, rfl, rfl⟩

/-- The machine after a run is the one before it, or one after some steps within the run. -/
theorem machine_of_run {ε : Type u} {dev : Device (Session ε)} {sink : Sink (Session ε)}
    {fuel : Nat} {m : Machine} {s : Session ε} {r : RunResult × Machine × Session ε}
    (h : run dev sink fuel m s = some r) :
    r.2.1 = m ∨ ∃ n, r.2.1 = (machineAfter dev sink n m.enterRun s.armed).leaveRun := by
  rcases steps_of_run h with ⟨-, heq⟩ | ⟨n, -, heq⟩
  · exact .inl heq
  · exact .inr ⟨n + 1, heq⟩

/-! ## Histories -/

namespace HostOp

/-- **What an operation may come to.** To see that it keeps something true of a machine, it is
enough to look at an image that is loaded, a reset, an edit of memory that keeps its length, an edit
of the registers that does not touch the program counter and the stack pointer, a step, and some
steps within a run. What is refused changes nothing.

**Proof sketch.** By cases on the operation. A write by hand that is refused counts as an edit that
changes no word (`Machine.exists_memory_of_write`); a run that a pending stop has kept from starting
leaves the machine alone (`machine_of_run`). -/
theorem invariant_of_apply {P : Machine → Prop} {op : HostOp.{u}} {m m' : Machine}
    (h : op.apply m = some m') (hm : P m)
    (hload : op.isLoad = true → ∀ image, P (m.load image)) (hreset : P m.reset)
    (hmemory : ∀ memory : Memory, memory.size = m.memory.size → P { m with memory := memory })
    (hregs : ∀ regs : Registers, regs.pc = m.regs.pc → regs.sp = m.regs.sp →
      P { m with regs := regs })
    (hstep : ∀ {σ : Type u} (dev : Device σ) (sink : Sink σ) (s : σ),
      P (Cpu16.step dev sink m s).2.1)
    (hrun : ∀ {ε : Type u} (dev : Device (Session ε)) (sink : Sink (Session ε)) (n : Nat)
      (s : Session ε), P (machineAfter dev sink n m.enterRun s).leaveRun) : P m' := by
  cases op with
  | loadWords ws =>
    obtain rfl := Option.some.inj h
    exact hload rfl _
  | loadImage bytes =>
    obtain rfl := Option.some.inj h
    unfold Machine.loadImage
    cases Image.decode spaceSize bytes with
    | error e => exact hm
    | ok image => exact hload rfl image
  | reset =>
    obtain rfl := Option.some.inj h
    exact hreset
  | write a value =>
    obtain rfl := Option.some.inj h
    obtain ⟨memory, hsize, heq⟩ := m.exists_memory_of_write a value
    rw [heq]
    exact hmemory memory hsize
  | patch a ws =>
    obtain rfl := Option.some.inj h
    exact hmemory _ (Memory.size_patch _ _ _)
  | setRegister r value =>
    obtain rfl := Option.some.inj h
    exact hregs _ rfl rfl
  | setFlags value =>
    obtain rfl := Option.some.inj h
    exact hregs _ rfl rfl
  | step dev sink s =>
    obtain rfl := Option.some.inj h
    exact hstep dev sink s
  | run dev sink fuel s =>
    obtain ⟨r, hr, rfl⟩ := Option.map_eq_some_iff.mp h
    rcases machine_of_run hr with heq | ⟨n, heq⟩
    · rw [heq]
      exact hm
    · rw [heq]
      exact hrun dev sink n s.armed

/-- **Only a load replaces the baseline.** This holds of every machine, sound or not. -/
theorem baseline_apply {op : HostOp.{u}} {m m' : Machine} (h : op.apply m = some m')
    (hop : op.isLoad = false) : m'.baseline = m.baseline := by
  refine invariant_of_apply (P := fun m' => m'.baseline = m.baseline) h rfl ?_ rfl
    (fun _ _ => rfl) (fun _ _ _ => rfl) ?_ ?_
  · intro hload
    rw [hop] at hload
    cases hload
  · intro σ dev sink s
    exact baseline_step rfl
  · intro ε dev sink n s
    exact baseline_machineAfter dev sink n m.enterRun s

end HostOp

/-- **Whatever a host does keeps a machine sound.**

**Proof sketch.** By what the operation may come to. A load and a reset make the machine sound even
if it was not; steps keep it so (`Machine.Sound.machineAfter`), and to be within a run says nothing
about the ranges. -/
theorem Machine.Sound.apply {op : HostOp.{u}} {m m' : Machine} (hs : m.Sound)
    (h : op.apply m = some m') : m'.Sound := by
  refine HostOp.invariant_of_apply h hs (fun _ _ => .of_reset _) (.of_reset m)
    (fun _ => hs.withMemory) ?_ ?_ ?_
  · intro regs hpc hsp
    exact .of_inRange (hpc ▸ hs.pc) (hsp ▸ hs.sp) hs.memory
  · intro σ dev sink s
    exact hs.step rfl
  · intro ε dev sink n s
    have henter : m.enterRun.Sound := .of_inRange hs.pc hs.sp hs.memory
    have hn := henter.machineAfter dev sink n s
    exact .of_inRange hn.pc hn.sp hn.memory

/-- A history keeps a machine sound.

**Proof sketch.** Induction on the operations; one operation is `Machine.Sound.apply`. -/
theorem Machine.Sound.applyAll {ops : List HostOp.{u}} {m m' : Machine} (hs : m.Sound)
    (h : HostOp.applyAll ops m = some m') : m'.Sound := by
  induction ops generalizing m with
  | nil =>
    obtain rfl := Option.some.inj h
    exact hs
  | cons op ops ih =>
    obtain ⟨m₁, hop, hops⟩ := Option.bind_eq_some_iff.mp h
    exact ih (hs.apply hop) hops

/-- **What a host can rely on.** A machine that was made without a program or with one, and with
which a host has done anything that a host may do, in any order, with any devices and sinks, is
sound. From there on again nothing but a load replaces the baseline. -/
theorem sound_of_applyAll {ops : List HostOp.{u}} {start m : Machine}
    (hstart : start = .initial ∨ ∃ ws, start = .ofProgram ws)
    (h : HostOp.applyAll ops start = some m) :
    m.Sound ∧ ∀ (op : HostOp.{u}) m', op.apply m = some m' → op.isLoad = false →
      m'.baseline = m.baseline := by
  have hs : start.Sound := by
    rcases hstart with rfl | ⟨ws, rfl⟩
    · exact .of_initial
    · exact .of_reset _
  exact ⟨hs.applyAll h, fun op m' hop hload => HostOp.baseline_apply hop hload⟩

/-- A host that loads a `push` and a `halt`, has the `push` executed, tries to load an image that is
too short, and resets. -/
def HostOp.pushAndReset : List HostOp.{0} :=
  [.loadWords #[0x1400, 0x3C00], .step Device.silent Sink.ignore (), .loadImage #[0x00], .reset]

/-- After that the machine is sound. -/
theorem sound_of_applyAll_pushAndReset :
    ∃ m, HostOp.applyAll HostOp.pushAndReset .initial = some m ∧ m.Sound := by
  have h : HostOp.applyAll HostOp.pushAndReset .initial = some _ := rfl
  exact ⟨_, h, (sound_of_applyAll (.inl rfl) h).1⟩

end Cpu16
