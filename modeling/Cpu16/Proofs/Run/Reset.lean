import Cpu16.Proofs.Run.History
import Cpu16.Proofs.Run.Twin

set_option relaxedAutoImplicit false
set_option autoImplicit false

/-!
# A reset makes a new machine

A host that has loaded a program may step and run the machine, and may edit its registers, its
status and its memory, in any order. Unless it loads again, a reset makes of the machine what it was
right after the load: nothing that happened since then can touch the baseline, and everything but
the baseline and the instruction count is overwritten. The count goes on, but it plays no role, so
that the machine takes the same course from the reset on as a new one.

## Main definitions

* `Cpu16.HostAct` — a `Cpu16.HostOp`, or an edit of what only the machine itself sets otherwise.
* `Cpu16.Machine.Holds` — a machine holds a program.

## Main results

* `Cpu16.HostAct.invariant_of_applyAll` — what every act keeps, a history keeps.
* `Cpu16.Machine.Holds.applyAll` — a machine goes on to hold its program whatever a host does.
* `Cpu16.Machine.Holds.reset_eq` — a reset makes a new machine, except for the count.
* `Cpu16.reset_reproduces` — runs from a reset on can be reproduced.
-/

universe u v w

namespace Cpu16

/-! ## What a host may do besides -/

/-- What a host may do to a machine, with the edits of those fields that the machine itself keeps in
order otherwise. -/
inductive HostAct : Type (u + 1)
  | host (op : HostOp.{u})
  | setPc (value : Word)
  | setSp (value : Word)
  | setStatus (status : Status)
  | setFaultPc (pc : Option Word)

namespace HostAct

/-- The machine after an act. Nothing is answered for a run that does not end. -/
def apply : HostAct.{u} → Machine → Option Machine
  | host op, m => op.apply m
  | setPc value, m => some (m.setPc value)
  | setSp value, m => some { m with regs := { m.regs with sp := value } }
  | setStatus status, m => some { m with status := status }
  | setFaultPc pc, m => some { m with faultPc := pc }

/-- The machine after some acts, one after another. -/
def applyAll : List HostAct.{u} → Machine → Option Machine
  | [], m => some m
  | act :: acts, m => (act.apply m).bind (applyAll acts)

/-- **What every act keeps, a history keeps.**

**Proof sketch.** Induction on the acts. -/
theorem invariant_of_applyAll {P : Machine → Prop} {acts : List HostAct.{u}} {m m' : Machine}
    (h : applyAll acts m = some m') (hm : P m)
    (hact : ∀ act ∈ acts, ∀ {m m' : Machine}, act.apply m = some m' → P m → P m') : P m' := by
  induction acts generalizing m with
  | nil =>
    obtain rfl := Option.some.inj h
    exact hm
  | cons act acts ih =>
    obtain ⟨m₁, hfirst, hrest⟩ := Option.bind_eq_some_iff.mp h
    exact ih hrest (hact act List.mem_cons_self hfirst hm)
      fun act' hmem => hact act' (List.mem_cons_of_mem _ hmem)

/-- Whether the act is one of the two loads. -/
def isLoad : HostAct.{u} → Bool
  | host op => op.isLoad
  | setPc _ | setSp _ | setStatus _ | setFaultPc _ => false

end HostAct

/-! ## Machines that hold a program -/

/-- The machine holds the program `ws`: a reset will restore it, and there is room for it in live
memory. -/
structure Machine.Holds (m : Machine) (ws : Array Word) : Prop where
  /-- The baseline is the image of the program. -/
  baseline : m.baseline = Image.ofWords spaceSize ws
  /-- Live memory fills the address space. -/
  memory : m.memory.size = spaceSize

/-- No operation of a host changes the length of a memory that fills the address space. -/
theorem HostOp.size_memory_apply {op : HostOp.{u}} {m m' : Machine} (h : op.apply m = some m')
    (hm : m.memory.size = spaceSize) : m'.memory.size = spaceSize := by
  refine invariant_of_apply (P := fun m' => m'.memory.size = spaceSize) h hm
    (fun _ image => image.size_toArray) m.baseline.size_toArray (fun _ hsize => hsize.trans hm)
    (fun _ _ _ => hm) ?_ ?_
  · intro σ dev sink s
    exact (size_memory_step rfl).trans hm
  · intro ε dev sink n s
    exact (size_memory_machineAfter dev sink n m.enterRun s).trans hm

namespace Machine.Holds

variable {m m' : Machine} {ws : Array Word}

/-- A new machine holds its program. -/
theorem ofProgram (ws : Array Word) : (Machine.ofProgram ws).Holds ws where
  baseline := rfl
  memory := (Sound.of_reset _).memory

/-- Whatever a host does, a machine goes on to hold its program, unless another one is loaded. -/
theorem apply {act : HostAct.{u}} (hm : m.Holds ws) (h : act.apply m = some m')
    (hact : act.isLoad = false) : m'.Holds ws := by
  cases act with
  | host op =>
    exact ⟨(HostOp.baseline_apply h hact).trans hm.baseline, HostOp.size_memory_apply h hm.memory⟩
  | setPc | setSp | setStatus | setFaultPc =>
    obtain rfl := Option.some.inj h
    exact ⟨hm.baseline, hm.memory⟩

/-- **Whatever a host does**, in any order, a machine goes on to hold its program. -/
theorem applyAll {acts : List HostAct.{u}} (hm : m.Holds ws)
    (h : HostAct.applyAll acts m = some m') (hacts : ∀ act ∈ acts, act.isLoad = false) :
    m'.Holds ws :=
  HostAct.invariant_of_applyAll (P := fun m => m.Holds ws) h hm
    fun act hmem _ _ hact hm => hm.apply hact (hacts act hmem)

/-- The copy of the baseline over live memory is possible, and makes the memory of a reset. -/
theorem overwrite?_eq (hm : m.Holds ws) :
    m.memory.overwrite? m.baseline.toArray = some m.reset.memory :=
  if_pos (hm.memory.trans m.baseline.size_toArray.symm)

/-- **A reset makes a new machine**, except for the count, which goes on. -/
theorem reset_eq (hm : m.Holds ws) : m.reset = { Machine.ofProgram ws with count := m.count } := by
  unfold reset
  rw [hm.baseline]
  rfl

/-- A reset machine is a new one with the same program, but for its count. -/
theorem reset_eq_shiftCount (hm : m.Holds ws) :
    m.reset = (Machine.ofProgram ws).shiftCount m.count := by
  have hcount : (Machine.ofProgram ws).count + m.count = m.count := BitVec.zero_add _
  unfold shiftCount
  rw [hcount, hm.reset_eq]

end Machine.Holds

/-! ## Reproducible runs -/

/-- **A reset makes runs reproducible.** Let a host do anything to a machine with a program, in any
order, except for another load. Then a reset can copy the baseline over live memory, and it makes a
machine that is the new one in everything but the instruction count, which it keeps; a second reset
changes nothing. And any number of steps from there on takes the same course as from the new
machine, if the devices give the same answers: with the same outcomes, the same machines except for
the count, the same calls of the device, and the same reports except that all counts are ahead by
the count at the reset.

**Proof sketch.** The machine still holds its program (`Machine.Holds.applyAll`), so the reset makes
the new machine with another count (`Machine.Holds.reset_eq_shiftCount`). The count plays no role
(`sameCourse_shiftCount`). -/
theorem reset_reproduces {acts : List HostAct.{u}} {ws : Array Word} {m : Machine}
    (hacts : ∀ act ∈ acts, act.isLoad = false)
    (h : HostAct.applyAll acts (.ofProgram ws) = some m) :
    m.memory.overwrite? m.baseline.toArray = some m.reset.memory ∧
      m.reset = { Machine.ofProgram ws with count := m.count } ∧
      m.reset.reset = m.reset ∧
      ∀ {σ : Type v} {τ : Type w} (dev : Device σ) (dev' : Device τ) (sink : Sink σ)
        (sink' : Sink τ) (s : σ) (s' : τ) (n : Nat),
        SameAnswers (callsTimes dev sink n m.reset s)
          (callsTimes dev' sink' n (.ofProgram ws) s') →
        SameCourse m.count dev sink m.reset s dev' sink' (.ofProgram ws) s' n := by
  have hm : m.Holds ws := (Machine.Holds.ofProgram ws).applyAll h hacts
  refine ⟨hm.overwrite?_eq, hm.reset_eq, rfl, ?_⟩
  intro σ τ dev dev' sink sink' s s' n hanswers
  rw [hm.reset_eq_shiftCount] at hanswers ⊢
  exact sameCourse_shiftCount hanswers

/-- A host that has a `push` executed, writes over the `push`, and moves the program counter
back. -/
def HostAct.pushAndEdit : List HostAct.{0} :=
  [.host (.step Device.silent Sink.ignore ()), .host (.write 0 0xFFFF), .setPc 0,
    .setStatus .halted]

/-- After a reset the `push` is executed as it was the first time. -/
theorem reset_reproduces_pushAndEdit :
    ∃ m, HostAct.applyAll HostAct.pushAndEdit (.ofProgram #[0x1400, 0x3C00]) = some m ∧
      SameCourse m.count Device.silent Sink.ignore m.reset () Device.silent Sink.ignore
        (.ofProgram #[0x1400, 0x3C00]) () 2 := by
  have hacts : ∀ act ∈ HostAct.pushAndEdit, act.isLoad = false := by
    simp [HostAct.pushAndEdit, HostAct.isLoad, HostOp.isLoad]
  have h : HostAct.applyAll HostAct.pushAndEdit (.ofProgram #[0x1400, 0x3C00]) = some _ := rfl
  have hm := (Machine.Holds.ofProgram #[0x1400, 0x3C00]).applyAll h hacts
  refine ⟨_, h, (reset_reproduces hacts h).2.2.2 _ _ _ _ _ _ _ ?_⟩
  rw [hm.reset_eq_shiftCount, (stepTimes_shiftCount_ignore Device.silent 2 _ ()).2.2]
  exact .refl _

end Cpu16
