import Cpu16.Proofs.Run.Program
import Cpu16.Proofs.Stack.ReservedWord

set_option relaxedAutoImplicit false
set_option autoImplicit false

/-!
# Access to memory by the host and by the program

Live memory can be read and written in three ways each: by the host, by an instruction that has the
address in its operand word, and by one that has it in a register. They take different paths. The
host writes at once, while a store is staged first and committed after all checks have passed. Still
there is one operation of each kind: all three writes accept the same addresses and leave the same
memory, and a word that one of them has written is read in all three ways.

The ways differ only in where they can be used. An instruction with an operand word does not fit at
the end of the address space, and only the host reads the reserved word.

## Main definitions

* `Cpu16.Machine.Loads`, `Cpu16.Machine.Stores` — the next instruction loads from or stores at an
  address.
* `Cpu16.Machine.HasRoom` — the next instruction ends within the address space.
* `Cpu16.WritesAs` — what all writes of a word make of a memory.
* `Cpu16.ReadsAs` — what all reads find after a write.

## Main results

* `Cpu16.outcome_of_access` — how the step of a load or a store ends.
* `Cpu16.step_of_stores`, `Cpu16.step_of_loads` — what it makes of memory or of its register.
* `Cpu16.memory_accesses_agree` — the host and the program write and read alike.
-/

universe u

namespace Cpu16

namespace Machine

/-! ## Loads and stores -/

/-- The next instruction `i` loads its register from address `a`, which is in its operand word or in
a register. -/
structure Loads (m : Machine) (i : Instruction) (a : Word) : Prop where
  /-- It is the instruction at the program counter. -/
  fetch : m.fetch = .ok i
  /-- It loads from the address. -/
  address : i.loadAddress? m = some a

/-- The next instruction `i` stores a register with the word `v` at address `a`, which is in its
operand word or in a register. -/
structure Stores (m : Machine) (i : Instruction) (a v : Word) : Prop where
  /-- It is the instruction at the program counter. -/
  fetch : m.fetch = .ok i
  /-- It stores at the address. -/
  address : i.storeAddress? m = some a
  /-- It writes the word there. -/
  value : i.write? m = some (a, v)

/-- The instruction `i` at the program counter ends before the reserved address: it is at `0x7FFD`
or below if it takes two words, and at `0x7FFE` or below if it takes one. -/
def HasRoom (m : Machine) (i : Instruction) : Prop :=
  m.regs.pc.toNat + i.size ≤ lastAddress.toNat

/-- Whether an instruction has room can be computed. -/
instance (m : Machine) (i : Instruction) : Decidable (m.HasRoom i) :=
  inferInstanceAs (Decidable (_ ≤ _))

/-- One of the words of the instruction `i` at the program counter is at address `a`. -/
def Occupies (m : Machine) (i : Instruction) (a : Word) : Prop :=
  a = m.regs.pc ∨ (i.size = 2 ∧ a = m.regs.pc + 1)

/-- How the step of a load or a store with address `a` ends. The address is looked at before the end
of the address space. -/
def accessOutcome (m : Machine) (i : Instruction) (a : Word) : Outcome :=
  if a < lastAddress then
    if m.HasRoom i then .proceed else .faulted .pcOutOfRange
  else .faulted .invalidAddress

variable {m : Machine} {i : Instruction} {a v : Word}

/-- An instruction of one word that can be fetched has room. -/
theorem hasRoom_of_size (hf : m.fetch = .ok i) (hsize : i.size = 1) : m.HasRoom i := by
  obtain ⟨hpc, -, -⟩ := fetch_eq_ok_iff.mp hf
  have hlt := lt_lastAddress_iff.mp hpc
  rw [HasRoom, hsize, toNat_lastAddress]
  omega

/-- An instruction of two words that can be fetched has room but at the last address. -/
theorem hasRoom_iff_of_size (hf : m.fetch = .ok i) (hsize : i.size = 2) :
    m.HasRoom i ↔ m.regs.pc ≠ 0x7FFE := by
  obtain ⟨hpc, -, -⟩ := fetch_eq_ok_iff.mp hf
  have hlt := lt_lastAddress_iff.mp hpc
  rw [HasRoom, hsize, toNat_lastAddress, Ne, ← BitVec.toNat_inj]
  simp only [BitVec.reduceToNat]
  omega

/-- A load or a store below the reserved address is executed if it has room. -/
theorem accessOutcome_of_lt (ha : a < lastAddress) (hroom : m.HasRoom i) :
    m.accessOutcome i a = .proceed := by
  rw [accessOutcome, if_pos ha, if_pos hroom]

/-- An instruction is still fetched after a write elsewhere than in its own words. -/
theorem fetch_of_not_occupies (hf : m.fetch = .ok i) (ha : ¬m.Occupies i a) :
    ({ m with memory := m.memory.set a v } : Machine).fetch = .ok i := by
  obtain ⟨hpc, hw, ho⟩ := fetch_eq_ok_iff.mp hf
  refine fetch_eq_ok_iff.mpr ⟨hpc, ?_, ho⟩
  rw [Memory.get?_set, if_neg fun h => ha (.inl h.1.symm)]
  exact hw

/-- A load is the same load after a write elsewhere than in its own words. -/
theorem Loads.set {b : Word} (h : m.Loads i b) (ha : ¬m.Occupies i a) :
    ({ m with memory := m.memory.set a v } : Machine).Loads i b := by
  refine ⟨fetch_of_not_occupies h.fetch ha, ?_⟩
  have hb := h.address
  obtain ⟨opcode, w⟩ := i
  cases opcode
  case load =>
    have hne : m.regs.pc + 1 ≠ a := fun heq => ha (.inr ⟨rfl, heq.symm⟩)
    rw [← hb]
    show some (((m.memory.set a v).get? (m.regs.pc + 1)).getD 0) = _
    rw [Memory.get?_set, if_neg fun h => hne h.1]
    rfl
  case loadi => exact hb
  all_goals exact absurd hb.symm (Option.some_ne_none b)

/-- The host writes a word below the reserved address, and is refused elsewhere. -/
theorem write_eq (hm : m.memory.size = spaceSize) (a v : Word) :
    m.write a v =
      if a < lastAddress then .ok { m with memory := m.memory.set a v }
      else .error .invalidAddress := by
  unfold write
  by_cases ha : a < lastAddress
  · have hcheck : Access.data.check a = .ok () := Access.check_eq_ok_iff.mpr (decide_eq_true ha)
    have hcontains : m.memory.contains a = true :=
      decide_eq_true (toNat_lt_of_size hm (BitVec.le_of_lt ha))
    rw [hcheck, if_pos ha, Memory.write, if_pos hcontains]
    rfl
  · have hcheck : Access.data.check a = .error .invalidAddress :=
      Access.check_eq_error_iff.mpr ⟨decide_eq_false ha, rfl⟩
    rw [hcheck, if_neg ha]

end Machine

/-! ## One step -/

section Step

variable {σ : Type u} (dev : Device σ) (sink : Sink σ) {m : Machine} (s : σ) {i : Instruction}
  {a v : Word}

/-- The faults of a load and of a store are those of its address and of the end of the address
space. -/
theorem Instruction.firstFault_access (s : σ) (hf : m.fetch = .ok i)
    (ha : i.loadAddress? m = some a ∨ i.storeAddress? m = some a) :
    firstFault (i.faultRows dev m s) = (m.accessOutcome i a).fault? := by
  have hroom := Machine.hasRoom_of_size hf
  have hroom' := Machine.hasRoom_iff_of_size hf
  obtain ⟨opcode, w⟩ := i
  cases opcode <;> simp only [loadAddress?, storeAddress?, reduceCtorEq, Option.some.injEq,
    or_false, false_or] at ha
  case load | store =>
    subst ha
    specialize hroom' rfl
    show firstFault [(decide (0x7FFF ≤ _), _), (decide (_ = _), _)] = _
    unfold Machine.accessOutcome
    simp only [hroom', firstFault, decide_eq_true_eq, lastAddress, ← BitVec.not_lt, ne_eq, ite_not]
    split_ifs <;> rfl
  case loadi | storei =>
    subst ha
    specialize hroom rfl
    show firstFault [(decide (0x7FFF ≤ _), _)] = _
    unfold Machine.accessOutcome
    simp only [hroom, firstFault, decide_eq_true_eq, lastAddress, ← BitVec.not_lt, ite_not]
    split_ifs <;> rfl

/-- A load or a store that is executed lets execution go on. -/
theorem Executed.proceed_of_access {reply : Word} {m' : Machine} {o : Outcome}
    (h : Executed i reply m o m') (ha : i.loadAddress? m = some a ∨ i.storeAddress? m = some a) :
    o = .proceed := by
  rw [h.outcome]
  obtain ⟨opcode, w⟩ := i
  cases opcode
  case load | store | loadi | storei => rfl
  all_goals simp [Instruction.loadAddress?, Instruction.storeAddress?] at ha

/-- **How a load or a store ends**: with a fault if its address is not below the reserved one, or if
it has no room, and otherwise it is executed and execution may go on. -/
theorem outcome_of_access (hm : m.memory.size = spaceSize) (hf : m.fetch = .ok i)
    (ha : i.loadAddress? m = some a ∨ i.storeAddress? m = some a) :
    (step dev sink m s).1 = m.accessOutcome i a := by
  have hrows := Instruction.firstFault_access dev (sink (.started m.regs.pc i.word) s) hf ha
  have hfault : (step dev sink m s).1.fault? = (m.accessOutcome i a).fault? :=
    (fault?_step_of_fetch hm hf).trans hrows
  rcases hstep : step dev sink m s with ⟨o, m', s'⟩
  rw [hstep] at hfault
  cases hout : m.accessOutcome i a with
  | proceed =>
    rw [hout] at hrows
    obtain ⟨reply, hx⟩ := executed_of_fetch hm hf hrows hstep
    exact hx.proceed_of_access ha
  | faulted f =>
    rw [hout] at hfault
    cases o <;> cases hfault
    rfl
  | stopped reason =>
    unfold Machine.accessOutcome at hout
    split_ifs at hout

/-- **What a store does.** It leaves the word at its address, and nothing if it is refused. -/
theorem step_of_stores (hm : m.memory.size = spaceSize) (h : m.Stores i a v) :
    (step dev sink m s).1 = m.accessOutcome i a ∧
      (step dev sink m s).2.1.memory =
        if m.accessOutcome i a = .proceed then m.memory.set a v else m.memory := by
  have houtcome := outcome_of_access dev sink s hm h.fetch (.inr h.address)
  refine ⟨houtcome, ?_⟩
  rw [← houtcome]
  rcases hstep : step dev sink m s with ⟨o, m', s'⟩
  rcases faulted_or_executed hstep with ⟨f, rfl, hframe, -⟩ | ⟨j, reply, hx⟩
  · exact hframe.memory
  · obtain rfl : i = j := hx.eq_of_fetch h.fetch
    obtain rfl := hx.proceed_of_access (.inr h.address)
    exact (hx.memory_of_write? h.value).1

/-- **What a load does.** It delivers the word at its address, and nothing if it is refused. -/
theorem step_of_loads (hm : m.memory.size = spaceSize) (h : m.Loads i a) :
    (step dev sink m s).1 = m.accessOutcome i a ∧
      (step dev sink m s).2.1.regs.get i.rd =
        if m.accessOutcome i a = .proceed then m.memory.word a else m.regs.get i.rd := by
  have houtcome := outcome_of_access dev sink s hm h.fetch (.inl h.address)
  refine ⟨houtcome, ?_⟩
  rw [← houtcome]
  rcases hstep : step dev sink m s with ⟨o, m', s'⟩
  rcases faulted_or_executed hstep with ⟨f, rfl, hframe, -⟩ | ⟨j, reply, hx⟩
  · show m'.regs.get i.rd = m.regs.get i.rd
    rw [Registers.get, Registers.get, hframe.general]
  · obtain rfl : i = j := hx.eq_of_fetch h.fetch
    obtain rfl := hx.proceed_of_access (.inl h.address)
    exact hx.get_load h.address

end Step

/-! ## Writing and reading -/

section Agree

variable {σ : Type u} (dev : Device σ) (sink : Sink σ) (before : Memory) (a v : Word)
  (after : Memory)

/-- What every write of the word `v` at address `a` makes of the memory `before`: it becomes the
memory `after` if the address is below the reserved one, and else the write is refused. -/
structure WritesAs : Prop where
  /-- The host writes, and nothing else of the machine changes. -/
  host : ∀ m : Machine, m.memory = before →
    m.write a v = if a < lastAddress then .ok { m with memory := after } else .error .invalidAddress
  /-- A store that has room writes, wherever it is and whatever else the registers hold. -/
  store : ∀ m s i, m.memory = before → m.Stores i a v → m.HasRoom i →
    (step dev sink m s).1 = (if a < lastAddress then .proceed else .faulted .invalidAddress) ∧
      (step dev sink m s).2.1.memory = after
  /-- Memory is unchanged if the write is refused. -/
  refused : ¬a < lastAddress → after = before

/-- What every read finds in the memory `after` that was left by a write of the word `v` at address
`a` to the memory `before`. -/
structure ReadsAs : Prop where
  /-- The host reads the word at the address. -/
  host : ∀ m : Machine, m.memory = after → m.read a = .ok v
  /-- A load delivers it. -/
  load : ∀ m s i, m.memory = after → m.Loads i a → m.HasRoom i →
    (step dev sink m s).1 = .proceed ∧ (step dev sink m s).2.1.regs.get i.rd = v
  /-- A load that has no room cannot be executed, whatever its address. -/
  noRoom : ∀ m s i, m.memory = after → m.Loads i a → ¬m.HasRoom i →
    (step dev sink m s).1 = .faulted .pcOutOfRange
  /-- A load that is not at the address itself is still there. -/
  stays : ∀ (m : Machine) i b, m.memory = before → m.Loads i b → ¬m.Occupies i a →
    ({ m with memory := after } : Machine).Loads i b
  /-- Every other address is read by the host as before. -/
  hostElsewhere : ∀ (m : Machine) b, m.memory = before → b ≠ a →
    ({ m with memory := after } : Machine).read b = m.read b
  /-- Every other address is read by a load as before, or refused as before. -/
  loadElsewhere : ∀ m s i b, m.memory = before → m.Loads i b → ¬m.Occupies i a → b ≠ a →
    (step dev sink { m with memory := after } s).1 = (step dev sink m s).1 ∧
      (step dev sink { m with memory := after } s).2.1.regs.get i.rd =
        (step dev sink m s).2.1.regs.get i.rd

variable {before} {a}

/-- All writes below the reserved address leave the same memory. -/
theorem writesAs_of_lt (hb : before.size = spaceSize) (ha : a < lastAddress) :
    WritesAs dev sink before a v (before.set a v) where
  host m hm := by
    subst hm
    exact m.write_eq hb a v
  store m s i hm h hroom := by
    subst hm
    obtain ⟨houtcome, hmemory⟩ := step_of_stores dev sink s hb h
    have hproceed := Machine.accessOutcome_of_lt ha hroom
    rw [if_pos hproceed] at hmemory
    exact ⟨houtcome.trans (hproceed.trans (if_pos ha).symm), hmemory⟩
  refused hnot := absurd ha hnot

/-- All writes elsewhere are refused. -/
theorem writesAs_of_not_lt (hb : before.size = spaceSize) (ha : ¬a < lastAddress) :
    WritesAs dev sink before a v before where
  host m hm := by
    subst hm
    rw [m.write_eq hb a v, if_neg ha, if_neg ha]
  store m s i hm h _ := by
    subst hm
    obtain ⟨houtcome, hmemory⟩ := step_of_stores dev sink s hb h
    have hrefused : m.accessOutcome i a = .faulted .invalidAddress := if_neg ha
    rw [if_neg (by simp [hrefused])] at hmemory
    exact ⟨houtcome.trans (hrefused.trans (if_neg ha).symm), hmemory⟩
  refused _ := rfl

/-- After a write, all reads find its word at its address, and elsewhere what they found before. -/
theorem readsAs_of_lt (hb : before.size = spaceSize) (ha : a < lastAddress) :
    ReadsAs dev sink before a v (before.set a v) := by
  have hsize : (before.set a v).size = spaceSize := (before.size_set a v).trans hb
  have hat : (before.set a v).get? a = some v := by
    rw [Memory.get?_set, if_pos ⟨rfl, toNat_lt_of_size hb (BitVec.le_of_lt ha)⟩]
  have helse : ∀ b, b ≠ a → (before.set a v).get? b = before.get? b := by
    intro b hne
    rw [Memory.get?_set, if_neg fun h => hne h.1]
  constructor
  case host =>
    intro m hm
    rw [Machine.read, hm]
    exact Memory.read_eq_ok_iff.mpr hat
  case load =>
    intro m s i hm h hroom
    obtain ⟨houtcome, hvalue⟩ := step_of_loads dev sink s (hm ▸ hsize) h
    have hproceed := Machine.accessOutcome_of_lt ha hroom
    rw [if_pos hproceed, hm, Memory.word_eq_of_get? hat] at hvalue
    exact ⟨houtcome.trans hproceed, hvalue⟩
  case noRoom =>
    intro m s i hm h hroom
    rw [(step_of_loads dev sink s (hm ▸ hsize) h).1, Machine.accessOutcome, if_pos ha, if_neg hroom]
  case stays =>
    rintro m i b rfl h hnot
    exact h.set hnot
  case hostElsewhere =>
    rintro m b rfl hne
    rw [Machine.read, Machine.read, Memory.read, Memory.read, helse b hne]
  case loadElsewhere =>
    rintro m s i b rfl h hnot hne
    obtain ⟨houtcome, hvalue⟩ := step_of_loads dev sink s hb h
    obtain ⟨houtcome', hvalue'⟩ := step_of_loads dev sink s hsize (h.set hnot)
    -- The outcomes do not depend on memory, and the words there are the same.
    rw [houtcome, houtcome', hvalue, hvalue', Memory.word, Memory.word, helse b hne]
    exact ⟨rfl, rfl⟩

variable (a)

/-- **The host and the program write and read alike.** From a memory that fills the address space, a
write of a word by the host, by a store and by a store through a register is accepted at the same
addresses, those below the reserved one, and leaves the same memory. After it the host, a load and a
load through a register all read the word there, and what they read at every other address is as
before. -/
theorem memory_accesses_agree (hb : before.size = spaceSize) :
    ∃ after, WritesAs dev sink before a v after ∧
      (a < lastAddress → ReadsAs dev sink before a v after) := by
  by_cases ha : a < lastAddress
  · exact ⟨before.set a v, writesAs_of_lt dev sink v hb ha, fun _ => readsAs_of_lt dev sink v hb ha⟩
  · exact ⟨before, writesAs_of_not_lt dev sink v hb ha, fun h => absurd h ha⟩

end Agree

/-- A machine that stores its register 1 at address `0x0300`. -/
def Machine.storer : Machine :=
  { regs := { general := #v[0, 0x1234, 0, 0, 0, 0, 0, 0] }
    memory := ((Memory.zeros spaceSize).set 0 0xC480).set 1 0x0300 }

/-- The host can do the same to its memory. -/
theorem memory_accesses_agree_storer :
    ∃ after, Machine.storer.write 0x0300 0x1234 = .ok { Machine.storer with memory := after } ∧
      (step Device.silent Sink.ignore .storer ()).2.1.memory = after ∧
      ({ Machine.storer with memory := after } : Machine).read 0x0300 = .ok 0x1234 := by
  have hsize : Machine.storer.memory.size = spaceSize := by simp [Machine.storer]
  have hword : Machine.storer.memory.get? 0 = some 0xC480 := by
    simp [Machine.storer, Memory.get?_set, spaceSize]
  have hoperand : Machine.storer.memory.get? 1 = some 0x0300 := by
    simp [Machine.storer, Memory.get?_set, spaceSize]
  have hfetch : Machine.storer.fetch = .ok ⟨.store, 0xC480⟩ :=
    Machine.fetch_eq_ok_iff.mpr ⟨by decide, hword, rfl⟩
  have hstores : Machine.storer.Stores ⟨.store, 0xC480⟩ 0x0300 0x1234 := by
    have haddress : Machine.storer.memory.word (Machine.storer.regs.pc + 1) = 0x0300 :=
      Memory.word_eq_of_get? hoperand
    refine ⟨hfetch, congrArg some haddress, ?_⟩
    show some (Machine.storer.memory.word (Machine.storer.regs.pc + 1), _) = _
    rw [haddress]
    rfl
  obtain ⟨after, hwrites, hreads⟩ :=
    memory_accesses_agree Device.silent Sink.ignore 0x0300 0x1234 hsize
  exact ⟨after, hwrites.host .storer rfl, (hwrites.store .storer () _ rfl hstores (by decide)).2,
    (hreads (by decide)).host _ rfl⟩

/-- A machine at the last address that an instruction is fetched from, with a `load` from address
`0x0300` there. -/
def Machine.loadAtLast : Machine :=
  { regs := { pc := 0x7FFE }
    memory := ((Memory.zeros spaceSize).set 0x7FFE 0xC000).set 0x7FFF 0x0300 }

/-- The machine after the host has written a word at address `0x0300`. -/
def Machine.loadAtLastWritten : Machine :=
  { loadAtLast with memory := loadAtLast.memory.set 0x0300 0x1234 }

/-- Not every load delivers the word that the host has written at its address, even if none of its
own words is there: this one has no room. -/
theorem not_load_of_write_loadAtLast :
    Machine.loadAtLast.memory.size = spaceSize ∧
      Machine.loadAtLast.write 0x0300 0x1234 = .ok .loadAtLastWritten ∧
      Machine.loadAtLastWritten.Loads ⟨.load, 0xC000⟩ 0x0300 ∧
      ¬Machine.loadAtLastWritten.Occupies ⟨.load, 0xC000⟩ 0x0300 ∧
      (step Device.silent Sink.ignore .loadAtLastWritten ()).1 = .faulted .pcOutOfRange ∧
      (step Device.silent Sink.ignore .loadAtLastWritten ()).2.1.regs.get 0 = 0 := by
  have hsize : Machine.loadAtLast.memory.size = spaceSize := by simp [Machine.loadAtLast]
  have hsize' : Machine.loadAtLastWritten.memory.size = spaceSize := by
    simp [Machine.loadAtLastWritten, hsize]
  have hword : Machine.loadAtLast.memory.get? 0x7FFE = some 0xC000 := by
    simp [Machine.loadAtLast, Memory.get?_set, spaceSize]
  have hoperand : Machine.loadAtLast.memory.get? 0x7FFF = some 0x0300 := by
    simp [Machine.loadAtLast, Memory.get?_set, spaceSize]
  have hbefore : Machine.loadAtLast.Loads ⟨.load, 0xC000⟩ 0x0300 :=
    ⟨Machine.fetch_eq_ok_iff.mpr ⟨by decide, hword, rfl⟩,
      congrArg some (Memory.word_eq_of_get? hoperand)⟩
  have hnot : ∀ m : Machine, m.regs.pc = 0x7FFE → ¬m.Occupies ⟨.load, 0xC000⟩ 0x0300 := by
    rintro m hpc (h | ⟨-, h⟩) <;> rw [hpc] at h <;> exact absurd h (by decide)
  have hloads : Machine.loadAtLastWritten.Loads ⟨.load, 0xC000⟩ 0x0300 :=
    hbefore.set (v := 0x1234) (hnot _ rfl)
  have hfaults : Machine.loadAtLastWritten.accessOutcome ⟨.load, 0xC000⟩ 0x0300 =
      .faulted .pcOutOfRange := by
    rw [Machine.accessOutcome, if_pos (by decide), if_neg (by decide)]
  obtain ⟨houtcome, hvalue⟩ := step_of_loads Device.silent Sink.ignore () hsize' hloads
  rw [hfaults] at houtcome hvalue
  exact ⟨hsize, (Machine.write_eq hsize _ _).trans (if_pos (by decide)), hloads, hnot _ rfl,
    houtcome, hvalue.trans (if_neg Outcome.noConfusion)⟩

end Cpu16
