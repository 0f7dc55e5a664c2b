import Cpu16.Proofs.Run.Steps
import Cpu16.Proofs.Stack.Matching

set_option relaxedAutoImplicit false
set_option autoImplicit false

/-!
# The stack of the machine is a list

The stack of the machine is a pointer into memory. It grows downwards: a push writes at the
pointer and moves it down, and a pop moves it up and reads there. As long as a program leaves the
pointer to the stack operations, and stores nothing between the pointer and the place where it
started, the words there are a list, with a push for every push and a pop for every pop.

## Main definitions

* `Cpu16.Instruction.stackOp`, `Cpu16.stackOps` — what an instruction, and what each step of a run,
  does to the stack.
* `Cpu16.StackView` — the words between the stack pointer and an address are those of a list.
* `Cpu16.StackDiscipline` — a run leaves the stack to the stack operations.
* `Cpu16.RefinesList` — in every step of a run the stack is the list of the pending words.

## Main results

* `Cpu16.StackView.step` — a step does to the stack what its stack operation does to the list.
* `Cpu16.stackView_machineAfter` — so the stack is the list of pending words throughout a run.
* `Cpu16.stack_refinesList` — what a run with a disciplined use of the stack can rely on.
-/

universe u

namespace Cpu16

/-! ## What an instruction does to the stack -/

namespace Instruction

/-- What the instruction does to the stack. A call pushes the address after it if it is taken. -/
def stackOp (i : Instruction) (m : Machine) : StackOp :=
  match i.opcode with
  | .push => .push (if i.modeBit then m.regs.flagWord else m.regs.get i.rd)
  | .call => if i.isTaken m then .push (m.regs.pc + 2) else .keep
  | .pop | .rts => .pop
  | _ => .keep

/-- The address at which the instruction stores a register, if it is a store. -/
def storeAddress? (i : Instruction) (m : Machine) : Option Word :=
  match i.opcode with
  | .store => some (m.memory.word (m.regs.pc + 1))
  | .storei => some (m.regs.get i.rd)
  | _ => none

/-- Whether the instruction moves a register to the stack pointer. -/
def movesToStackPointer (i : Instruction) : Bool :=
  i.opcode = .mov && i.moveKind = .toStackPointer

variable {i : Instruction} {m : Machine}

/-- A push writes at the stack pointer and moves it down. -/
theorem effect_of_push {value : Word} (h : i.stackOp m = .push value) :
    i.spAfter m = m.regs.sp - 1 ∧ i.write? m = some (m.regs.sp, value) := by
  obtain ⟨o, w⟩ := i
  cases o with
  | push => exact ⟨rfl, by rw [← StackOp.push.inj h]; rfl⟩
  | call =>
    simp only [stackOp] at h
    by_cases ht : isTaken ⟨.call, w⟩ m = true
    · rw [if_pos ht] at h
      rw [← StackOp.push.inj h]
      exact ⟨if_pos ht, if_pos ht⟩
    · rw [if_neg ht] at h
      exact absurd h (by simp)
  | _ => exact absurd h (by simp [stackOp])

/-- A pop moves the stack pointer up and writes nothing. -/
theorem effect_of_pop (h : i.stackOp m = .pop) :
    i.spAfter m = m.regs.sp + 1 ∧ i.write? m = none := by
  obtain ⟨o, w⟩ := i
  cases o with
  | pop | rts => exact ⟨rfl, rfl⟩
  | call =>
    simp only [stackOp] at h
    split at h <;> exact absurd h (by simp)
  | _ => exact absurd h (by simp [stackOp])

/-- Only a push and a call that is taken put something on the stack. -/
theorem pushes_of_stackOp {value : Word} (h : i.stackOp m = .push value) :
    i.opcode = .push ∨ (i.opcode = .call ∧ i.isTaken m = true) := by
  obtain ⟨o, w⟩ := i
  cases o with
  | push => exact .inl rfl
  | call =>
    by_cases ht : isTaken ⟨.call, w⟩ m = true
    · exact .inr ⟨rfl, ht⟩
    · simp [stackOp, ht] at h
  | _ => exact absurd h (by simp [stackOp])

/-- Any other instruction leaves the stack pointer alone unless it moves a register there, and
writes nothing unless it is a store. -/
theorem effect_of_keep (h : i.stackOp m = .keep) (hmov : i.movesToStackPointer = false) :
    i.spAfter m = m.regs.sp ∧ ∀ a w, i.write? m = some (a, w) → i.storeAddress? m = some a := by
  obtain ⟨o, w⟩ := i
  cases o with
  | push | pop | rts => exact absurd h (by simp [stackOp])
  | call =>
    have ht : ¬isTaken ⟨.call, w⟩ m = true := by
      intro ht
      simp [stackOp, ht] at h
    refine ⟨if_neg ht, ?_⟩
    intro a v hw
    simp [write?, ht] at hw
  | mov =>
    have hk : ¬moveKind ⟨.mov, w⟩ = .toStackPointer := by
      simpa [movesToStackPointer] using hmov
    refine ⟨if_neg hk, ?_⟩
    intro a v hw
    simp [write?] at hw
  | store | storei =>
    refine ⟨rfl, ?_⟩
    intro a v hw
    obtain ⟨rfl, -⟩ := Prod.ext_iff.mp (Option.some.inj hw)
    rfl
  | _ =>
    refine ⟨rfl, ?_⟩
    intro a v hw
    simp [write?] at hw

end Instruction

namespace Executed

variable {i : Instruction} {reply : Word} {m m' : Machine} {o : Outcome}

/-- A push that succeeds writes at the stack pointer, which is neither zero nor outside the address
space. -/
theorem write_push (h : Executed i reply m o m') {value : Word}
    (hop : i.stackOp m = .push value) : i.write? m = some (m.regs.sp, value) ∧
      m'.regs.sp = m.regs.sp - 1 ∧ m.regs.sp ≠ 0 ∧ m.regs.sp ≤ lastAddress := by
  obtain ⟨hsp, hwrite⟩ := Instruction.effect_of_push hop
  obtain ⟨-, hle⟩ := h.memory_of_write? hwrite
  have hafter : m'.regs.sp = m.regs.sp - 1 := h.sp.trans hsp
  -- The new stack pointer has been checked, so the old one was not zero.
  have hnew := h.sp_le hle
  rw [hafter, le_lastAddress_iff] at hnew
  exact ⟨hwrite, hafter, by bv_omega, hle⟩

end Executed

/-- What the instruction at the program counter does to the stack. -/
def Machine.stackOp (m : Machine) : StackOp :=
  match m.fetch with
  | .ok i => i.stackOp m
  | .error _ => .keep

/-- The stack operation of a step is that of the instruction that is fetched. -/
theorem Machine.stackOp_of_fetch {m : Machine} {i : Instruction} (h : m.fetch = .ok i) :
    m.stackOp = i.stackOp m := by
  simp [stackOp, h]

/-! ## The stack between the stack pointer and an address -/

/-- The words of the stack: from the one above the stack pointer up to address `top`. -/
def Machine.stackWords (m : Machine) (top : Word) : List Word :=
  (m.memory.slice (m.regs.sp + 1) (top.toNat - m.regs.sp.toNat)).toList

/-- In a full memory, the words from the one above the stack pointer up to address `top` are those
of the list `stack`. -/
structure StackView (top : Word) (stack : List Word) (m : Machine) : Prop where
  /-- Memory fills the address space. -/
  size : m.memory.size = spaceSize
  /-- The stack pointer is as many words below `top` as the list has. -/
  sp : m.regs.sp.toNat + stack.length = top.toNat
  /-- Above the stack pointer is the word that the list starts with, and so on. -/
  get? : ∀ a, m.regs.sp < a → a ≤ top →
    m.memory.get? a = stack[a.toNat - m.regs.sp.toNat - 1]?

namespace StackView

variable {top : Word} {stack : List Word} {m m' : Machine} {i : Instruction} {reply : Word}
  {o : Outcome}

/-- Where the list is empty, the stack pointer is where it started. -/
theorem start (hm : m.memory.size = spaceSize) : StackView m.regs.sp [] m := by
  refine ⟨hm, by simp, ?_⟩
  intro a ha hle
  exact absurd ha (BitVec.not_lt.mpr hle)

/-- The words of the stack are those of the list. -/
theorem stackWords (h : StackView top stack m) (htop : top ≤ lastAddress) :
    m.stackWords top = stack := by
  have hsp := h.sp
  have htop' := le_lastAddress_iff.mp htop
  have hnext : (m.regs.sp + 1).toNat = m.regs.sp.toNat + 1 := by bv_omega
  apply List.ext_getElem?
  intro p
  rw [Machine.stackWords, Memory.slice, Array.getElem?_toList, Array.getElem?_extract, hnext]
  have hsize : m.memory.words.size = 0x8000 := h.size
  by_cases hp : p < stack.length
  · have hget := h.get? (BitVec.ofNat 16 (m.regs.sp.toNat + 1 + p)) (by bv_omega) (by bv_omega)
    have haddr : (BitVec.ofNat 16 (m.regs.sp.toNat + 1 + p)).toNat = m.regs.sp.toNat + 1 + p := by
      bv_omega
    rw [Memory.get?, haddr] at hget
    have hidx : m.regs.sp.toNat + 1 + p - m.regs.sp.toNat - 1 = p := by omega
    rw [if_pos (by omega), hget, hidx]
  · rw [if_neg (by omega), List.getElem?_eq_none (by omega)]

/-- The word above the stack pointer is the top of the list. -/
theorem word_of_cons {value : Word} {rest : List Word} (h : StackView top (value :: rest) m)
    (htop : top ≤ lastAddress) : m.memory.word (m.regs.sp + 1) = value := by
  have hsp := h.sp
  rw [List.length_cons] at hsp
  have htop' := le_lastAddress_iff.mp htop
  have hget := h.get? (m.regs.sp + 1) (by bv_omega) (by bv_omega)
  have hidx : (m.regs.sp + 1).toNat - m.regs.sp.toNat - 1 = 0 := by bv_omega
  rw [hidx] at hget
  exact Memory.word_eq_of_get? hget

/-- A push puts its value on top of the list. -/
theorem push {value : Word} (h : StackView top stack m) (htop : top ≤ lastAddress)
    (hx : Executed i reply m o m') (hop : i.stackOp m = .push value) :
    StackView top (value :: stack) m' := by
  obtain ⟨hsp, hwrite⟩ := Instruction.effect_of_push hop
  have hpos := h.sp
  have htop' := le_lastAddress_iff.mp htop
  -- The new stack pointer has been checked, so the old one was not zero.
  have hle := le_lastAddress_iff.mp (hx.sp_le (le_lastAddress_iff.mpr (by omega)))
  rw [hx.sp, hsp] at hle
  have hnz : 0 < m.regs.sp.toNat := by bv_omega
  refine ⟨hx.size.trans h.size, ?_, ?_⟩
  · rw [hx.sp, hsp, List.length_cons]
    bv_omega
  · intro a ha hat
    rw [hx.sp, hsp] at ha ⊢
    rw [hx.get? h.size, hwrite]
    simp only
    by_cases hasp : a = m.regs.sp
    · have hidx : a.toNat - (m.regs.sp - 1).toNat - 1 = 0 := by bv_omega
      rw [if_pos hasp, hidx]
      rfl
    · have hidx : a.toNat - (m.regs.sp - 1).toNat - 1 =
          a.toNat - m.regs.sp.toNat - 1 + 1 := by bv_omega
      rw [if_neg hasp, h.get? a (by bv_omega) hat, hidx, List.getElem?_cons_succ]

/-- A pop takes the top of the list off. -/
theorem pop (h : StackView top stack m) (htop : top ≤ lastAddress)
    (hx : Executed i reply m o m') (hop : i.stackOp m = .pop) (hne : stack ≠ []) :
    StackView top stack.tail m' := by
  obtain ⟨hsp, hwrite⟩ := Instruction.effect_of_pop hop
  have hpos := h.sp
  have htop' := le_lastAddress_iff.mp htop
  have hlen : 0 < stack.length := List.length_pos_iff.mpr hne
  refine ⟨hx.size.trans h.size, ?_, ?_⟩
  · rw [hx.sp, hsp, List.length_tail]
    bv_omega
  · intro a ha hat
    rw [hx.sp, hsp] at ha ⊢
    have hidx : a.toNat - m.regs.sp.toNat - 1 = a.toNat - (m.regs.sp + 1).toNat - 1 + 1 := by
      bv_omega
    rw [hx.get? h.size, hwrite, List.getElem?_tail, ← hidx]
    exact h.get? a (by bv_omega) hat

/-- An instruction that is no stack operation keeps the list. -/
theorem keep (h : StackView top stack m) (hx : Executed i reply m o m')
    (hop : i.stackOp m = .keep) (hmov : i.movesToStackPointer = false)
    (hstore : ∀ a, i.storeAddress? m = some a → ¬(m.regs.sp < a ∧ a ≤ top)) :
    StackView top stack m' := by
  obtain ⟨hsp, hwrite⟩ := Instruction.effect_of_keep hop hmov
  refine ⟨hx.size.trans h.size, ?_, ?_⟩
  · rw [hx.sp, hsp]
    exact h.sp
  · intro a ha hat
    rw [hx.sp, hsp] at ha ⊢
    rw [hx.get? h.size, ← h.get? a ha hat]
    cases hw : i.write? m with
    | none => rfl
    | some bw =>
      obtain ⟨b, w⟩ := bw
      refine if_neg ?_
      rintro rfl
      exact hstore a (hwrite a w hw) ⟨ha, hat⟩

/-- **A step does to the stack what its stack operation does to the list.** -/
theorem step (h : StackView top stack m) (htop : top ≤ lastAddress)
    (hx : Executed i reply m o m') (hmov : i.movesToStackPointer = false)
    (hstore : ∀ a, i.storeAddress? m = some a → ¬(m.regs.sp < a ∧ a ≤ top))
    (hne : i.stackOp m = .pop → stack ≠ []) :
    StackView top ((i.stackOp m).apply stack) m' := by
  cases hop : i.stackOp m with
  | push value => exact h.push htop hx hop
  | pop => exact h.pop htop hx hop (hne hop)
  | keep => exact h.keep hx hop hmov hstore

end StackView

/-! ## Runs -/

section Run

variable {σ : Type u} (dev : Device σ) (sink : Sink σ)

/-- What the steps of a run do to the stack, one after another. -/
def stackOps (m : Machine) (s : σ) (k : Nat) : StackOp :=
  (machineAfter dev sink k m s).stackOp

/-- In `n` steps from `m`, the stack is used by stack operations only. -/
structure StackDiscipline (n : Nat) (m : Machine) (s : σ) : Prop where
  /-- Every step succeeds. -/
  succeeds : ∀ k < n, ∀ f, outcomeAfter dev sink (k + 1) m s ≠ .faulted f
  /-- No register is moved to the stack pointer. -/
  keepsPointer : ∀ k < n, ∀ i, (machineAfter dev sink k m s).fetch = .ok i →
    i.movesToStackPointer = false
  /-- Nothing is stored between the stack pointer of the moment and the one at the start. -/
  storesOutside : ∀ k < n, ∀ i a, (machineAfter dev sink k m s).fetch = .ok i →
    i.storeAddress? (machineAfter dev sink k m s) = some a →
      ¬((machineAfter dev sink k m s).regs.sp < a ∧ a ≤ m.regs.sp)
  /-- There are never more pops than pushes. -/
  popsPushed : ∀ k ≤ n, popCount (stackOps dev sink m s) k ≤ pushCount (stackOps dev sink m s) k

/-- In `n` steps from `m`, the stack is a list. -/
structure RefinesList (n : Nat) (m : Machine) (s : σ) : Prop where
  /-- As many words are pending as there have been more pushes than pops. -/
  pending : ∀ k ≤ n, ((stackAfter (stackOps dev sink m s) k).length : Int) =
    pushCount (stackOps dev sink m s) k - popCount (stackOps dev sink m s) k
  /-- The stack pointer is as many words below its start as there are pending ones. -/
  pointer : ∀ k ≤ n, (machineAfter dev sink k m s).regs.sp.toNat +
    (stackAfter (stackOps dev sink m s) k).length = m.regs.sp.toNat
  /-- The words above the stack pointer are the pending ones, the most recent first. -/
  words : ∀ k ≤ n, (machineAfter dev sink k m s).stackWords m.regs.sp =
    stackAfter (stackOps dev sink m s) k
  /-- When pushes and pops balance, the stack pointer is where it started. -/
  balanced : ∀ k ≤ n,
    pushCount (stackOps dev sink m s) k = popCount (stackOps dev sink m s) k →
      (machineAfter dev sink k m s).regs.sp = m.regs.sp
  /-- A pop into a general register delivers what the matching push has pushed. -/
  pop : ∀ k < n, ∀ i, (machineAfter dev sink k m s).fetch = .ok i → i.opcode = .pop →
    i.modeBit = false → ∃ j value, Matches (stackOps dev sink m s) j k value ∧
      (machineAfter dev sink (k + 1) m s).regs.get i.rd = value
  /-- A pop into the flag register delivers the meaningful bits of it. -/
  popFlags : ∀ k < n, ∀ i, (machineAfter dev sink k m s).fetch = .ok i → i.opcode = .pop →
    i.modeBit = true → ∃ j value, Matches (stackOps dev sink m s) j k value ∧
      (machineAfter dev sink (k + 1) m s).regs.flagWord = value &&& Flags.activeMask
  /-- A return goes to what the matching call, or push, has pushed. -/
  ret : ∀ k < n, ∀ i, (machineAfter dev sink k m s).fetch = .ok i → i.opcode = .rts →
    ∃ j value, Matches (stackOps dev sink m s) j k value ∧
      (machineAfter dev sink (k + 1) m s).regs.pc = value
  /-- A word above the start of the stack is changed by no step but a store there. -/
  above : ∀ k < n, ∀ a, m.regs.sp < a →
    (∀ i, (machineAfter dev sink k m s).fetch = .ok i →
      i.storeAddress? (machineAfter dev sink k m s) ≠ some a) →
    (machineAfter dev sink (k + 1) m s).memory.get? a =
      (machineAfter dev sink k m s).memory.get? a

variable {dev sink} {m : Machine} {s : σ} {n : Nat}

namespace StackDiscipline

/-- Under the discipline, every step executes an instruction. -/
theorem executed (h : StackDiscipline dev sink n m s) {k : Nat} (hk : k < n) :
    ∃ i reply, Executed i reply (machineAfter dev sink k m s) (outcomeAfter dev sink (k + 1) m s)
      (machineAfter dev sink (k + 1) m s) :=
  executed_of_step (step_machineAfter dev sink k m s) (h.succeeds k hk)

/-- **The stack is the list of pending words.**

**Proof sketch.** Induction on the number of steps; one step is `StackView.step`. A pop finds a
pending word, since otherwise there would be more pops than pushes after it. -/
theorem stackView (h : StackDiscipline dev sink n m s) (hm : m.memory.size = spaceSize)
    (hs : m.regs.sp ≤ lastAddress) :
    ∀ k ≤ n, StackView m.regs.sp (stackAfter (stackOps dev sink m s) k)
      (machineAfter dev sink k m s) := by
  intro k
  induction k with
  | zero => exact fun _ => StackView.start hm
  | succ k ih =>
    intro hk
    obtain ⟨i, reply, hx⟩ := h.executed hk
    have hop : stackOps dev sink m s k = i.stackOp _ := Machine.stackOp_of_fetch hx.fetch
    have hne : i.stackOp (machineAfter dev sink k m s) = .pop →
        stackAfter (stackOps dev sink m s) k ≠ [] := by
      intro hpop
      exact stackAfter_ne_nil h.popsPushed hk (hop.trans hpop)
    have hstep := (ih (by omega)).step hs hx (h.keepsPointer k hk i hx.fetch)
      (fun a => h.storesOutside k hk i a hx.fetch) hne
    rwa [← hop] at hstep

/-- What a pop or a return reads is the value that the matching push has pushed. -/
theorem exists_matches_word (h : StackDiscipline dev sink n m s) (hm : m.memory.size = spaceSize)
    (hs : m.regs.sp ≤ lastAddress) {k : Nat} (hk : k < n)
    (hpop : stackOps dev sink m s k = .pop) :
    ∃ j value, Matches (stackOps dev sink m s) j k value ∧
      (machineAfter dev sink k m s).memory.word ((machineAfter dev sink k m s).regs.sp + 1) =
        value := by
  have hview := h.stackView hm hs k (by omega)
  obtain ⟨value, rest, hcons⟩ :=
    List.exists_cons_of_ne_nil (stackAfter_ne_nil h.popsPushed hk hpop)
  obtain ⟨j, hj⟩ := exists_matches hpop hcons
  rw [hcons] at hview
  exact ⟨j, value, hj, hview.word_of_cons hs⟩

/-- A word above the start of the stack is changed by no step but a store there. -/
theorem get?_above (h : StackDiscipline dev sink n m s) (hm : m.memory.size = spaceSize)
    (hs : m.regs.sp ≤ lastAddress) {k : Nat} (hk : k < n) {a : Word} (ha : m.regs.sp < a)
    (hstore : ∀ i, (machineAfter dev sink k m s).fetch = .ok i →
      i.storeAddress? (machineAfter dev sink k m s) ≠ some a) :
    (machineAfter dev sink (k + 1) m s).memory.get? a =
      (machineAfter dev sink k m s).memory.get? a := by
  have hview := h.stackView hm hs k (by omega)
  obtain ⟨i, reply, hx⟩ := h.executed hk
  have hsp := hview.sp
  rw [hx.get? hview.size]
  cases hop : i.stackOp (machineAfter dev sink k m s) with
  | push value =>
    rw [(Instruction.effect_of_push hop).2]
    exact if_neg (by bv_omega)
  | pop => rw [(Instruction.effect_of_pop hop).2]
  | keep =>
    have hwrite := (Instruction.effect_of_keep hop (h.keepsPointer k hk i hx.fetch)).2
    cases hw : i.write? (machineAfter dev sink k m s) with
    | none => rfl
    | some bw =>
      obtain ⟨b, w⟩ := bw
      refine if_neg ?_
      rintro rfl
      exact hstore i hx.fetch (hwrite a w hw)

end StackDiscipline

/-- **The stack of the machine is a list.** Take a machine with a memory that fills the address
space and a stack pointer in the address space, any device and any sink, and a run of steps that
succeed, in which no register is moved to the stack pointer, nothing is stored between the stack
pointer and its start, and pops never outnumber pushes. Throughout the run, the words above the
stack pointer are the pending ones; pops and returns deliver what the matching pushes and calls
have pushed; and no stack operation changes a word above the start of the stack. -/
theorem stack_refinesList (hm : m.memory.size = spaceSize) (hs : m.regs.sp ≤ 0x7FFF)
    (h : StackDiscipline dev sink n m s) : RefinesList dev sink n m s := by
  have hview := h.stackView hm hs
  have hlen := length_stackAfter h.popsPushed
  -- All three ways to take a word off the stack read it in the same place.
  have hread : ∀ {k i}, k < n → (machineAfter dev sink k m s).fetch = .ok i →
      i.opcode = .pop ∨ i.opcode = .rts → ∃ j value, Matches (stackOps dev sink m s) j k value ∧
        (machineAfter dev sink k m s).memory.word
          ((machineAfter dev sink k m s).regs.sp + 1) = value := by
    intro k i hk hf ho
    refine h.exists_matches_word hm hs hk ((Machine.stackOp_of_fetch hf).trans ?_)
    rcases ho with ho | ho <;> simp [Instruction.stackOp, ho]
  constructor
  case pending => exact hlen
  case pointer => exact fun k hk => (hview k hk).sp
  case words => exact fun k hk => (hview k hk).stackWords hs
  case balanced =>
    intro k hk hbal
    -- The pointer is as far below its start as the stack is deep, so not at all.
    have hsp := (hview k hk).sp
    have hdepth := hlen k hk
    unfold depth at hdepth
    apply BitVec.eq_of_toNat_eq
    omega
  case pop =>
    intro k hk i hf ho hb
    obtain ⟨j, value, hj, hw⟩ := hread hk hf (.inl ho)
    obtain ⟨i', reply, hx⟩ := h.executed hk
    obtain rfl : i = i' := Except.ok.inj (hf.symm.trans hx.fetch)
    exact ⟨j, value, hj, (hx.get_pop ho hb).trans hw⟩
  case popFlags =>
    intro k hk i hf ho hb
    obtain ⟨j, value, hj, hw⟩ := hread hk hf (.inl ho)
    obtain ⟨i', reply, hx⟩ := h.executed hk
    obtain rfl : i = i' := Except.ok.inj (hf.symm.trans hx.fetch)
    exact ⟨j, value, hj, by rw [hx.flagWord_pop ho hb, hw]⟩
  case ret =>
    intro k hk i hf ho
    obtain ⟨j, value, hj, hw⟩ := hread hk hf (.inr ho)
    obtain ⟨i', reply, hx⟩ := h.executed hk
    obtain rfl : i = i' := Except.ok.inj (hf.symm.trans hx.fetch)
    refine ⟨j, value, hj, ?_⟩
    rw [hx.pc, Instruction.pcAfter, ho]
    exact hw
  case above => exact fun k hk a ha hstore => h.get?_above hm hs hk ha hstore

end Run

/-- A machine with a full memory that starts with a `push` of a register and a `pop` into the flag
register. The register is full of ones. -/
def Machine.pushPop : Machine :=
  { regs := Registers.initial.set 1 0xFFFF
    memory := ((Memory.zeros spaceSize).set 0 0x1480).set 1 0x1840 }

/-- The machine after the `push`. -/
def Machine.pushed : Machine :=
  (pushPop.commit { nextPc := 1, sp := some 0x7FFD, write := some (0x7FFE, 0xFFFF) }).tick

/-- The first instruction pushes. -/
theorem Machine.fetch_pushPop : pushPop.fetch = .ok ⟨.push, 0x1480⟩ := by
  refine fetch_eq_ok_iff.mpr ⟨by decide, ?_, rfl⟩
  simp [pushPop, Registers.initial, Memory.get?_set, spaceSize]

/-- The first step pushes the word and goes on. -/
theorem Machine.step_pushPop :
    step Device.silent Sink.ignore pushPop () = (.proceed, pushed, ()) := by
  have hx : execute Device.silent (Instruction.operation ⟨.push, 0x1480⟩) pushPop () =
      (.ok { nextPc := 1, sp := some 0x7FFD, write := some (0x7FFE, 0xFFFF) }, ()) := rfl
  rw [step_of_succeeded fetch_pushPop hx, Sink.reportAll_ignore]
  rfl

/-- After it, the second instruction is still there, and so is the pushed word. -/
theorem Machine.get?_pushed :
    pushed.memory.get? 1 = some 0x1840 ∧ pushed.memory.get? 0x7FFE = some 0xFFFF := by
  constructor <;>
    simp [pushed, commit, tick, Memory.get?_commit, pushPop, Memory.get?_set, spaceSize]

/-- The second instruction pops. -/
theorem Machine.fetch_pushed : pushed.fetch = .ok ⟨.pop, 0x1840⟩ :=
  fetch_eq_ok_iff.mpr ⟨by decide, get?_pushed.1, rfl⟩

/-- The second step goes on. -/
theorem Machine.step_pushed :
    (step Device.silent Sink.ignore pushed ()).1 = .proceed := by
  have hread := Memory.read_eq_ok_iff.mpr get?_pushed.2
  have hstage : (Instruction.operation ⟨.pop, 0x1840⟩).stage pushed 0 = .ok _ :=
    bind_eq_ok_iff.mpr ⟨(), rfl, bind_eq_ok_iff.mpr ⟨_, hread, rfl⟩⟩
  have hx : execute Device.silent _ pushed () = (.ok _, ()) :=
    execute_eq_ok_iff.mpr ⟨0, rfl, hstage, rfl⟩
  rw [step_of_succeeded fetch_pushed hx]
  rfl

/-- The value that is pushed and popped again is on the stack in between, and the stack pointer is
where it started. -/
theorem stack_refinesList_pushPop : RefinesList Device.silent Sink.ignore 2 .pushPop () := by
  have hone : stepTimes Device.silent Sink.ignore 1 Machine.pushPop () = _ := Machine.step_pushPop
  have hafter : machineAfter Device.silent Sink.ignore 1 .pushPop () = .pushed := by
    rw [machineAfter, hone]
  have hstep := step_machineAfter Device.silent Sink.ignore 1 .pushPop ()
  rw [hafter, hone] at hstep
  have htwo : outcomeAfter Device.silent Sink.ignore (1 + 1) .pushPop () = .proceed := by
    rw [← Machine.step_pushed, hstep]
  have hfetch : ∀ k < 2, ∀ i,
      (machineAfter Device.silent Sink.ignore k .pushPop ()).fetch = .ok i →
        i = ⟨.push, 0x1480⟩ ∨ i = ⟨.pop, 0x1840⟩ := by
    intro k hk i hi
    obtain rfl | rfl : k = 0 ∨ k = 1 := by omega
    · exact .inl (Except.ok.inj (hi.symm.trans Machine.fetch_pushPop))
    · rw [hafter] at hi
      exact .inr (Except.ok.inj (hi.symm.trans Machine.fetch_pushed))
  have hpush : stackOps Device.silent Sink.ignore .pushPop () 0 = .push 0xFFFF :=
    Machine.stackOp_of_fetch Machine.fetch_pushPop
  have hpop : stackOps Device.silent Sink.ignore .pushPop () 1 = .pop := by
    rw [stackOps, hafter, Machine.stackOp_of_fetch Machine.fetch_pushed]
    rfl
  refine stack_refinesList (by simp [Machine.pushPop]) (by decide) ⟨?_, ?_, ?_, ?_⟩
  · intro k hk f
    obtain rfl | rfl : k = 0 ∨ k = 1 := by omega
    · rw [outcomeAfter, hone]
      simp
    · rw [htwo]
      simp
  · intro k hk i hi
    rcases hfetch k hk i hi with rfl | rfl <;> rfl
  · intro k hk i a hi ha
    rcases hfetch k hk i hi with rfl | rfl <;> simp [Instruction.storeAddress?] at ha
  · intro k hk
    rcases k with _ | _ | _ | k
    · simp
    · rw [popCount_succ, pushCount_succ, hpush]
      simp [StackOp.isPop, StackOp.isPush]
    · rw [popCount_succ, popCount_succ, pushCount_succ, pushCount_succ, hpush, hpop]
      simp [StackOp.isPop, StackOp.isPush]
    · omega

end Cpu16
