import Cpu16.Listing.Text
import Cpu16.Proofs.Step.Atomicity
import Cpu16.Proofs.Step.DecodeFaults

set_option relaxedAutoImplicit false
set_option autoImplicit false

/-!
# Reading a line of assembly back

A listing shows an operation as a line of text, and nothing of the instruction word beside it.
Is the line enough to know what the instruction does? It is: the name and the operands can be
read off the line, and from them the operation. So two instructions with the same line behave in
the same way, however their words differ. The only lines that stand for no operation are those of
words without a meaning, and they can be told from all others by how they start.

## Main definitions

* `Cpu16.Operation.ofLine?` — the operation with a name and operands.
* `Cpu16.Operation.fields` — the name and the operands of a line, as texts.
* `Cpu16.Operation.ofText?` — the operation that a line stands for.

## Main results

* `Cpu16.Operation.splitOn_text` — the fields of a line are what stands between its blanks.
* `Cpu16.Operation.ofText?_text` — every operation is read back from its line.
* `Cpu16.Instruction.text_eq_iff` — instructions have the same line if they stand for the same
  operation, and only then.
* `Cpu16.startsWith_invalid_iff` — the lines of the words without a meaning.
* `Cpu16.text_determines_behaviour` — instructions with the same line behave in the same way, and a
  line tells whether steps on its word fault for want of a meaning.
-/

universe u

namespace Cpu16

/-! ## Reading operands and names -/

/-- All operands. -/
def Operand.all : List Operand :=
  [stackPointer, flagRegister] ++ (List.finRange 8).map register ++
    (List.finRange 16).map fun n => amount ⟨n⟩

/-- The operand with a text. -/
def Operand.ofText? (text : String) : Option Operand :=
  all.find? fun o => o.text = text

/-- Every operand is read back from its text. -/
theorem Operand.ofText?_text (o : Operand) : ofText? o.text = some o := by
  have hregister : ∀ r : Register, ofText? (text (register r)) = some (register r) := by decide
  have hamount : ∀ n : BitVec 4, ofText? (text (amount n)) = some (amount n) := by decide
  cases o with
  | register r => exact hregister r
  | amount n => exact hamount n
  | stackPointer | flagRegister => rfl

namespace Operation

/-- The binary operations, each without the carry flag and with it. -/
def binaryForms : List (BinaryOp × Bool) :=
  [.add, .sub, .mult, .div, .mod, .and, .or, .xor].flatMap fun f => [(f, false), (f, true)]

/-- The six ways to shift or rotate. -/
def shiftModes : List Shift :=
  [.leftZero, .leftOne, .rightZero, .rightOne, .rotateLeft, .rotateRight]

/-- The operation with a name and operands. -/
def ofLine? (name : String) : List Operand → Option Operation
  | [.register rd, .register rs1, .register rs2] =>
    (binaryForms.find? fun (f, c) => f.name ++ (if c then "c" else "") = name).map fun (f, c) =>
      binary f c rd rs1 rs2
  | [.register r, .register q] =>
    match name with
    | "not" => some (complement r q)
    | "mov" => some (move r q)
    | "cmp" => some (compare r q)
    | "loadi" => some (loadIndirect r q)
    | "storei" => some (storeIndirect r q)
    | "outchar" => some (output r q)
    | _ => none
  | [.register rd, .amount n] =>
    (shiftModes.find? fun mode => mode.name = name).map fun mode => shift mode rd n
  | [.register rd, .stackPointer] => some (moveFromStackPointer rd)
  | [.stackPointer, .register rs] => some (moveToStackPointer rs)
  | [.register r] =>
    match name with
    | "inc" => some (increment r)
    | "dec" => some (decrement r)
    | "push" => some (push r)
    | "pop" => some (pop r)
    | "loadn" => some (loadImmediate r)
    | "load" => some (load r)
    | "store" => some (store r)
    | "inchar" => some (input r)
    | _ => none
  | [.flagRegister] => some (if name = "push" then pushFlags else popFlags)
  | [] =>
    match name with
    | "nop" => some nop
    | "halt" => some halt
    | "breakp" => some breakpoint
    | "setc" => some setCarry
    | "clearc" => some clearCarry
    | "rts" => some ret
    | name =>
      let conditions := (List.range 15).filterMap Condition.ofCode?
      (conditions.find? fun c => c.branchName "jmp" "j" = name).map jump <|>
        (conditions.find? fun c => c.branchName "call" "c" = name).map call
  | _ => none

/-- **Name and operands** are those of one operation only.

**Proof sketch.** By cases on the operation, and for the names that are put together from parts on
these parts. Each name is then a fixed text. -/
theorem ofLine?_name_operands {op : Operation} (h : op.isInvalid = false) :
    ofLine? op.name op.operands = some op := by
  cases op with
  | binary f addsCarry rd rs1 rs2 => cases f <;> cases addsCarry <;> rfl
  | shift mode rd amount => cases mode <;> rfl
  | jump condition | call condition => cases condition <;> rfl
  | invalidBranch code => exact absurd h (by simp [isInvalid])
  | _ => rfl

end Operation

/-! ## The fields of a line -/

/-- Whether a text has letters and digits only, hence no blank, comma or bracket. -/
def isPlain (text : String) : Bool :=
  text.toList.all Char.isAlphanum

/-- Plain texts are plain together. -/
theorem isPlain_append {s t : String} (hs : isPlain s = true) (ht : isPlain t = true) :
    isPlain (s ++ t) = true := by
  unfold isPlain at hs ht ⊢
  rw [String.toList_append, List.all_append, hs, ht]
  rfl

/-- A plain text has no separator in it. -/
theorem notMem_of_isPlain {text : String} (h : isPlain text = true) {c : Char}
    (hc : c.isAlphanum = false) : c ∉ text.toList := by
  intro hmem
  rw [List.all_eq_true.mp h c hmem] at hc
  exact Bool.noConfusion hc

/-- The text of an operand is plain. -/
theorem Operand.isPlain_text (o : Operand) : isPlain o.text = true := by
  have hregister : ∀ r : Register, isPlain r.name = true := by decide
  have hamount : ∀ n : BitVec 4, isPlain (toString n.toNat) = true := by decide
  cases o with
  | register r => exact hregister r
  | amount n => exact hamount n
  | stackPointer | flagRegister => rfl

namespace Operation

/-- The name of an operation is plain, unless it is a branch without a meaning. -/
theorem isPlain_name {op : Operation} (h : op.isInvalid = false) : isPlain op.name = true := by
  cases op with
  | binary f addsCarry rd rs1 rs2 =>
    refine isPlain_append ?_ ?_
    · cases f <;> decide
    · split <;> decide
  | shift mode rd amount =>
    show isPlain mode.name = true
    cases mode <;> decide
  | jump condition | call condition => cases condition <;> decide
  | invalidBranch code => exact absurd h (by simp [isInvalid])
  | _ =>
    unfold name
    dsimp only
    decide

/-- The fields of a line: the name, and the operands as texts. -/
def fields (op : Operation) : List String :=
  op.name :: op.operands.map Operand.text

/-- Every field of the text of an operation is plain. -/
theorem isPlain_of_mem_fields {op : Operation} (h : op.isInvalid = false) {text : String}
    (ht : text ∈ op.fields) : isPlain text = true := by
  rcases List.mem_cons.mp ht with rfl | ht
  · exact isPlain_name h
  · obtain ⟨o, -, rfl⟩ := List.mem_map.mp ht
    exact o.isPlain_text

end Operation

/-- To leave the commas out of some fields with commas and blanks between them leaves the fields
with blanks between them. -/
theorem filter_intercalate_comma {texts : List String} (h : ∀ text ∈ texts, isPlain text = true) :
    ([',', ' '].intercalate (texts.map String.toList)).filter (· ≠ ',') =
      [' '].intercalate (texts.map String.toList) := by
  have hplain : ∀ text ∈ texts, text.toList.filter (· ≠ ',') = text.toList := by
    intro text ht
    rw [List.filter_eq_self]
    intro c hc
    have hcomma := notMem_of_isPlain (h text ht) (c := ',') rfl
    simp [ne_of_mem_of_not_mem hc hcomma]
  clear h
  induction texts with
  | nil => rfl
  | cons text texts ih =>
    have htext := hplain text (by simp)
    have htexts := ih fun t ht => hplain t (by simp [ht])
    cases texts with
    | nil => simpa using htext
    | cons text' texts =>
      simp only [List.map_cons, List.intercalate_cons_cons] at htexts ⊢
      rw [List.filter_append, List.filter_append, htext, htexts]
      rfl

namespace Operation

/-- A line without its commas is its fields with blanks between them. -/
theorem filter_text {op : Operation} (h : op.isInvalid = false) :
    op.text.toList.filter (· ≠ ',') = [' '].intercalate (op.fields.map String.toList) := by
  have hname := @filter_intercalate_comma [op.name] (by simpa using isPlain_name h)
  have hoperands := @filter_intercalate_comma (op.operands.map Operand.text)
    fun text ht => isPlain_of_mem_fields h (List.mem_cons_of_mem _ ht)
  unfold text fields
  split
  · rename_i hops
    simpa [hops] using hname
  · rename_i hops
    have hne : op.operands.map Operand.text ≠ [] := by simpa using hops
    have hcut : op.name.toList.filter (· ≠ ',') = op.name.toList := by simpa using hname
    have hcomma : ", ".toList = [',', ' '] := rfl
    have hblank : " ".toList.filter (· ≠ ',') = [' '] := rfl
    rw [String.toList_append, String.toList_append, String.toList_intercalate, hcomma,
      List.filter_append, List.filter_append, hoperands, hcut, hblank, List.map_cons,
      List.intercalate_cons_of_ne_nil (by simpa using hne)]

/-- **The fields of a line** are what stands between its blanks. -/
theorem splitOn_text {op : Operation} (h : op.isInvalid = false) :
    (op.text.toList.filter (· ≠ ',')).splitOn ' ' = op.fields.map String.toList := by
  rw [filter_text h]
  refine List.splitOn_intercalate ' ' ?_ (by simp [fields])
  intro l hl
  obtain ⟨text, ht, rfl⟩ := List.mem_map.mp hl
  exact notMem_of_isPlain (isPlain_of_mem_fields h ht) rfl

/-- The operation that a line stands for. -/
def ofText? (text : String) : Option Operation :=
  match (text.toList.filter (· ≠ ',')).splitOn ' ' with
  | [] => none
  | name :: operands =>
    (operands.mapM fun o => Operand.ofText? (String.ofList o)).bind (ofLine? (String.ofList name))

/-- **Every operation is read back from its line**, if it is no invalid branch. -/
theorem ofText?_text {op : Operation} (h : op.isInvalid = false) : ofText? op.text = some op := by
  have hoperands : ((op.operands.map Operand.text).map String.toList).mapM
      (fun o => Operand.ofText? (String.ofList o)) = some op.operands := by
    simp only [List.mapM_map, Function.comp_def, String.ofList_toList, Operand.ofText?_text]
    exact List.mapM_pure.trans (by simp)
  unfold ofText?
  rw [splitOn_text h]
  simp only [fields, List.map_cons, hoperands, String.ofList_toList]
  exact ofLine?_name_operands h

end Operation

/-! ## Lines without a meaning -/

/-- A character that is neither in the separator nor in the pieces is not in what they are joined
to. -/
theorem notMem_intercalate {c : Char} {sep : List Char} {ls : List (List Char)} (hsep : c ∉ sep)
    (h : ∀ l ∈ ls, c ∉ l) : c ∉ sep.intercalate ls := by
  induction ls with
  | nil => simp
  | cons l ls ih =>
    have hl := h l (by simp)
    have hls := ih fun l' hl' => h l' (by simp [hl'])
    cases ls with
    | nil => simpa using hl
    | cons l' ls =>
      rw [List.intercalate_cons_cons, List.mem_append, List.mem_append]
      rintro ((hmem | hmem) | hmem)
      · exact hl hmem
      · exact hsep hmem
      · exact hls hmem

namespace Operation

/-- There is no bracket in a line, unless it is the one of an invalid branch. -/
theorem bracket_notMem_text {op : Operation} (h : op.isInvalid = false) :
    '<' ∉ op.text.toList := by
  intro hmem
  have hfilter : '<' ∈ op.text.toList.filter (· ≠ ',') :=
    List.mem_filter.mpr ⟨hmem, by decide⟩
  rw [filter_text h] at hfilter
  refine notMem_intercalate (by decide) ?_ hfilter
  intro l hl
  obtain ⟨text, ht, rfl⟩ := List.mem_map.mp hl
  exact notMem_of_isPlain (isPlain_of_mem_fields h ht) rfl

/-- How a branch with the invalid condition code is shown. -/
theorem text_invalidBranch (code : Nat) :
    (invalidBranch code).text = "<invalid" ++ (" condition " ++ code.repr ++ ">") := by
  rw [← String.append_assoc, ← String.append_assoc]
  rfl

/-- The line of an invalid branch starts with a bracket, and no other line has one. -/
theorem bracket_mem_text_iff {op : Operation} : '<' ∈ op.text.toList ↔ op.isInvalid = true := by
  constructor
  · intro hmem
    by_contra h
    exact bracket_notMem_text (by simpa using h) hmem
  · intro h
    cases op with
    | invalidBranch code =>
      rw [text_invalidBranch, String.toList_append]
      exact List.mem_append_left _ (by decide)
    | _ => exact absurd h Bool.false_ne_true

end Operation

namespace Instruction

/-- A branch of an instruction is valid, unless its condition code is the unassigned one. -/
theorem branch_of_isInvalid {i : Instruction} {taken : Condition → Operation}
    (htaken : ∀ c, (taken c).isInvalid = false) (h : (i.branch taken).isInvalid = true) :
    i.branch taken = .invalidBranch 15 := by
  have hcode : ∀ n < 16, Condition.ofCode? n = none → n = 15 := by decide
  unfold branch at h ⊢
  cases hc : Condition.ofCode? i.conditionCode with
  | none => rw [hcode i.conditionCode i.conditionCode_lt hc]
  | some c =>
    rw [hc] at h
    exact absurd h (by simp [htaken])

/-- All instructions that are invalid branches stand for the same operation. -/
theorem operation_of_isInvalid {i : Instruction} (h : i.operation.isInvalid = true) :
    i.operation = .invalidBranch 15 := by
  obtain ⟨o, w⟩ := i
  cases o with
  | jmp | call => exact branch_of_isInvalid (fun _ => rfl) h
  | push | pop | carryControl | incDec | mov =>
    simp only [operation] at h
    split at h <;> exact absurd h Bool.false_ne_true
  | _ => exact absurd h Bool.false_ne_true

/-- **Instructions with the same line stand for the same operation**, and conversely.

**Proof sketch.** An operation that is no invalid branch is read back from its line. An invalid
branch has a bracket in its line, which no other operation has, and there is only one of them. -/
theorem text_eq_iff {i j : Instruction} : i.text = j.text ↔ i.operation = j.operation := by
  constructor
  · intro h
    have hinvalid : i.operation.isInvalid = j.operation.isInvalid := by
      have htext : i.operation.text = j.operation.text := h
      rw [Bool.eq_iff_iff, ← Operation.bracket_mem_text_iff, ← Operation.bracket_mem_text_iff,
        htext]
    cases hi : i.operation.isInvalid with
    | false =>
      have hj := hinvalid.symm.trans hi
      exact Option.some.inj <| calc
        some i.operation = Operation.ofText? i.text := (Operation.ofText?_text hi).symm
        _ = Operation.ofText? j.text := by rw [h]
        _ = some j.operation := Operation.ofText?_text hj
    | true =>
      rw [operation_of_isInvalid hi, operation_of_isInvalid (hinvalid.symm.trans hi)]
  · intro h
    exact congrArg Operation.text h

end Instruction

/-- A word with an assigned operation has the line of its instruction. -/
theorem wordText_of_decode_eq_ok {w : Word} {i : Instruction} (h : Instruction.decode w = .ok i) :
    wordText .decoded false w = i.text := by
  unfold wordText
  rw [h]
  rfl

/-- A word without one has a remark instead. -/
theorem wordText_of_decode_eq_error {w : Word} {f : Fault} (h : Instruction.decode w = .error f) :
    wordText .decoded false w = "<invalid" ++ (" opcode " ++ (opcodeField w).repr ++ ">") := by
  unfold wordText
  rw [h, ← String.append_assoc, ← String.append_assoc]
  rfl

/-- **The line of a word tells whether it has a meaning**: it starts with a remark if not. -/
theorem startsWith_invalid_iff (w : Word) :
    (wordText .decoded false w).startsWith "<invalid" = true ↔ isMeaningful w = false := by
  rw [String.startsWith_string_iff]
  unfold isMeaningful
  cases hd : Instruction.decode w with
  | error f =>
    rw [wordText_of_decode_eq_error hd]
    simp
  | ok i =>
    rw [wordText_of_decode_eq_ok hd]
    constructor
    · intro h
      have hmem : '<' ∈ i.text.toList := h.subset (by decide)
      simpa using Operation.bracket_mem_text_iff.mp hmem
    · intro h
      have hi : i.text = Operation.text (.invalidBranch 15) :=
        congrArg Operation.text (Instruction.operation_of_isInvalid (by simpa using h))
      simp [hi, Operation.text_invalidBranch]

/-- **A line determines the behaviour.** Two instructions with the same line have the same length
and are executed in the same way, on every machine, with every device and in every world: with the
same effects or the same fault, the same world after it and the same calls of the device. A line
that starts as a remark on an invalid word is the line of a word on which every step faults for want
of a meaning; and no step on a word with another line does.

**Proof sketch.** Execution depends on the operation that an instruction stands for, and two
instructions with the same line stand for the same one (`Instruction.text_eq_iff`). The remarks are
the lines of the words without a meaning (`startsWith_invalid_iff`), on which the class of the fault
depends. For the converse there has to be a machine that fetches the word
(`Machine.exists_fetches`). -/
theorem text_determines_behaviour :
    (∀ i j : Instruction, i.text = j.text →
      i.size = j.size ∧ ∀ {σ : Type u} (dev : Device σ) (m : Machine) (s : σ),
        execute dev i.operation m s = execute dev j.operation m s ∧
          dev.calls (i.operation.exchange m.regs) s =
            dev.calls (j.operation.exchange m.regs) s) ∧
      ∀ w : Word,
        ((wordText .decoded false w).startsWith "<invalid" = true ↔
          ∀ {σ : Type u} (dev : Device σ) (sink : Sink σ) (m : Machine) (s : σ), m.Fetches w →
            ∃ f, (step dev sink m s).1 = .faulted f ∧ f.kind = .decode) ∧
        ((wordText .decoded false w).startsWith "<invalid" = false →
          ∀ {σ : Type u} (dev : Device σ) (sink : Sink σ) (m : Machine) (s : σ), m.Fetches w →
            ∀ f, (step dev sink m s).1 = .faulted f → f.kind ≠ .decode) := by
  refine ⟨?_, fun w => ⟨?_, ?_⟩⟩
  · intro i j h
    have hop := Instruction.text_eq_iff.mp h
    refine ⟨?_, fun dev m s => ?_⟩
    · rw [← i.size_operation, ← j.size_operation, hop]
    · rw [hop]
      exact ⟨rfl, rfl⟩
  · rw [startsWith_invalid_iff]
    constructor
    · intro hw σ dev sink m s hm
      exact step_of_meaningless hm hw
    · intro hall
      by_contra hw
      obtain ⟨m, hm⟩ := Machine.exists_fetches w
      obtain ⟨f, hf, hkind⟩ := hall Device.silent Sink.ignore m PUnit.unit hm
      exact kind_ne_decode_of_step hm (by simpa using hw) hf hkind
  · intro hline σ dev sink m s hm f hf
    have hw : isMeaningful w = true := by
      rw [← Bool.not_eq_false, ← startsWith_invalid_iff, hline]
      exact Bool.false_ne_true
    exact kind_ne_decode_of_step hm hw hf

/-- A jump and a call with the unassigned condition have the same line, and fail in the same way. A
`pop` past the top of the stack fails too, but its line is no remark. -/
theorem text_determines_behaviour_invalidBranches :
    (execute Device.silent (Instruction.operation ⟨.jmp, 0x0BC0⟩) .popPastTop () =
        execute Device.silent (Instruction.operation ⟨.call, 0x0FC0⟩) .popPastTop ()) ∧
      (∃ f, (step Device.silent Sink.ignore { memory := ⟨#[0x0BC0]⟩ } ()).1 = .faulted f ∧
        f.kind = .decode) ∧
      Fault.invalidStackPointer.kind ≠ .decode :=
  ⟨((text_determines_behaviour.1 ⟨.jmp, 0x0BC0⟩ ⟨.call, 0x0FC0⟩ rfl).2 _ _ _).1,
    (text_determines_behaviour.2 0x0BC0).1.mp (String.startsWith_string_iff.mpr (by decide)) _ _ _ _
      ⟨by decide, rfl⟩,
    (text_determines_behaviour.2 0x1800).2 (String.startsWith_string_eq_false_iff.mpr (by decide))
      Device.silent Sink.ignore .popPastTop () ⟨by decide, rfl⟩ _ rfl⟩

end Cpu16
