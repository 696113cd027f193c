import StackMachine.Operators
import StackMachine.Proofs.Heap
import StackMachine.Proofs.Characters

namespace StackMachine

inductive Operation : String → Prop where
  | instruction (op : Opcode) : Operation op.mnemonic
  | byteStore : Operation "byte store"
  | byteRange : Operation "byte store (0..=255)"

/-- The faults of programs. That a configuration is not valid is none of them. -/
def Fault.Arises : Fault → Prop
  | typeMismatch operation found => Operation operation ∧ ∃ v : Value, found = v.typeName
  | invalidConfig _ => False
  | _ => True

def Fault.OfData : Fault → Prop
  | typeMismatch operation found => Operation operation ∧ ∃ v : Value, found = v.typeName
  | divisionByZero | invalidHandle _ | fieldOutOfRange _ _ | outOfMemory _ _ => True
  | _ => False

theorem Fault.ofData_mismatch {operation : String} (known : Operation operation) (v : Value) :
    (Fault.mismatch operation v).OfData := ⟨known, v, rfl⟩

section Text

theorem nul_ne_digitChar (n : Nat) (bound : n < 16) : '\x00' ≠ Nat.digitChar n := by
  revert n
  decide

@[simp] theorem nul_notMem_hexByte (b : UInt8) : '\x00' ∉ (hexByte b).toList := by
  have bound := b.toNat_lt
  have high := nul_ne_digitChar (b.toNat / 16) (by omega)
  have low := nul_ne_digitChar (b.toNat % 16) (by omega)
  simp [hexByte, high, low]

@[simp] theorem nul_notMem_typeName (v : Value) : '\x00' ∉ v.typeName.toList := by
  cases v <;> simp [Value.typeName]

theorem Operation.nul_notMem {operation : String} (known : Operation operation) :
    '\x00' ∉ operation.toList := by
  cases known with
  | instruction op => exact op.notMem_mnemonic rfl
  | byteStore => decide
  | byteRange => decide

theorem Fault.nul_notMem_message {fault : Fault} (arises : fault.Arises) :
    '\x00' ∉ fault.message.toList := by
  unfold message
  cases fault with
  | typeMismatch operation found =>
    obtain ⟨known, v, rfl⟩ := arises
    simp [toString, known.nul_notMem]
  | invalidConfig reason => exact arises.elim
  | _ => simp [toString, Handle.text]

end Text

section Results

variable {α β : Type} {P Q : Fault → Prop}

/-- If this is a failure, its fault is one of these. -/
def FailsOnly (P : Fault → Prop) (r : Except Fault α) : Prop := ∀ e, r = .error e → P e

theorem FailsOnly.ok (a : α) : FailsOnly P (.ok a) := nofun

theorem FailsOnly.error {e : Fault} (due : P e) : FailsOnly P (.error e : Except Fault α) := by
  intro _ same
  cases same
  exact due

theorem FailsOnly.mono {r : Except Fault α} (fails : FailsOnly P r) (weaker : ∀ e, P e → Q e) :
    FailsOnly Q r := fun e failed => weaker e (fails e failed)

theorem FailsOnly.guard {condition : Prop} [Decidable condition] {e : Fault} {r : Except Fault α}
    (due : condition → P e) (rest : ¬ condition → FailsOnly P r) :
    FailsOnly P (if condition then .error e else r) := by
  split
  · rename_i holds
    exact .error (due holds)
  · rename_i fails
    exact rest fails

theorem FailsOnly.bind {r : Except Fault α} {f : α → Except Fault β} (first : FailsOnly P r)
    (rest : ∀ a, r = .ok a → FailsOnly P (f a)) : FailsOnly P (r >>= f) := by
  cases r with
  | ok a => exact rest a rfl
  | error e => exact .error (first e rfl)

theorem FailsOnly.map {r : Except Fault α} (fails : FailsOnly P r) (f : α → β) :
    FailsOnly P (r.map f) := by
  cases r with
  | ok a => exact .ok (f a)
  | error e => exact .error (fails e rfl)

variable {σ : Type} {action : Action σ α} {s : σ}

theorem FailsOnly.outcome (failing : ∀ e s', action s = .error e s' → P e) :
    FailsOnly P (action.outcome s) := by
  unfold Action.outcome
  cases result : action s with
  | ok a s' => exact .ok _
  | error e s' => exact .error (failing e s' result)

theorem FailsOnly.answer (failing : ∀ e s', action s = .error e s' → P e) :
    FailsOnly P (action.answer s) := by
  unfold Action.answer
  cases result : action s with
  | ok a s' => exact .ok a
  | error e s' => exact .error (failing e s' result)

end Results

namespace Value

open Fault

theorem numericMismatch_ofData (op : Opcode) (a b : Value) : (numericMismatch op a b).OfData :=
  ofData_mismatch (.instruction op) _

theorem arith_failsOnly (op : ArithOp) (a b : Value) : FailsOnly OfData (arith op a b) := by
  have ints : ∀ x y, FailsOnly OfData (op.onInts x y) := by
    intro x y
    cases op with
    | div => exact .guard (fun _ => trivial) fun _ => .ok _
    | mod => exact .guard (fun _ => trivial) fun _ => .ok _
    | _ => exact .ok _
  have floats : ∀ x y, FailsOnly OfData (op.onFloats x y) := by
    intro x y
    cases op with
    | div => exact .guard (fun _ => trivial) fun _ => .ok _
    | mod => exact .guard (fun _ => trivial) fun _ => .ok _
    | _ => exact .ok _
  unfold arith
  split
  · exact (ints _ _).map _
  · split
    · exact (floats _ _).map _
    · exact .error (numericMismatch_ofData op.opcode a b)

theorem bitwise_failsOnly (op : BitOp) (a b : Value) : FailsOnly OfData (bitwise op a b) := by
  unfold bitwise
  split
  · exact .ok _
  · exact .error (ofData_mismatch (.instruction _) _)
  · exact .error (ofData_mismatch (.instruction _) _)

theorem order_failsOnly (op : OrderOp) (a b : Value) : FailsOnly OfData (order op a b) := by
  unfold order
  split
  · exact .ok _
  · split
    · exact .ok _
    · exact .error (numericMismatch_ofData op.opcode a b)

theorem neg_failsOnly (v : Value) : FailsOnly OfData v.neg := by
  cases v with
  | int n => exact .ok _
  | float x => exact .ok _
  | _ => exact .error (ofData_mismatch (.instruction .neg) _)

theorem intToFloat_failsOnly (v : Value) : FailsOnly OfData v.intToFloat := by
  cases v with
  | int n => exact .ok _
  | _ => exact .error (ofData_mismatch (.instruction .intToFloat) _)

theorem floatToInt_failsOnly (v : Value) : FailsOnly OfData v.floatToInt := by
  cases v with
  | float x => exact .ok _
  | _ => exact .error (ofData_mismatch (.instruction .floatToInt) _)

end Value

theorem Object.byteOf_failsOnly (v : Value) : FailsOnly Fault.OfData (Object.byteOf v) := by
  cases v with
  | int n =>
    unfold byteOf
    dsimp only
    split
    · exact .ok _
    · exact .error ⟨.byteRange, .int n, rfl⟩
  | _ => exact .error (Fault.ofData_mismatch .byteStore _)

namespace Heap

variable {heap heap' : Heap} {h : Handle} {field : Nat} {e : Fault}

theorem ofData_allocate {kind : ObjectKind} {n : Nat}
    (failed : allocate kind n heap = .error e heap') : e.OfData := by
  unfold allocate at failed
  dsimp only at failed
  split at failed
  · cases failed
    trivial
  · split at failed
    · cases failed
      trivial
    · split at failed
      · cases failed
      · split at failed
        · cases failed
          trivial
        · cases failed

theorem ofData_read (failed : read h field heap = .error e heap') : e.OfData := by
  unfold read at failed
  split at failed
  · cases failed
    trivial
  · split at failed
    · cases failed
    · cases failed
      trivial

theorem ofData_write {v : Value} (failed : write h field v heap = .error e heap') : e.OfData := by
  have checked : FailsOnly Fault.OfData (heap.checkWrite h field v) := by
    unfold checkWrite
    split
    · exact .error trivial
    · rename_i object _
      unfold Object.checkStore
      split
      · cases object with
        | record fields => exact .ok ()
        | bytes payload => exact (Object.byteOf_failsOnly v).map _
      · exact .error trivial
  unfold write at failed
  split at failed
  · rename_i refused
    cases failed
    exact checked e refused
  · cases failed

theorem ofData_release (failed : release h heap = .error e heap') : e.OfData := by
  unfold release at failed
  split at failed
  · cases failed
    trivial
  · cases failed

theorem ofData_length (failed : length h heap = .error e heap') : e.OfData := by
  unfold length at failed
  split at failed
  · cases failed
    trivial
  · cases failed

end Heap

end StackMachine
