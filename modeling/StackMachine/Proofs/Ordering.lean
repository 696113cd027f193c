import StackMachine.Proofs.Atomicity
import StackMachine.Proofs.Equality

namespace StackMachine

/-- Two places of a line, or none when something that is not a number is compared. -/
abbrev Places := Option (Int × Int)

def Places.pass (test : Int → Int → Bool) : Places → Bool
  | some (p, q) => test p q
  | none => false

def OrderOp.relates : OrderOp → Int → Int → Bool
  | lt, p, q => decide (p < q)
  | le, p, q => decide (p ≤ q)
  | gt, p, q => decide (q < p)
  | ge, p, q => decide (q ≤ p)

namespace Binary64

variable {x y : Binary64}

def places (x y : Binary64) : Places :=
  match x.rank?, y.rank? with
  | some p, some q => some (p, q)
  | _, _ => none

theorem places_swap (x y : Binary64) : places y x = (places x y).map Prod.swap := by
  unfold places
  cases x.rank? <;> cases y.rank? <;> rfl

theorem compareRanks_eq (test : Int → Int → Bool) (x y : Binary64) :
    compareRanks test x y = (places x y).pass test := by
  unfold compareRanks places
  cases x.rank? <;> cases y.rank? <;> rfl

theorem isSome_rank? (x : Binary64) : x.rank?.isSome = !x.isNaN := by
  unfold rank?
  cases x.isNaN <;> rfl

theorem isSome_places (x y : Binary64) : (places x y).isSome = (!x.isNaN && !y.isNaN) := by
  rw [← isSome_rank?, ← isSome_rank?]
  unfold places
  cases x.rank? <;> cases y.rank? <;> rfl

theorem isNaN_ofInt64 (n : Int64) : (ofInt64 n).isNaN = false := by
  have ranked := isSome_rank? (ofInt64 n)
  rw [rank?_ofInt64] at ranked
  simpa using ranked

end Binary64

namespace OrderOp

theorem onInts_eq (op : OrderOp) (m n : Int64) : op.onInts m n = op.relates m.toInt n.toInt := by
  cases op with
  | lt | gt => exact decide_eq_decide.mpr Int64.lt_iff_toInt_lt
  | le | ge => exact decide_eq_decide.mpr Int64.le_iff_toInt_le

theorem onFloats_eq (op : OrderOp) (x y : Binary64) :
    op.onFloats x y = (Binary64.places x y).pass op.relates := by
  cases op with
  | lt | le => exact Binary64.compareRanks_eq _ x y
  | gt | ge =>
    refine (Binary64.compareRanks_eq _ y x).trans ?_
    rw [Binary64.places_swap]
    cases Binary64.places x y <;> rfl

end OrderOp

namespace Value

variable {a b : Value} {op : OrderOp}

def isNaN : Value → Bool
  | .float x => x.isNaN
  | _ => false

def places (a b : Value) : Places :=
  match a, b with
  | .int m, .int n => some (m.toInt, n.toInt)
  | a, b =>
    match a.toFloat?, b.toFloat? with
    | some x, some y => Binary64.places x y
    | _, _ => none

theorem places_swap (a b : Value) : places b a = (places a b).map Prod.swap := by
  cases a with
  | int m =>
    cases b with
    | float y => exact Binary64.places_swap _ y
    | int | ref | null => rfl
  | float x =>
    cases b with
    | int n => exact Binary64.places_swap x _
    | float y => exact Binary64.places_swap x y
    | ref | null => rfl
  | ref | null => cases b <;> rfl

/-- The values are compared as the floating-point numbers `x` and `y`. -/
structure Promoted (a b : Value) (x y : Binary64) : Prop where
  order_eq : ∀ op, order op a b = .ok (.ofBool (op.onFloats x y))
  equals_eq : a.equals b = x.equal y
  places_eq : places a b = Binary64.places x y
  left_isNaN : a.isNaN = x.isNaN
  right_isNaN : b.isNaN = y.isNaN

theorem ints_or_promoted (left : a.isNumeric = true) (right : b.isNumeric = true) :
    (∃ m n, a = .int m ∧ b = .int n) ∨ ∃ x y, Promoted a b x y := by
  have exactly (n : Int64) : false = (Binary64.ofInt64 n).isNaN := (Binary64.isNaN_ofInt64 n).symm
  cases a with
  | int m =>
    cases b with
    | int n => exact .inl ⟨m, n, rfl, rfl⟩
    | float y => exact .inr ⟨.ofInt64 m, y, fun _ => rfl, rfl, rfl, exactly m, rfl⟩
    | ref | null => cases right
  | float x =>
    cases b with
    | int n => exact .inr ⟨x, .ofInt64 n, fun _ => rfl, rfl, rfl, rfl, exactly n⟩
    | float y => exact .inr ⟨x, y, fun _ => rfl, rfl, rfl, rfl, rfl⟩
    | ref | null => cases right
  | ref | null => cases left

theorem order_eq (left : a.isNumeric = true) (right : b.isNumeric = true) (op : OrderOp) :
    order op a b = .ok (.ofBool ((places a b).pass op.relates)) := by
  obtain ⟨m, n, rfl, rfl⟩ | ⟨x, y, promoted⟩ := ints_or_promoted left right
  · rw [order, op.onInts_eq]
    rfl
  · rw [promoted.order_eq, promoted.places_eq, op.onFloats_eq]

theorem equals_eq (left : a.isNumeric = true) (right : b.isNumeric = true) :
    a.equals b = (places a b).pass fun p q => p == q := by
  obtain ⟨m, n, rfl, rfl⟩ | ⟨x, y, promoted⟩ := ints_or_promoted left right
  · rw [Bool.eq_iff_iff]
    change (m == n) = true ↔ (m.toInt == n.toInt) = true
    rw [beq_iff_eq, beq_iff_eq, Int64.toInt_inj]
  · rw [promoted.equals_eq, promoted.places_eq]
    exact Binary64.compareRanks_eq _ x y

theorem isSome_places (left : a.isNumeric = true) (right : b.isNumeric = true) :
    (places a b).isSome = (!a.isNaN && !b.isNaN) := by
  obtain ⟨m, n, rfl, rfl⟩ | ⟨x, y, promoted⟩ := ints_or_promoted left right
  · rfl
  · rw [promoted.places_eq, promoted.left_isNaN, promoted.right_isNaN, Binary64.isSome_places]

theorem order_eq_error (other : ¬ (a.isNumeric = true ∧ b.isNumeric = true)) (op : OrderOp) :
    order op a b = .error
      (.mismatch op.opcode.mnemonic (if a.isNumeric then b else a)) := by
  cases a with
  | int | float =>
    cases b with
    | int | float => exact absurd ⟨rfl, rfl⟩ other
    | ref | null => rfl
  | ref | null => rfl

def Holds (op : OrderOp) (a b : Value) : Prop := order op a b = .ok (.ofBool true)

theorem holds_iff (left : a.isNumeric = true) (right : b.isNumeric = true) :
    Holds op a b ↔ (places a b).pass op.relates = true := by
  rw [Holds, order_eq left right]
  cases (places a b).pass op.relates <;> decide

theorem order_swap (left : a.isNumeric = true) (right : b.isNumeric = true) :
    order .lt a b = order .gt b a ∧ order .le a b = order .ge b a := by
  rw [order_eq left right, order_eq left right, order_eq right left, order_eq right left,
    places_swap a b]
  cases places a b <;> exact ⟨rfl, rfl⟩

theorem holds_le_iff (left : a.isNumeric = true) (right : b.isNumeric = true) :
    Holds .le a b ↔ Holds .lt a b ∨ a.equals b = true := by
  rw [holds_iff left right, holds_iff left right, equals_eq left right]
  cases places a b with
  | none => simp [Places.pass]
  | some pair =>
    simp only [Places.pass, OrderOp.relates, decide_eq_true_eq, beq_iff_eq]
    exact Int.le_iff_lt_or_eq

def ExactlyOne (p q r : Prop) : Prop := (p ∧ ¬ q ∧ ¬ r) ∨ (¬ p ∧ q ∧ ¬ r) ∨ (¬ p ∧ ¬ q ∧ r)

theorem exactlyOne_of_places (left : a.isNumeric = true) (right : b.isNumeric = true)
    (ordered : a.isNaN = false ∧ b.isNaN = false) :
    ExactlyOne (Holds .lt a b) (a.equals b = true) (Holds .gt a b) := by
  have placed := isSome_places left right
  rw [ordered.1, ordered.2] at placed
  obtain ⟨⟨p, q⟩, found⟩ := Option.isSome_iff_exists.mp placed
  rw [holds_iff left right, holds_iff left right, equals_eq left right, found]
  simp only [ExactlyOne, Places.pass, OrderOp.relates, decide_eq_true_eq, beq_iff_eq]
  omega

theorem none_holds_of_isNaN (left : a.isNumeric = true) (right : b.isNumeric = true)
    (unordered : a.isNaN = true ∨ b.isNaN = true) :
    (∀ op, order op a b = .ok (.ofBool false)) ∧ a.equals b = false := by
  have placed := isSome_places left right
  have nowhere : places a b = none := by
    rw [← Option.not_isSome_iff_eq_none, placed]
    rcases unordered with first | second
    · simp [first]
    · simp [second]
  rw [equals_eq left right, nowhere]
  refine ⟨?_, rfl⟩
  intro op
  rw [order_eq left right, nowhere]
  rfl

/-- The comparisons of two values, and the instructions that make them. Every comparison takes all
numbers and rejects the same operand of every other pair. On numbers the comparisons are each
other's mirror images and agree with equality; less, equal and greater exclude each other, and one
of them holds unless something is not a number, and then none does. -/
theorem comparisons_agree (a b : Value) :
    (a.isNumeric = true → b.isNumeric = true → ∀ op, ∃ r, order op a b = .ok (.ofBool r)) ∧
    (¬ (a.isNumeric = true ∧ b.isNumeric = true) → ∀ op, order op a b =
      .error (.typeMismatch op.opcode.mnemonic (if a.isNumeric then b else a).typeName)) ∧
    (a.isNumeric = true → b.isNumeric = true →
      (order .lt a b = order .gt b a ∧ order .le a b = order .ge b a) ∧
      (Holds .le a b ↔ Holds .lt a b ∨ a.equals b = true) ∧
      (a.isNaN = false ∧ b.isNaN = false →
        ExactlyOne (Holds .lt a b) (a.equals b = true) (Holds .gt a b)) ∧
      (a.isNaN = true ∨ b.isNaN = true →
        (∀ op, order op a b = .ok (.ofBool false)) ∧ a.equals b = false)) ∧
    ∀ (journal : Journal) (code : Code) (stack : OperandStack) (heap : Heap) (config : Config)
      (m₀ m : Machine) (rest : List Value), stack.Built →
      Machine.ofParts journal code stack heap config = .ok m₀ → m₀.Reaches m →
      m.Offers rest [a, b] →
        (∀ op c, order op a b = .ok c → m.Leaves (.order op) (rest ++ [c])) ∧
        (∀ op e, order op a b = .error e → m.Fails (.order op) e) ∧
        m.Leaves .eq (rest ++ [Value.ofBool (a.equals b)]) ∧
        m.Leaves .ne (rest ++ [Value.ofBool (!a.equals b)]) := by
  refine ⟨fun left right op => ⟨_, order_eq left right op⟩, order_eq_error, ?_, ?_⟩
  · intro left right
    exact ⟨order_swap left right, holds_le_iff left right, exactlyOne_of_places left right,
      none_holds_of_isNaN left right⟩
  · intro journal code stack heap config m₀ m rest built made reached offers
    have coherent := reached.coherent built made
    exact ⟨fun op c => Machine.leaves_of_binary coherent offers fun _ _ => rfl,
      fun op e => Machine.fails_of_binary coherent offers fun _ _ => rfl,
      Machine.leaves_of_binary coherent offers (fun _ _ => rfl) rfl,
      Machine.leaves_of_binary coherent offers (fun _ _ => rfl) rfl⟩

theorem rounded_number_is_equal_only :
    Holds .le (.int 9007199254740993) (.float rounded) ∧
    ¬ Holds .lt (.int 9007199254740993) (.float rounded) ∧
    ¬ Holds .gt (.int 9007199254740993) (.float rounded) ∧
    order .lt .null (.ref ⟨0, 0⟩) = .error (.typeMismatch "LT" "null") ∧
    order .ge (.float .nan) (.int 0) = .ok (.int 0) ∧
    atComparison.Leaves (.order .le) [.int 1] ∧ atComparison.Leaves .ne [.int 0] := by
  have equal : (Value.int 9007199254740993).equals (.float rounded) = true := by decide +kernel
  have built : (OperandStack.empty comparing.config.maxStackDepth).Built := .empty _
  have made : Machine.create (.empty none) comparing.code comparing.config = .ok comparing := rfl
  have reached : comparing.Reaches atComparison := .runFor 2 .refl
  have offers : atComparison.Offers [] [.int 9007199254740993, .float rounded] := by
    unfold Machine.Offers
    decide +kernel
  obtain ⟨-, -, laws, instructions⟩ := comparisons_agree (.int 9007199254740993) (.float rounded)
  obtain ⟨-, atMost, exactly, -⟩ := laws rfl rfl
  have holds : Holds .le (.int 9007199254740993) (.float rounded) := atMost.mpr (.inr equal)
  have only : ¬ Holds .lt (.int 9007199254740993) (.float rounded) ∧
      ¬ Holds .gt (.int 9007199254740993) (.float rounded) := by
    rcases exactly ⟨rfl, by decide +kernel⟩ with
      ⟨_, differ, _⟩ | ⟨less, _, greater⟩ | ⟨_, differ, _⟩
    · exact absurd equal differ
    · exact ⟨less, greater⟩
    · exact absurd equal differ
  obtain ⟨leaves, -, -, differs⟩ := instructions _ _ _ _ _ _ _ _ built made reached offers
  rw [equal] at differs
  obtain ⟨-, rejects, -, -⟩ := comparisons_agree .null (.ref ⟨0, 0⟩)
  obtain ⟨-, -, unordered, -⟩ := comparisons_agree (.float .nan) (.int 0)
  obtain ⟨-, -, -, none_holds⟩ := unordered rfl rfl
  have unequal := none_holds (.inl (by decide +kernel))
  exact ⟨holds, only.1, only.2, rejects (by decide) .lt, unequal.1 .ge, leaves .le _ holds, differs⟩

end Value

end StackMachine
