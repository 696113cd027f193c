import Mathlib
import StackMachine.Proofs.Characters
import StackMachine.Toml.Library

namespace StackMachine.Toml

/-- The text of these lines, one below the other. The last of them need not be ended. -/
inductive Lines : List String → String → Prop where
  | none : Lines [] ""
  | last (line : String) : Lines [line] line
  | next {lines : List String} {text : String} (line : String) :
      Lines lines text → Lines (line :: lines) (line ++ "\n" ++ text)

namespace Scalar

def item : Scalar → Item
  | number n => .integer n
  | flag b => .boolean b

def Fits : Scalar → Prop
  | number n => n ≤ 2 ^ 63 - 1
  | flag _ => True

end Scalar

def Bare (key : String) : Prop := key ≠ "" ∧ key.toList.all isKeyChar = true

def Stops (cs : List Char) : Prop := cs = [] ∨ ∃ rest, cs = '\n' :: rest

/-- Texts differ when a class of characters tells their first characters apart. -/
theorem cons_ne_cons {p : Char → Bool} {c d : Char} {rest others : List Char}
    (inside : p c = true) (outside : p d = false) : c :: rest ≠ d :: others := by
  intro same
  rw [(List.cons.inj same).1, outside] at inside
  cases inside

section Numerals

variable {c : Char} {cs rest tail : List Char}

inductive Numeral : List Char → Prop where
  | stop {tail : List Char} : Stops tail → Numeral tail
  | digit {c : Char} {rest : List Char} : c.isDigit = true → Numeral rest → Numeral (c :: rest)

theorem Numeral.uncons (numeral : Numeral (c :: rest)) :
    (c.isDigit = true ∧ Numeral rest) ∨ c = '\n' := by
  cases numeral with
  | stop stops =>
    rcases stops with empty | ⟨others, ended⟩
    · cases empty
    · exact .inr (List.cons.inj ended).1
  | digit digit others => exact .inl ⟨digit, others⟩

theorem Numeral.head (numeral : Numeral (c :: rest)) : c.isDigit = true ∨ c = '\n' :=
  numeral.uncons.imp_left And.left

theorem Numeral.behind (numeral : Numeral (c :: rest)) (digit : c.isDigit = true) :
    Numeral rest := by
  rcases numeral.uncons with ⟨_, others⟩ | rfl
  · exact others
  · exact absurd digit (by decide)

theorem Numeral.of_digits (digits : ∀ c ∈ cs, c.isDigit = true) (stops : Stops tail) :
    Numeral (cs ++ tail) := by
  induction cs with
  | nil => exact .stop stops
  | cons c cs ih =>
    refine .digit (digits c List.mem_cons_self) (ih ?_)
    exact fun d member => digits d (List.mem_cons_of_mem _ member)

theorem Numeral.twoDigits {n : Nat} (numeral : Numeral cs)
    (read : twoDigits cs = some (n, rest)) : Numeral rest := by
  unfold Toml.twoDigits at read
  split at read
  · rename_i a b others
    split at read
    · rename_i both
      rw [Bool.and_eq_true] at both
      cases read
      exact (numeral.behind both.1).behind both.2
    · cases read
  · cases read

theorem Numeral.char (numeral : Numeral cs) (mark : Char) (other : mark.isDigit = false)
    (inside : mark ≠ '\n') : char mark cs = none := by
  unfold Toml.char
  split
  · rename_i d others
    refine if_neg ?_
    rintro rfl
    rcases numeral.head with digit | ended
    · rw [other] at digit
      cases digit
    · exact inside ended
  · rfl

theorem Numeral.date? (numeral : Numeral cs) : date? cs = none := by
  unfold Toml.date?
  cases century : Toml.twoDigits cs with
  | none => rfl
  | some first =>
    obtain ⟨_, behind⟩ := first
    have digits := numeral.twoDigits century
    rw [Option.bind_eq_bind, Option.bind_some]
    dsimp only
    cases year : Toml.twoDigits behind with
    | none => rfl
    | some second =>
      obtain ⟨_, last⟩ := second
      have mark := (digits.twoDigits year).char '-' (by decide) (by decide)
      rw [Option.bind_some]
      dsimp only
      rw [mark]
      rfl

theorem Numeral.time? (numeral : Numeral cs) : time? cs = none := by
  unfold Toml.time?
  cases hour : twoDigitsIn 0 23 cs with
  | none => rfl
  | some first =>
    obtain ⟨_, behind⟩ := first
    have read := (Option.filter_eq_some_iff.mp hour).1
    have mark := (numeral.twoDigits read).char ':' (by decide) (by decide)
    rw [Option.bind_eq_bind, Option.bind_some]
    dsimp only
    rw [mark]
    rfl

theorem Numeral.dateTime (numeral : Numeral cs) : dateTime cs = none := by
  rw [Toml.dateTime, numeral.date?, numeral.time?]
  rfl

theorem moreDigits_append (digits : ∀ c ∈ cs, c.isDigit = true) (stops : Stops tail) :
    moreDigits Char.isDigit (cs ++ tail) = (cs, tail) := by
  induction cs with
  | nil =>
    rcases stops with rfl | ⟨rest, rfl⟩
    · rfl
    · simp [moreDigits]
  | cons c cs ih =>
    have digit := digits c List.mem_cons_self
    have more := ih fun d member => digits d (List.mem_cons_of_mem _ member)
    have other : c ≠ '_' := by
      rintro rfl
      exact absurd digit (by decide)
    rw [List.cons_append, moreDigits, if_pos digit, more, prepend]
    intro d others same
    exact absurd same other

theorem toDigits_of_pos {n : Nat} (positive : 0 < n) :
    ∃ d ds, Nat.toDigits 10 n = d :: ds ∧ d ≠ '0' := by
  induction n using Nat.strongRecOn with
  | ind n ih =>
    by_cases small : n < 10
    · refine ⟨n.digitChar, [], Nat.toDigits_of_lt_base small, ?_⟩
      interval_cases n <;> decide
    · obtain ⟨d, ds, split, nonzero⟩ := ih (n / 10) (by omega) (by omega)
      refine ⟨d, ds ++ [(n % 10).digitChar], ?_, nonzero⟩
      rw [Nat.toDigits_of_base_le (by decide) (by omega), split, List.cons_append]

theorem plainDigits_toDigits (n : Nat) (stops : Stops tail) :
    plainDigits (Nat.toDigits 10 n ++ tail) = some (Nat.toDigits 10 n, tail) := by
  by_cases zero : n = 0
  · rw [zero, Nat.toDigits_zero]
    rfl
  · have digits := isDigit_of_toDigits n
    obtain ⟨d, ds, split, nonzero⟩ := toDigits_of_pos (Nat.pos_of_ne_zero zero)
    rw [split] at digits ⊢
    have first := digits d List.mem_cons_self
    have more := moreDigits_append (fun c member => digits c (List.mem_cons_of_mem _ member)) stops
    rw [List.cons_append, plainDigits, Toml.digits, if_pos first, more, prepend]
    intro others same
    exact nonzero (List.cons.inj same).1

theorem toDigits_eq_cons (n : Nat) : ∃ d ds, Nat.toDigits 10 n = d :: ds ∧ d.isDigit = true := by
  obtain ⟨d, ds, split⟩ := List.exists_cons_of_ne_nil (Nat.toDigits_ne_nil (n := n) (b := 10))
  refine ⟨d, ds, split, isDigit_of_toDigits n d ?_⟩
  rw [split]
  exact List.mem_cons_self

theorem sign_toDigits (n : Nat) (tail : List Char) :
    sign (Nat.toDigits 10 n ++ tail) = (false, Nat.toDigits 10 n ++ tail) := by
  obtain ⟨d, ds, split, digit⟩ := toDigits_eq_cons n
  rw [split, List.cons_append, sign]
  all_goals exact fun _ => cons_ne_cons digit rfl

theorem decimalFloat_toDigits (n : Nat) (stops : Stops tail) :
    decimalFloat (Nat.toDigits 10 n ++ tail) = none := by
  have noExponent : exponent tail = none := by
    rcases stops with rfl | ⟨rest, rfl⟩ <;> rfl
  have noFraction : fraction tail = none := by
    rcases stops with rfl | ⟨rest, rfl⟩ <;> rfl
  simp only [decimalFloat, sign_toDigits, plainDigits_toDigits n stops, Option.bind_some,
    noExponent, noFraction, Option.bind_none]

theorem specialFloat_toDigits (n : Nat) (tail : List Char) :
    specialFloat (Nat.toDigits 10 n ++ tail) = none := by
  obtain ⟨d, ds, split, digit⟩ := toDigits_eq_cons n
  rw [specialFloat, sign_toDigits, split, List.cons_append]
  split
  · rename_i same
    exact absurd same (cons_ne_cons digit rfl)
  · rename_i same
    exact absurd same (cons_ne_cons digit rfl)
  · rfl

theorem decimalInteger_toDigits {n : Nat} (fits : n ≤ 2 ^ 63 - 1) (stops : Stops tail) :
    decimalInteger (Nat.toDigits 10 n ++ tail) = some ((n : Int), tail) := by
  have bounds : -0x8000000000000000 ≤ (n : Int) ∧ (n : Int) < 0x8000000000000000 := by omega
  have inside : inRange n = some (n : Int) := by rw [inRange, if_pos bounds]
  rw [decimalInteger, sign_toDigits]
  dsimp only
  rw [plainDigits_toDigits n stops, Option.bind_some]
  dsimp only
  rw [if_neg Bool.false_ne_true, Nat.ofDigitChars_ten_toDigits, inside, Option.map_some]

theorem integer_toDigits {n : Nat} (fits : n ≤ 2 ^ 63 - 1) (stops : Stops tail) :
    integer (Nat.toDigits 10 n ++ tail) = some ((n : Int), tail) := by
  have numeral := Numeral.of_digits (isDigit_of_toDigits n) stops
  have decimal := decimalInteger_toDigits fits stops
  generalize Nat.toDigits 10 n ++ tail = cs at numeral decimal
  unfold integer
  -- Another base is marked by a letter behind the first digit.
  split
  · exact absurd (numeral.behind (by decide)).head (by decide)
  · exact absurd (numeral.behind (by decide)).head (by decide)
  · exact absurd (numeral.behind (by decide)).head (by decide)
  · exact decimal

theorem numeric_toDigits {n : Nat} (fits : n ≤ 2 ^ 63 - 1) (stops : Stops tail) :
    numeric (Nat.toDigits 10 n ++ tail) = some (.integer n, tail) := by
  have numeral := Numeral.of_digits (isDigit_of_toDigits n) stops
  -- Dates and numbers with a fraction are tried first, and neither is found.
  simp only [numeric, numeral.dateTime, float, decimalFloat_toDigits n stops,
    specialFloat_toDigits, integer_toDigits fits stops, Option.map_none, Option.none_or,
    Option.map_some]

end Numerals

section Readers

variable {c : Char} {rest tail : List Char} {key : String} {value : Scalar}

theorem plain_of_digit (digit : c.isDigit = true) : plain (c :: rest) = numeric (c :: rest) := by
  have unquoted : quoted (c :: rest) = none := by
    rw [quoted]
    all_goals exact fun _ => cons_ne_cons digit rfl
  rw [plain, unquoted]
  all_goals exact fun _ => cons_ne_cons digit rfl

theorem item_eq_plain {p : Char → Bool} (inside : p c = true) (array : p '[' = false)
    (table : p '\x7b' = false) (depth : Nat) : item depth (c :: rest) = plain (c :: rest) := by
  cases depth with
  | zero => rw [item]
  | succ depth =>
    rw [item]
    · exact fun _ => cons_ne_cons inside array
    · exact fun _ => cons_ne_cons inside table

theorem item_text (depth : Nat) (fits : value.Fits) (stops : Stops tail) :
    item depth (value.text.toList ++ tail) = some (value.item, tail) := by
  cases value with
  | number n =>
    rw [Scalar.text, Nat.toList_repr]
    have read := numeric_toDigits fits stops
    obtain ⟨d, ds, split, digit⟩ := toDigits_eq_cons n
    rw [split, List.cons_append] at read ⊢
    rw [item_eq_plain digit rfl rfl, plain_of_digit digit, read, Scalar.item]
  | flag b => cases b <;> exact item_eq_plain (p := Char.isAlpha) rfl rfl rfl depth

theorem skipBlanks_cons {p : Char → Bool} (inside : p c = true) (space : p ' ' = false)
    (tab : p '\t' = false) : skipBlanks (c :: rest) = c :: rest := by
  have visible : isBlank c = false := by
    rw [isBlank, Bool.or_eq_false_iff, beq_eq_false_iff_ne, beq_eq_false_iff_ne]
    constructor
    · rintro rfl
      exact Bool.false_ne_true (space.symm.trans inside)
    · rintro rfl
      exact Bool.false_ne_true (tab.symm.trans inside)
  rw [skipBlanks, List.dropWhile_cons_of_neg]
  rw [visible]
  exact Bool.false_ne_true

theorem skipBlanks_text (value : Scalar) (tail : List Char) :
    skipBlanks (' ' :: (value.text.toList ++ tail)) = value.text.toList ++ tail := by
  change skipBlanks (value.text.toList ++ tail) = _
  cases value with
  | number n =>
    obtain ⟨d, ds, split, digit⟩ := toDigits_eq_cons n
    rw [Scalar.text, Nat.toList_repr, split, List.cons_append, skipBlanks_cons digit rfl rfl]
  | flag b => cases b <;> rfl

theorem Bare.toList_eq (bare : Bare key) :
    ∃ c cs, key.toList = c :: cs ∧ isKeyChar c = true := by
  have nonempty : key.toList ≠ [] := by simpa using bare.1
  obtain ⟨c, cs, split⟩ := List.exists_cons_of_ne_nil nonempty
  refine ⟨c, cs, split, List.all_eq_true.mp bare.2 c ?_⟩
  rw [split]
  exact List.mem_cons_self

theorem Bare.simpleKey (bare : Bare key) (rest : List Char) :
    simpleKey (key.toList ++ ' ' :: rest) = some (key, ' ' :: rest) := by
  have chars := List.all_eq_true.mp bare.2
  have name : (key.toList ++ ' ' :: rest).takeWhile isKeyChar = key.toList := by
    rw [List.takeWhile_append_of_pos chars, List.takeWhile_cons_of_neg (by decide),
      List.append_nil]
  have left : (key.toList ++ ' ' :: rest).dropWhile isKeyChar = ' ' :: rest := by
    rw [List.dropWhile_append_of_pos chars, List.dropWhile_cons_of_neg (by decide)]
  obtain ⟨c, cs, split, first⟩ := bare.toList_eq
  rw [Toml.simpleKey, name, left]
  · rw [split]
    dsimp only
    rw [← split, String.ofList_toList]
  · rw [split]
    exact fun _ => cons_ne_cons first rfl
  · rw [split]
    exact fun _ => cons_ne_cons first rfl

theorem Bare.keyPath (bare : Bare key) (limit : Nat) (rest : List Char) :
    keyPath (limit + 1) (key.toList ++ ' ' :: '=' :: rest) = some ([key], '=' :: rest) := by
  have begun : skipBlanks (key.toList ++ ' ' :: '=' :: rest) =
      key.toList ++ ' ' :: '=' :: rest := by
    obtain ⟨c, cs, split, first⟩ := bare.toList_eq
    rw [split, List.cons_append, skipBlanks_cons first rfl rfl]
  have behind : skipBlanks (' ' :: '=' :: rest) = '=' :: rest := rfl
  rw [Toml.keyPath, begun, bare.simpleKey]
  dsimp only
  rw [behind]
  rfl

theorem toList_assignmentLine (key : String) (value : Scalar) (tail : List Char) :
    (assignmentLine (key, value)).toList ++ tail =
      key.toList ++ ' ' :: '=' :: ' ' :: (value.text.toList ++ tail) := by
  simp [assignmentLine]

theorem assignment_line (depth : Nat) (bare : Bare key) (fits : value.Fits) (stops : Stops tail) :
    assignment (item depth) ((assignmentLine (key, value)).toList ++ tail) =
      some (([key], value.item), tail) := by
  have path := bare.keyPath 78 (' ' :: (value.text.toList ++ tail))
  rw [toList_assignmentLine, assignment, nestingLimit, path]
  change (item depth (skipBlanks (' ' :: _))).map (fun x => (([key], x.1), x.2)) = _
  rw [skipBlanks_text, item_text depth fits stops, Option.map_some]

theorem statement_line (bare : Bare key) (fits : value.Fits) (stops : Stops tail) :
    statement ((assignmentLine (key, value)).toList ++ tail) =
      some (.assign [key] value.item, tail) := by
  have read := assignment_line nestingLimit bare fits stops
  obtain ⟨c, cs, split, first⟩ := bare.toList_eq
  rw [toList_assignmentLine, split, List.cons_append] at read ⊢
  rw [statement, read, Option.map_some]
  all_goals exact fun _ => cons_ne_cons first rfl

theorem statements?_line (limit : Nat) (bare : Bare key) (fits : value.Fits) (stops : Stops tail)
    (ended : lineEnd? tail = some rest) :
    statements? (limit + 1) ((assignmentLine (key, value)).toList ++ tail) =
      (statements? limit rest).map (.assign [key] value.item :: ·) := by
  have read := statement_line bare fits stops
  obtain ⟨c, cs, split, first⟩ := bare.toList_eq
  rw [toList_assignmentLine, split, List.cons_append] at read ⊢
  rw [statements?, skipBlanks_cons first rfl rfl]
  split
  · rename_i same
    cases same
  · rename_i same
    exact absurd same (cons_ne_cons first rfl)
  · rename_i same
    exact absurd same (cons_ne_cons first rfl)
  · rename_i same
    exact absurd same (cons_ne_cons first rfl)
  · rw [read]
    dsimp only
    rw [ended, Option.bind_some]

end Readers

section Documents

variable {entries : List (String × Scalar)} {key line text : String} {lines : List String}

theorem Lines.uncons (written : Lines (line :: lines) text) :
    ∃ tail below, text.toList = line.toList ++ tail ∧ Stops tail ∧
      lineEnd? tail = some below.toList ∧ below.toList.length ≤ tail.length ∧
      Lines lines below := by
  cases written with
  | last => exact ⟨[], "", by simp, .inl rfl, rfl, Nat.le_refl _, .none⟩
  | @next _ below _ others =>
    exact ⟨'\n' :: below.toList, below, by simp, .inr ⟨_, rfl⟩, rfl, by simp, others⟩

theorem Lines.join (lines : List String) :
    Lines lines (String.join (lines.map fun line => line ++ "\n")) := by
  induction lines with
  | nil => exact .none
  | cons line lines ih =>
    rw [List.map_cons, String.join_cons]
    exact .next line ih

def Writable (entries : List (String × Scalar)) : Prop :=
  ∀ entry ∈ entries, Bare entry.1 ∧ entry.2.Fits

theorem Writable.others {entry : String × Scalar} (writable : Writable (entry :: entries)) :
    Writable entries :=
  fun _ member => writable _ (List.mem_cons_of_mem _ member)

theorem statements?_lines {limit : Nat} (writable : Writable entries)
    (written : Lines (entries.map assignmentLine) text) (enough : text.toList.length < limit) :
    statements? limit text.toList =
      some (entries.map fun entry => .assign [entry.1] entry.2.item) := by
  induction entries generalizing text limit with
  | nil =>
    cases written
    obtain ⟨limit, rfl⟩ := Nat.exists_eq_add_one_of_ne_zero (Nat.ne_zero_of_lt enough)
    rfl
  | cons entry entries ih =>
    obtain ⟨key, value⟩ := entry
    obtain ⟨bare, fits⟩ := writable _ List.mem_cons_self
    obtain ⟨tail, below, split, stops, ended, shorter, others⟩ := written.uncons
    obtain ⟨limit, rfl⟩ := Nat.exists_eq_add_one_of_ne_zero (Nat.ne_zero_of_lt enough)
    -- The limit goes down by one and the text by a whole line.
    rw [split, toList_assignmentLine] at enough
    have left : below.toList.length < limit := by
      simp only [List.length_append, List.length_cons] at enough
      omega
    rw [split, statements?_line limit bare fits stops ended, ih writable.others others left,
      Option.map_some, List.map_cons]

theorem extend?_fresh {root : Entries} (item : Item) (fresh : root.lookup key = none) :
    Draft.extend? ⟨root, []⟩ (.assign [key] item) = some ⟨root ++ [(key, item)], []⟩ := by
  simp [Draft.extend?, Entries.assignUnder?, Entries.update?, Entries.assign?, Entries.add?, fresh]

def table (entries : List (String × Scalar)) : Entries :=
  entries.map fun entry => (entry.1, entry.2.item)

theorem foldlM_extend? (root : Entries) (distinct : (entries.map Prod.fst).Nodup)
    (fresh : ∀ entry ∈ entries, root.lookup entry.1 = none) :
    (entries.map fun entry => Statement.assign [entry.1] entry.2.item).foldlM Draft.extend?
      ⟨root, []⟩ = some ⟨root ++ table entries, []⟩ := by
  induction entries generalizing root with
  | nil => simp [table]
  | cons entry entries ih =>
    obtain ⟨first, others⟩ := List.nodup_cons.mp distinct
    have later : ∀ other ∈ entries,
        (root ++ [(entry.1, entry.2.item)]).lookup other.1 = none := by
      intro other member
      have differs : other.1 ≠ entry.1 := fun same => first (same ▸ List.mem_map_of_mem member)
      rw [List.lookup_append, fresh other (List.mem_cons_of_mem _ member), Option.none_or]
      simpa using differs
    rw [List.map_cons, List.foldlM_cons, extend?_fresh _ (fresh entry List.mem_cons_self),
      Option.bind_eq_bind, Option.bind_some, ih _ others later, table, table, List.map_cons,
      List.append_assoc, List.singleton_append]

theorem Lines.unmarked (written : Lines (entries.map assignmentLine) text)
    (writable : Writable entries) (rest : List Char) : text.toList ≠ '\ufeff' :: rest := by
  cases entries with
  | nil =>
    cases written
    simp
  | cons entry entries =>
    obtain ⟨tail, _, split, _⟩ := written.uncons
    obtain ⟨c, cs, begun, first⟩ := (writable _ List.mem_cons_self).1.toList_eq
    rw [split, toList_assignmentLine, begun, List.cons_append]
    exact cons_ne_cons first rfl

/-- The keys and values that are written line by line are the root table of the document. -/
theorem parse?_lines (writable : Writable entries) (distinct : (entries.map Prod.fst).Nodup)
    (written : Lines (entries.map assignmentLine) text) : parse? text = some (table entries) := by
  -- No key begins with a byte order mark, so the reader skips nothing.
  have statements := statements?_lines writable written (Nat.lt_add_one _)
  have built := foldlM_extend? [] distinct fun _ _ => rfl
  unfold parse?
  split
  · rename_i rest marked
    exact absurd marked (written.unmarked writable rest)
  · dsimp only
    rw [statements, Option.bind_some, built, Option.map_some, List.nil_append]

theorem lookup_table (entries : List (String × Scalar)) (key : String) :
    (table entries).lookup key = (entries.lookup key).map Scalar.item := by
  induction entries with
  | nil => rfl
  | cons entry entries ih =>
    rw [table, List.map_cons, List.lookup_cons, List.lookup_cons]
    cases key == entry.1 with
    | true => rfl
    | false => exact ih

theorem Scalar.isWritable_iff {value : Scalar} : value.isWritable = true ↔ value.Fits := by
  cases value with
  | number n => exact decide_eq_true_iff
  | flag b => exact ⟨fun _ => trivial, fun _ => rfl⟩

/-- What a library documents of documents without nesting: a record is written as a line for each
of its fields, unless it has a number that no integer of 64 bits can hold, and such lines are read
back as the values that they were written for. -/
structure Library.Documented (lib : Library) : Prop where
  writes : ∀ {entries : List (String × Scalar)}, Writable entries →
    (entries.map Prod.fst).Nodup →
      ∃ text, lib.write? entries = some text ∧ Lines (entries.map assignmentLine) text
  refuses : ∀ {entries : List (String × Scalar)}, (∃ entry ∈ entries, ¬ entry.2.Fits) →
    lib.write? entries = none
  reads : ∀ {entries : List (String × Scalar)} {text : String}, Writable entries →
    (entries.map Prod.fst).Nodup → Lines (entries.map assignmentLine) text →
      ∃ read, lib.read? text = some read ∧
        ∀ key, read.lookup key = (entries.lookup key).map Scalar.item

theorem documented_library : library.Documented where
  writes := by
    intro entries writable _
    have all : (entries.all fun entry => entry.2.isWritable) = true := by
      rw [List.all_eq_true]
      intro entry member
      exact Scalar.isWritable_iff.mpr (writable entry member).2
    have written := Lines.join (entries.map assignmentLine)
    rw [List.map_map] at written
    exact ⟨_, if_pos all, written⟩
  refuses := by
    rintro entries ⟨entry, member, large⟩
    apply if_neg
    intro all
    exact large (Scalar.isWritable_iff.mp (List.all_eq_true.mp all entry member))
  reads := by
    intro entries text writable distinct written
    exact ⟨table entries, parse?_lines writable distinct written, lookup_table entries⟩

end Documents

end StackMachine.Toml
