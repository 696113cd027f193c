import StackMachine.Config.Document
import StackMachine.Proofs.Assignments

namespace StackMachine.Config

open Toml (Lines Scalar)

inductive Limit where
  | maxStackDepth
  | maxCallDepth
  | heapBudget
  | localsPerFrame
  | instructionBudget
deriving DecidableEq, Repr

inductive Setting where
  | limit (which : Limit) (n : Nat)
  | profiling (on : Bool)
deriving DecidableEq, Repr

def Limit.key : Limit → String
  | maxStackDepth => "max_stack_depth"
  | maxCallDepth => "max_call_depth"
  | heapBudget => "heap_budget"
  | localsPerFrame => "locals_per_frame"
  | instructionBudget => "instruction_budget"

def Limit.set (n : Nat) (c : Config) : Limit → Config
  | maxStackDepth => { c with maxStackDepth := n }
  | maxCallDepth => { c with maxCallDepth := n }
  | heapBudget => { c with heapBudget := n }
  | localsPerFrame => { c with localsPerFrame := n }
  | instructionBudget => { c with instructionBudget := some n }

namespace Setting

def key : Setting → String
  | limit which _ => which.key
  | profiling _ => "profile_opcodes"

def value : Setting → Scalar
  | limit _ n => .number n
  | profiling on => .flag on

def entry (s : Setting) : String × Scalar := (s.key, s.value)

def line (s : Setting) : String := Toml.assignmentLine s.entry

def assign : Setting → Config → Config
  | limit which n, c => which.set n c
  | profiling on, c => { c with profileOpcodes := on }

theorem bare_key (s : Setting) : Toml.Bare s.key := by
  unfold Toml.Bare
  cases s with
  | limit which _ =>
    rw [key]
    cases which <;> decide
  | profiling _ =>
    rw [key]
    decide

end Setting

variable {c : Config} {text : String} {lib : Toml.Library}

def overridden (settings : List Setting) : Config := settings.foldr Setting.assign standard

/-- All settings of a configuration. A budget that is not limited is not set. -/
def settings (c : Config) : List Setting :=
  [Setting.limit .maxStackDepth c.maxStackDepth, Setting.limit .maxCallDepth c.maxCallDepth,
    Setting.limit .heapBudget c.heapBudget, Setting.limit .localsPerFrame c.localsPerFrame] ++
  c.instructionBudget.toList.map (Setting.limit .instructionBudget) ++
  [Setting.profiling c.profileOpcodes]

def numbers (c : Config) : List Nat :=
  [c.maxStackDepth, c.maxCallDepth, c.heapBudget, c.localsPerFrame] ++ c.instructionBudget.toList

theorem overridden_settings (c : Config) : overridden c.settings = c := by
  obtain ⟨_, _, _, _, budget, _⟩ := c
  cases budget <;> rfl

theorem nodup_key_settings (c : Config) : (c.settings.map Setting.key).Nodup := by
  obtain ⟨_, _, _, _, budget, _⟩ := c
  cases budget <;> simp [settings, Setting.key, Limit.key]

theorem fits_settings (small : ∀ n ∈ c.numbers, n ≤ 2 ^ 63 - 1) :
    ∀ s ∈ c.settings, s.value.Fits := by
  obtain ⟨_, _, _, _, budget, _⟩ := c
  cases budget <;> simpa [settings, numbers, Setting.value, Scalar.Fits] using small

theorem ofEntries?_eq_some {entries : Toml.Entries} :
    ofEntries? entries = some c ↔
      natField? entries "max_stack_depth" standard.maxStackDepth = some c.maxStackDepth ∧
      natField? entries "max_call_depth" standard.maxCallDepth = some c.maxCallDepth ∧
      natField? entries "heap_budget" standard.heapBudget = some c.heapBudget ∧
      natField? entries "locals_per_frame" standard.localsPerFrame = some c.localsPerFrame ∧
      optionalNatField? entries "instruction_budget" = some c.instructionBudget ∧
      boolField? entries "profile_opcodes" standard.profileOpcodes = some c.profileOpcodes := by
  obtain ⟨_, _, _, _, _, _⟩ := c
  simp only [ofEntries?, Option.bind_eq_bind, Option.bind_eq_some_iff, Option.pure_def,
    Option.some.injEq, Config.mk.injEq]
  constructor
  · rintro ⟨_, stack, _, calls, _, heap, _, locals, _, budget, _, profile, rfl, rfl, rfl, rfl, rfl,
      rfl⟩
    exact ⟨stack, calls, heap, locals, budget, profile⟩
  · rintro ⟨stack, calls, heap, locals, budget, profile⟩
    exact ⟨_, stack, _, calls, _, heap, _, locals, _, budget, _, profile, rfl, rfl, rfl, rfl, rfl,
      rfl⟩

theorem ofEntries?_cons {entries : Toml.Entries} (s : Setting)
    (read : ofEntries? entries = some c) :
    ofEntries? ((s.key, s.value.item) :: entries) = some (s.assign c) := by
  rw [ofEntries?_eq_some] at read ⊢
  simp only [natField?, optionalNatField?, boolField?] at read ⊢
  -- The reader of the key finds the new entry, all others look past it.
  cases s with
  | limit which n =>
    cases which <;> simp [Setting.key, Limit.key, Setting.value, Scalar.item, List.lookup_cons,
      Setting.assign, Limit.set, read]
  | profiling on =>
    simp [Setting.key, Setting.value, Scalar.item, List.lookup_cons, Setting.assign, read]

theorem ofEntries?_table (settings : List Setting) :
    ofEntries? (Toml.table (settings.map Setting.entry)) = some (overridden settings) := by
  induction settings with
  | nil => rfl
  | cons s settings ih => exact ofEntries?_cons s ih

theorem ofEntries?_congr {entries others : Toml.Entries}
    (same : ∀ key, entries.lookup key = others.lookup key) :
    ofEntries? entries = ofEntries? others := by
  simp only [ofEntries?, natField?, optionalNatField?, boolField?, same]

/-- The document comes to this configuration, or to the fault that its check finds. -/
structure Reads (lib : Toml.Library) (text : String) (c : Config) : Prop where
  accepted : c.check = .ok () → ofToml lib text = .ok c
  refused : ∀ e, c.check = .error e → ofToml lib text = .error (.invalid e)

theorem writable_settings {settings : List Setting} (fits : ∀ s ∈ settings, s.value.Fits) :
    Toml.Writable (settings.map Setting.entry) := by
  intro entry member
  obtain ⟨s, listed, rfl⟩ := List.mem_map.mp member
  exact ⟨s.bare_key, fits s listed⟩

theorem reads_lines (documented : lib.Documented) {settings : List Setting}
    (distinct : (settings.map Setting.key).Nodup) (fits : ∀ s ∈ settings, s.value.Fits)
    (written : Lines (settings.map Setting.line) text) :
    Reads lib text (overridden settings) := by
  have keys : ((settings.map Setting.entry).map Prod.fst).Nodup := by
    rw [List.map_map]
    exact distinct
  have lines : Lines ((settings.map Setting.entry).map Toml.assignmentLine) text := by
    rw [List.map_map]
    exact written
  obtain ⟨entries, parsed, values⟩ := documented.reads (writable_settings fits) keys lines
  have same : ∀ key, entries.lookup key =
      (Toml.table (settings.map Setting.entry)).lookup key := by
    intro key
    rw [values, Toml.lookup_table]
  have read : (lib.read? text).bind ofEntries? = some (overridden settings) := by
    rw [parsed, Option.bind_some, ofEntries?_congr same, ofEntries?_table]
  constructor
  · intro passed
    rw [ofToml, read]
    simp only [checked, passed]
  · intro e failed
    rw [ofToml, read]
    simp only [checked, failed]

theorem fields_eq (c : Config) : c.fields = c.settings.map Setting.entry := by
  obtain ⟨_, _, _, _, budget, _⟩ := c
  cases budget <;> rfl

theorem exists_toToml? (documented : lib.Documented) (small : ∀ n ∈ c.numbers, n ≤ 2 ^ 63 - 1) :
    ∃ text, c.toToml? lib = some text ∧ Lines (c.settings.map Setting.line) text := by
  have keys : ((c.settings.map Setting.entry).map Prod.fst).Nodup := by
    rw [List.map_map]
    exact c.nodup_key_settings
  obtain ⟨text, made, written⟩ :=
    documented.writes (writable_settings (fits_settings small)) keys
  rw [List.map_map] at written
  rw [toToml?, fields_eq]
  exact ⟨text, made, written⟩

theorem exists_setting_of_number {n : Nat} (member : n ∈ c.numbers) :
    ∃ s ∈ c.settings, s.value = .number n := by
  simp only [numbers, List.mem_append, List.mem_cons, List.not_mem_nil, or_false,
    Option.mem_toList] at member
  rcases member with (rfl | rfl | rfl | rfl) | limited
  · exact ⟨.limit .maxStackDepth _, by simp [settings], rfl⟩
  · exact ⟨.limit .maxCallDepth _, by simp [settings], rfl⟩
  · exact ⟨.limit .heapBudget _, by simp [settings], rfl⟩
  · exact ⟨.limit .localsPerFrame _, by simp [settings], rfl⟩
  · exact ⟨.limit .instructionBudget n, by simp [settings, Option.mem_def.mp limited], rfl⟩

theorem toToml?_eq_none (documented : lib.Documented)
    (large : ∃ n ∈ c.numbers, 2 ^ 63 - 1 < n) : c.toToml? lib = none := by
  obtain ⟨n, member, beyond⟩ := large
  obtain ⟨s, listed, value⟩ := exists_setting_of_number member
  apply documented.refuses
  refine ⟨s.entry, ?_, ?_⟩
  · rw [fields_eq]
    exact List.mem_map_of_mem listed
  · change ¬ s.value.Fits
    rw [value]
    exact Nat.not_le.mpr beyond

/-- Documents and configurations, with any library that keeps to what it documents, as
`Toml.library` does. The document of a configuration is read as that configuration, which can then
still fail its check, and there is none if a number is too great. A document of some of the settings
is read as the standard configuration with these settings. -/
theorem documents_give_configurations :
    Toml.library.Documented ∧ ∀ lib : Toml.Library, lib.Documented →
      (∀ c : Config, (∀ n ∈ c.numbers, n ≤ 2 ^ 63 - 1) →
        ∃ text, c.toToml? lib = some text ∧ Lines (c.settings.map Setting.line) text ∧
          Reads lib text c) ∧
      (∀ c : Config, (∃ n ∈ c.numbers, 2 ^ 63 - 1 < n) → c.toToml? lib = none) ∧
      ∀ (settings : List Setting) (text : String), (settings.map Setting.key).Nodup →
        (∀ s ∈ settings, s.value.Fits) → Lines (settings.map Setting.line) text →
          Reads lib text (overridden settings) := by
  refine ⟨Toml.documented_library, ?_⟩
  intro lib documented
  refine ⟨?_, fun c => toToml?_eq_none documented, fun settings text => reads_lines documented⟩
  intro c small
  obtain ⟨text, made, written⟩ := exists_toToml? documented small
  have read := reads_lines documented c.nodup_key_settings (fits_settings small) written
  rw [overridden_settings] at read
  exact ⟨text, made, written, read⟩

theorem greatest_number_survives_document :
    (∃ text, { standard with maxCallDepth := 2 ^ 63 - 1 }.toToml? Toml.library = some text ∧
      ofToml Toml.library text = .ok { standard with maxCallDepth := 2 ^ 63 - 1 }) ∧
    { standard with maxCallDepth := 2 ^ 63 }.toToml? Toml.library = none ∧
    (∃ text, (withLimits 0 4 4096).toToml? Toml.library = some text ∧ ofToml Toml.library text =
      .error (.invalid (.invalidConfig "max_stack_depth must be positive"))) ∧
    ofToml Toml.library "profile_opcodes = true\ninstruction_budget = 0" =
      .ok { standard with instructionBudget := some 0, profileOpcodes := true } := by
  obtain ⟨documented, every⟩ := documents_give_configurations
  obtain ⟨whole, none, partly⟩ := every _ documented
  obtain ⟨text, made, _, read⟩ := whole { standard with maxCallDepth := 2 ^ 63 - 1 } (by decide)
  obtain ⟨flawed, madeToo, _, readToo⟩ := whole (withLimits 0 4 4096) (by decide)
  have laid : "profile_opcodes = true\ninstruction_budget = 0" =
      (Setting.profiling true).line ++ "\n" ++ (Setting.limit .instructionBudget 0).line := by
    decide +kernel
  have written : Lines ([Setting.profiling true, .limit .instructionBudget 0].map Setting.line)
      "profile_opcodes = true\ninstruction_budget = 0" := by
    rw [laid]
    exact .next _ (.last _)
  refine ⟨⟨text, made, read.accepted rfl⟩, none _ ⟨2 ^ 63, by decide, by decide⟩,
    ⟨flawed, madeToo, readToo.refused _ rfl⟩, ?_⟩
  exact (partly _ _ (by decide) (by simp [Setting.value, Scalar.Fits]) written).accepted rfl

end StackMachine.Config
