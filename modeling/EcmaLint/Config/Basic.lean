import EcmaLint.Json.Basic
import EcmaLint.Lint.Diagnostic

/-! Configurations: which rules are on, how serious their findings are and what options they get.
Presets turn on several rules at once. What is said of single rules is kept by their names, each
name once and in alphabetical order. -/
namespace EcmaLint

theorem Json.mem_insertMember {α : Type} {name : String} {value : α}
    {members : List (String × α)} {entry : String × α}
    (h : entry ∈ insertMember name value members) : entry = (name, value) ∨ entry ∈ members := by
  induction members with
  | nil => simpa [insertMember] using h
  | cons first rest ih =>
    obtain ⟨other, old⟩ := first
    simp only [insertMember] at h
    split at h
    · simpa using h
    · split at h
      · rcases List.mem_cons.1 h with h | h
        · exact .inl h
        · exact .inr (List.mem_cons_of_mem _ h)
      · rcases List.mem_cons.1 h with h | h
        · exact .inr (h ▸ List.mem_cons_self)
        · rcases ih h with h | h
          · exact .inl h
          · exact .inr (List.mem_cons_of_mem _ h)

/-- Putting a member into sorted members keeps them sorted. -/
theorem Json.pairwise_insertMember {α : Type} {name : String} {value : α}
    {members : List (String × α)} (h : members.Pairwise fun a b => a.1 < b.1) :
    (insertMember name value members).Pairwise fun a b => a.1 < b.1 := by
  induction members with
  | nil => simp [insertMember]
  | cons first rest ih =>
    obtain ⟨other, old⟩ := first
    obtain ⟨hfirst, hrest⟩ := List.pairwise_cons.1 h
    simp only [insertMember]
    split
    · rename_i hlt
      refine List.pairwise_cons.2 ⟨fun entry he => ?_, h⟩
      rcases List.mem_cons.1 he with rfl | he
      · exact hlt
      · exact String.lt_trans hlt (hfirst _ he)
    · split
      · rename_i heq
        exact List.pairwise_cons.2 ⟨fun entry he => heq ▸ hfirst _ he, hrest⟩
      · rename_i hlt hne
        refine List.pairwise_cons.2 ⟨fun entry he => ?_, ih hrest⟩
        rcases mem_insertMember he with rfl | he
        · exact Std.lt_of_le_of_ne (String.not_lt.1 hlt) fun h => hne h.symm
        · exact hfirst _ he

/-- A map from rule names. -/
structure RuleMap (α : Type) where
  entries : List (String × α) := []
  sorted : entries.Pairwise (fun a b => a.1 < b.1) := by simp

namespace RuleMap

variable {α : Type}

def empty : RuleMap α := {}

def isEmpty (map : RuleMap α) : Bool := map.entries.isEmpty

def get? (map : RuleMap α) (name : String) : Option α := map.entries.lookup name

/-- Put a value under a name, in place of the one that was there. -/
def insert (map : RuleMap α) (name : String) (value : α) : RuleMap α :=
  ⟨Json.insertMember name value map.entries, Json.pairwise_insertMember map.sorted⟩

/-- A map with further entries. Of several with one name the last one counts. -/
def insertAll (map : RuleMap α) (entries : List (String × α)) : RuleMap α :=
  entries.foldl (fun map (name, value) => map.insert name value) map

end RuleMap

/-- What a configuration says of one rule. -/
inductive RuleSetting where
  | severity (severity : Severity)
  | detailed (severity : Severity) (options : List Json)

namespace RuleSetting

def level : RuleSetting → Severity
  | .severity level | .detailed level _ => level

def options : RuleSetting → List Json
  | .severity _ => []
  | .detailed _ list => list

end RuleSetting

/-- The presets that a configuration builds on. -/
inductive Extends where
  | one (preset : String)
  | several (presets : List String)
  deriving DecidableEq, Repr

def Extends.presets : Extends → List String
  | .one preset => [preset]
  | .several presets => presets

/-- The presets that there are. -/
def knownPresets : List String := ["recommended"]

inductive LintConfig where
  /-- Presets and nothing else. -/
  | preset (presets : Extends)
  | full (presets : Option Extends) (rules : RuleMap RuleSetting)

namespace LintConfig

/-- The configuration that says nothing. -/
def empty : LintConfig := .full none .empty

instance : Inhabited LintConfig := ⟨empty⟩

def recommended : LintConfig := .preset (.one "recommended")

/-- The presets of a configuration. -/
def presets : LintConfig → List String
  | .preset presets => presets.presets
  | .full presets _ => (presets.map Extends.presets).getD []

/-- What a configuration says of rules by name. -/
def rules : LintConfig → RuleMap RuleSetting
  | .preset _ => .empty
  | .full _ rules => rules

/-- A configuration with another setting for one rule. -/
def withRule (config : LintConfig) (name : String) (setting : RuleSetting) : LintConfig :=
  match config with
  | .preset presets => .full (some presets) (RuleMap.empty.insert name setting)
  | .full presets rules => .full presets (rules.insert name setting)

/-- A configuration with another one over it. Settings of the other one replace settings for
the same rules, its presets replace all presets, and presets alone replace everything. -/
def merge (base upper : LintConfig) : LintConfig :=
  match upper with
  | .preset presets => .preset presets
  | .full upperPresets upperRules =>
      if upperPresets.isNone && upperRules.isEmpty then base
      else
        match base with
        | .preset presets => .full (upperPresets.or (some presets)) upperRules
        | .full presets rules =>
            .full (upperPresets.or presets) (rules.insertAll upperRules.entries)

end LintConfig

end EcmaLint
