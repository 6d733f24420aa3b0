/-
  Hfrd.Ansible.JobCommand

  The command of a test job: preruntest.yml joins the arguments, and
  templates/testjob.j2 (both in backend/jenkins/pipelines/ansible) puts the
  result into the job as YAML.

  Nothing is escaped on the way, so a quote in an argument ends it, and a
  backslash starts an escape.
-/

import Hfrd.Lib.YamlFlow

namespace Hfrd.Ansible

open Hfrd.Lib

/-- `cmd_params | join('","')` -/
def joinedParams (cmd_params : List String) : String := "\",\"".intercalate cmd_params

/-- The value of `command` in the template. -/
def command (cmd_params : String) : String := "[\"" ++ cmd_params ++ "\" ]"

/-- The value, read as a flow sequence of double-quoted scalars. -/
def parseCommand (text : String) : Option (List String) :=
  (YamlFlow.parse text.toList).map fun items => items.map String.ofList

/-- An argument that stands for itself between quotes. -/
def PlainArgument (arg : String) : Prop := '"' ∉ arg.toList ∧ '\\' ∉ arg.toList

instance (arg : String) : Decidable (PlainArgument arg) := inferInstanceAs (Decidable (_ ∧ _))

theorem toList_command (cmd_params : List String) :
    (command (joinedParams cmd_params)).toList =
      '[' :: '"' :: (YamlFlow.betweenItems.intercalate (cmd_params.map String.toList) ++
        ['"', ' ', ']']) := by
  simp [command, joinedParams, String.toList_intercalate, YamlFlow.betweenItems]

/-- **When a job gets its arguments.**  Arguments of printable characters are
    read back exactly if there are any and none holds a quote or a backslash. -/
theorem parseCommand_iff {cmd_params : List String}
    (hprint : ∀ arg ∈ cmd_params, ∀ c ∈ arg.toList, YamlFlow.isPrintable c = true) :
    parseCommand (command (joinedParams cmd_params)) = some cmd_params ↔
      cmd_params ≠ [] ∧ ∀ arg ∈ cmd_params, PlainArgument arg := by
  have hlist : (parseCommand (command (joinedParams cmd_params)) = some cmd_params) ↔
      YamlFlow.parse (command (joinedParams cmd_params)).toList =
        some (cmd_params.map String.toList) := by
    rw [parseCommand, Option.map_eq_some_iff]
    constructor
    · rintro ⟨items, hitems, rfl⟩
      rw [hitems, List.map_map]
      simp
    · intro h
      refine ⟨_, h, ?_⟩
      rw [List.map_map]
      simp
  rw [hlist, toList_command, YamlFlow.parse_between_quotes_iff (List.forall_mem_map.mpr hprint),
    List.forall_mem_map, ne_eq, List.map_eq_nil_iff]
  exact Iff.rfl

theorem isPrintable_of_all {cmd_params : List String}
    (h : (cmd_params.all fun arg => arg.toList.all YamlFlow.isPrintable) = true) :
    ∀ arg ∈ cmd_params, ∀ c ∈ arg.toList, YamlFlow.isPrintable c = true := fun arg harg =>
  List.all_eq_true.mp (List.all_eq_true.mp h arg harg)

/-- A command with flags. -/
theorem parseCommand_iff_flags :
    parseCommand (command (joinedParams ["./gosdk", "invoke", "--chaincodeParams",
        "stringPattern~~~[a-z]*#"])) =
      some ["./gosdk", "invoke", "--chaincodeParams", "stringPattern~~~[a-z]*#"] :=
  (parseCommand_iff (isPrintable_of_all (by decide +kernel))).mpr ⟨by decide, by decide +kernel⟩

/-- A literal with quotes is no command, and of a pattern with an escaped
    backslash one is left. -/
theorem quotes_and_escapes :
    parseCommand (command (joinedParams ["gosdk", "[\"a\"]"])) = none ∧
      parseCommand (command (joinedParams ["gosdk", "a\\\\b"])) = some ["gosdk", "a\\b"] ∧
      parseCommand (command (joinedParams ["gosdk", "a\",\"b"])) = some ["gosdk", "a", "b"] ∧
      (∀ arg ∈ ["gosdk", "a\",\"b"], ∀ c ∈ arg.toList, YamlFlow.isPrintable c = true) ∧
      ¬ parseCommand (command (joinedParams ["gosdk", "a\",\"b"])) = some ["gosdk", "a\",\"b"] :=
  ⟨by decide +kernel, by decide +kernel, by decide +kernel,
    isPrintable_of_all (by decide +kernel), by decide +kernel⟩

end Hfrd.Ansible
