import Mathlib.Data.List.Forall2
import RecordSchema.Backend.Dispatcher
import RecordSchema.Proofs.Dispatch.Lexemes

/-!
# Statements of a dispatcher

What a dispatcher by name does for a type is one call of a factory, or a choice among such calls by the
config object that is there. The statements are read as they are written if the names in them are.
-/

set_option autoImplicit false

namespace RecordSchema

namespace Cpp

/-!
## A fragment of C++
-/

/-- The words with which no expression begins. -/
def keywords : List (List Char) :=
  ["if", "else", "case", "default", "switch", "break", "return", "for", "while", "do"].map String.toList

/-- Lexemes within one statement: parentheses pair up, and there are no literals, braces or semicolons. -/
inductive Paired : List Lexeme → Prop where
  | nil : Paired []
  | flat {lexeme : Lexeme} {rest : List Lexeme} : lexeme.IsFlat → Paired rest → Paired (lexeme :: rest)
  | group {inner rest : List Lexeme} : Paired inner → Paired rest →
      Paired (.mark '(' :: inner ++ .mark ')' :: rest)

/-- A statement that is run on a condition, less what ends it. -/
def branch (condition body : List Lexeme) : List Lexeme :=
  .word "if".toList :: .mark '(' :: condition ++ .mark ')' :: .mark '{' :: body

/-- What follows the body of a branch: the end of it, and the branches that are tried after it. -/
def otherwise : List (List Lexeme × List Lexeme) → List Lexeme
  | [] => [.mark '}']
  | (condition, body) :: rest => .mark '}' :: .word "else".toList :: branch condition body ++ otherwise rest

/-- A choice: the body of the first branch whose condition holds is run. -/
def choice : List (List Lexeme × List Lexeme) → List Lexeme
  | [] => []
  | (condition, body) :: rest => branch condition body ++ otherwise rest

/-- Statements one after the other: expressions, and choices among statements. -/
inductive Statements : List Lexeme → Prop where
  | nil : Statements []
  | expression {head : List Char} {tail rest : List Lexeme} : head ∉ keywords → Paired tail →
      Statements rest → Statements (.word head :: tail ++ .mark ';' :: rest)
  | choice {branches : List (List Lexeme × List Lexeme)} {rest : List Lexeme} : branches ≠ [] →
      (∀ branch ∈ branches, Paired branch.1) → (∀ branch ∈ branches, Statements branch.2) →
      Statements rest → Statements (choice branches ++ rest)

theorem Paired.append {first second : List Lexeme} (one : Paired first) (other : Paired second) :
    Paired (first ++ second) := by
  induction one with
  | nil => exact other
  | flat here _ ih => exact .flat here ih
  | group inner _ _ ih =>
    rw [List.append_assoc, List.cons_append]
    exact .group inner ih

private theorem Paired.of_flat {lexemes : List Lexeme} (flats : ∀ lexeme ∈ lexemes, lexeme.IsFlat) :
    Paired lexemes := by
  induction lexemes with
  | nil => exact .nil
  | cons first rest ih =>
    obtain ⟨here, later⟩ := List.forall_mem_cons.mp flats
    exact .flat here (ih later)

/-!
## How a choice is written
-/

/-- The lines of a choice. -/
def choiceText (indent : String) (branches : List (String × String)) : String :=
  String.join (branches.zipIdx.map fun (branch, position) =>
      indent ++ (if position = 0 then "if" else "\x7d else if") ++ " (" ++ branch.1 ++ ") \x7b\n" ++
        branch.2) ++
    indent ++ "\x7d\n"

private theorem choiceText_cons (indent condition body : String) (rest : List (String × String)) :
    choiceText indent ((condition, body) :: rest) =
      indent ++ "if (" ++ condition ++ ") \x7b\n" ++ body ++
        (String.join (rest.map fun branch =>
            indent ++ "\x7d else if (" ++ branch.1 ++ ") \x7b\n" ++ branch.2) ++
          indent ++ "\x7d\n") := by
  have later : ∀ (branches : List (String × String)) (start : Nat), 0 < start →
      (branches.zipIdx start).map (fun entry =>
        indent ++ (if entry.2 = 0 then "if" else "\x7d else if") ++ " (" ++ entry.1.1 ++ ") \x7b\n" ++
          entry.1.2) =
        branches.map fun branch =>
          indent ++ "\x7d else if (" ++ branch.1 ++ ") \x7b\n" ++ branch.2 := by
    intro branches
    induction branches with
    | nil => exact fun _ _ => rfl
    | cons first others ih =>
      intro start positive
      rw [List.zipIdx_cons, List.map_cons, List.map_cons, ih _ (Nat.succ_pos _),
        if_neg (Nat.ne_of_gt positive)]
      simp [String.append_assoc]
  have first : "if" ++ " (" = "if (" := rfl
  rw [choiceText, List.zipIdx_cons, List.map_cons, String.join_cons, later rest _ Nat.one_pos]
  simp [String.append_assoc, ← first]

/-- A condition and the statements behind it are read as a branch. -/
def LexesBranch (text : String × String) (branch : List Lexeme × List Lexeme) : Prop :=
  Lexes text.1 branch.1 ∧ Lexes text.2 branch.2

section Choice

variable {indent : String} {texts : List (String × String)} {branches : List (List Lexeme × List Lexeme)}

theorem Lexes.otherwise (blank : Lexes indent []) (each : List.Forall₂ LexesBranch texts branches) :
    Lexes (String.join (texts.map fun branch =>
        indent ++ "\x7d else if (" ++ branch.1 ++ ") \x7b\n" ++ branch.2) ++ indent ++ "\x7d\n")
      (otherwise branches) := by
  induction each with
  | nil =>
    have closing : Lexes "\x7d\n" [.mark '}'] := by decide
    exact (by simp : "" ++ indent ++ "\x7d\n" = indent ++ "\x7d\n") ▸ blank.append closing
  | @cons text branch _ _ here _ ih =>
    have opening : Lexes "\x7d else if ("
        [.mark '}', .word "else".toList, .word "if".toList, .mark '('] := by decide
    have between : Lexes ") \x7b\n" [.mark ')', .mark '{'] := by decide
    have whole := ((((blank.append opening).append here.1).append between).append here.2).append ih
    simpa [Cpp.otherwise, Cpp.branch, String.append_assoc] using whole

theorem Lexes.choice (blank : Lexes indent []) (each : List.Forall₂ LexesBranch texts branches)
    (some : texts ≠ []) : Lexes (choiceText indent texts) (choice branches) := by
  cases each with
  | nil => exact absurd rfl some
  | @cons text branch _ _ here rest =>
    have opening : Lexes "if (" [.word "if".toList, .mark '('] := by decide
    have between : Lexes ") \x7b\n" [.mark ')', .mark '{'] := by decide
    have whole := ((((blank.append opening).append here.1).append between).append here.2).append
      (Lexes.otherwise blank rest)
    obtain ⟨condition, body⟩ := text
    rw [choiceText_cons]
    simpa [Cpp.choice, Cpp.branch, String.append_assoc] using whole

end Choice

end Cpp

namespace Dispatcher

open Cpp Text

/-!
## Calls of factories
-/

/-- A call of a factory: the function, and the interfaces of the record and of the config object that
is passed along. -/
structure FactoryCall where
  function : String
  interface : String
  config : Option String

/-- The statement around a call, for one of the stores. -/
def FactoryCall.statement (store : String) (call : FactoryCall) : String :=
  let arguments :=
    if call.config.isSome then "schema_version, group, idx, cfgPtr" else "schema_version, group, idx"
  s!"{store}.putProxy<{call.interface}>" ++ s!"({call.function}({arguments}), src);"

/-- The call for a type and one of its config types. -/
def factoryCall (options : Options) (model : Model) (id : RecordId) (config : Option RecordId) :
    FactoryCall :=
  ⟨factoryName model id, interfaceName options model id, config.map (interfaceName options model)⟩

/-- The calls for a type: one for each of its config types, or one without. -/
def factoryCalls (options : Options) (model : Model) (id : RecordId) : List FactoryCall :=
  match (model.record id).configs with
  | [] => [factoryCall options model id none]
  | configs => configs.map fun config => factoryCall options model id (some config)

/-- The store for a type. -/
def storeName (model : Model) (id : RecordId) : String :=
  if (model.record id).configType then "cfgStore" else "evt"

/-- The condition that there is a config object of a type. -/
def configTest (options : Options) (model : Model) (config : RecordId) : String :=
  "boost::shared_ptr<" ++ interfaceName options model config ++ "> cfgPtr = cfgStore.get(src)"

/-- The statements that put a type into its store: a call of its factory, or a choice among its calls by
the config object that is there. -/
inductive Stores (options : Options) (model : Model) (id : RecordId) : List Lexeme → Prop where
  | plain {lexemes : List Lexeme} : (model.record id).configs = [] →
      lexemes? ((factoryCall options model id none).statement (storeName model id)) = some lexemes →
      Stores options model id lexemes
  | configured {branches : List (List Lexeme × List Lexeme)} : (model.record id).configs ≠ [] →
      List.Forall₂ (fun config branch => lexemes? (configTest options model config) = some branch.1 ∧
          lexemes? ((factoryCall options model id (some config)).statement (storeName model id)) =
            some branch.2)
        (model.record id).configs branches →
      Stores options model id (choice branches)

/-- The names in the statements for a type are read as names. -/
structure Legible (options : Options) (model : Model) (id : RecordId) : Prop where
  interface : IsFlat (interfaceName options model id)
  factory : IsFlat (factoryName model id)
  configs : ∀ config ∈ (model.record id).configs, IsFlat (interfaceName options model config)

instance (options : Options) (model : Model) (id : RecordId) : Decidable (Legible options model id) :=
  decidable_of_iff
    (IsFlat (interfaceName options model id) ∧ IsFlat (factoryName model id) ∧
      ∀ config ∈ (model.record id).configs, IsFlat (interfaceName options model config))
    ⟨fun all => ⟨all.1, all.2.1, all.2.2⟩, fun names => ⟨names.interface, names.factory, names.configs⟩⟩

theorem configChain_eq (indent : String) (condition statement : RecordId → String)
    (configs : List RecordId) :
    configChain indent condition statement configs =
      choiceText indent (configs.map fun config =>
        (condition config, indent ++ "  " ++ statement config ++ "\n")) := by
  rw [configChain, choiceText, List.zipIdx_map, List.map_map]
  simp only [Function.comp_def, Prod.map_fst, Prod.map_snd, id_eq, String.append_assoc]

/-- These are the calls that the dispatcher writes. -/
theorem proxyStatements_eq (options : Options) (model : Model) (indent : String) (id : RecordId) :
    proxyStatements options model indent id =
      if (model.record id).configs.isEmpty then
        indent ++ (factoryCall options model id none).statement (storeName model id) ++ "\n"
      else
        choiceText indent ((model.record id).configs.map fun config => (configTest options model config,
          indent ++ "  " ++
            (factoryCall options model id (some config)).statement (storeName model id) ++ "\n")) := by
  rw [proxyStatements]
  cases (model.record id).configs with
  | nil =>
    simp only [List.isEmpty_nil, if_true, FactoryCall.statement, factoryCall, storeName,
      Option.map_none, Option.isSome_none, Bool.false_eq_true, if_false, toString_text,
      String.append_assoc]
  | cons config rest =>
    have some : ¬ (config :: rest).isEmpty = true := Bool.false_ne_true
    rw [if_neg some, if_neg some, configChain_eq]
    exact congrArg (choiceText indent) (List.map_congr_left fun config _ => rfl)

section Reading

variable {options : Options} {model : Model} {id : RecordId}

private theorem FactoryCall.lexes_statement {call : FactoryCall} {store : String} {word : List Char}
    (known : Lexes (store ++ ".") [.word word, .mark '.']) (begins : word ∉ keywords)
    (interface : IsFlat call.interface) (function : IsFlat call.function) :
    ∃ lexemes, Lexes (call.statement store) lexemes ∧ Statements lexemes := by
  have type : IsFlat ("putProxy<" ++ call.interface ++ ">") := by
    have front : IsFlat "putProxy<" := by decide
    have back : IsFlat ">" := by decide
    exact (front.append interface).append back
  obtain ⟨arguments, passed, text⟩ : ∃ arguments, IsFlat arguments ∧ call.statement store =
      store ++ ".putProxy<" ++ call.interface ++ ">" ++
        ("(" ++ call.function ++ "(" ++ arguments ++ "), src);") := by
    rw [statement]
    split
    · exact ⟨"schema_version, group, idx, cfgPtr", by decide, rfl⟩
    · exact ⟨"schema_version, group, idx", by decide, rfl⟩
  obtain ⟨typeWords, typeFlat, typeRead⟩ := Lexes.flat type "(" '(' (by decide) rfl
  obtain ⟨words, flat, read⟩ := Lexes.flat function "(" '(' (by decide) rfl
  obtain ⟨others, passedFlat, passedRead⟩ := Lexes.flat passed ")" ')' (by decide) rfl
  have ending : Lexes ", src);" [.mark ',', .word "src".toList, .mark ')', .mark ';'] := by decide
  have comma : (Lexeme.mark ',').IsFlat := by
    rw [Lexeme.IsFlat]
    decide
  have dot : (Lexeme.mark '.').IsFlat := by
    rw [Lexeme.IsFlat]
    decide
  have inner : Paired (words ++ (.mark '(' :: others ++ .mark ')' :: [.mark ',', .word "src".toList])) :=
    (Paired.of_flat flat).append (.group (.of_flat passedFlat)
      (.flat comma (.flat trivial .nil)))
  have tail : Paired (.mark '.' :: typeWords ++ (.mark '(' :: _ ++ .mark ')' :: [])) :=
    .flat dot ((Paired.of_flat typeFlat).append (.group inner .nil))
  have whole := (((known.append typeRead).append read).append passedRead).append ending
  have method : ".putProxy<" = "." ++ "putProxy<" := rfl
  have rest : "), src);" = ")" ++ ", src);" := rfl
  have same : call.statement store = store ++ "." ++ ("putProxy<" ++ call.interface ++ ">" ++ "(") ++
      (call.function ++ "(") ++ (arguments ++ ")") ++ ", src);" := by
    rw [text, method, rest]
    simp only [String.append_assoc]
  refine ⟨_, same ▸ whole, ?_⟩
  simpa using Statements.expression begins tail .nil

private theorem lexes_configTest {config : RecordId} (flat : IsFlat (interfaceName options model config)) :
    ∃ lexemes, Lexes (configTest options model config) lexemes ∧ Paired lexemes := by
  have type : IsFlat ("boost::shared_ptr<" ++ interfaceName options model config ++
      "> cfgPtr = cfgStore.get") := by
    have front : IsFlat "boost::shared_ptr<" := by decide
    have back : IsFlat "> cfgPtr = cfgStore.get" := by decide +kernel
    exact (front.append flat).append back
  obtain ⟨words, flats, read⟩ := Lexes.flat type "(" '(' (by decide) rfl
  have ending : Lexes "src)" [.word "src".toList, .mark ')'] := by decide
  have back : "> cfgPtr = cfgStore.get(src)" = "> cfgPtr = cfgStore.get" ++ ("(" ++ "src)") := by
    decide +kernel
  have same : configTest options model config = "boost::shared_ptr<" ++
      interfaceName options model config ++ "> cfgPtr = cfgStore.get" ++ "(" ++ "src)" := by
    refine (congrArg ("boost::shared_ptr<" ++ interfaceName options model config ++ ·) back).trans ?_
    simp only [String.append_assoc]
  refine ⟨_, same ▸ read.append ending, ?_⟩
  have source : Paired [.word "src".toList] := .flat trivial .nil
  simpa using (Paired.of_flat flats).append (.group source .nil)

private theorem lexes_factoryCall (legible : Legible options model id) (config : Option RecordId) :
    ∃ lexemes, Lexes ((factoryCall options model id config).statement (storeName model id)) lexemes ∧
      Statements lexemes := by
  have configs : Lexes ("cfgStore" ++ ".") [.word "cfgStore".toList, .mark '.'] := by decide
  have events : Lexes ("evt" ++ ".") [.word "evt".toList, .mark '.'] := by decide
  rw [storeName]
  split
  · exact FactoryCall.lexes_statement configs (by decide) legible.interface legible.factory
  · exact FactoryCall.lexes_statement events (by decide) legible.interface legible.factory

/-- The lines for a type are read as statements that put it into its store. -/
theorem lexes_proxyStatements (legible : Legible options model id) {indent : String}
    (blank : Lexes indent []) :
    ∃ lexemes, Lexes (proxyStatements options model indent id) lexemes ∧ Statements lexemes ∧
      Stores options model id lexemes := by
  have feed : Lexes "\n" [] := by decide
  have spaces : Lexes "  " [] := by decide
  rw [proxyStatements_eq]
  by_cases alone : (model.record id).configs = []
  · obtain ⟨lexemes, read, statements⟩ := lexes_factoryCall legible none
    rw [alone]
    have whole := (blank.append read).append feed
    rw [List.nil_append, List.append_nil] at whole
    exact ⟨lexemes, whole, statements, .plain alone read.lexemes?⟩
  · have each : ∀ config ∈ (model.record id).configs, ∃ branch : List Lexeme × List Lexeme,
        (Lexes (configTest options model config) branch.1 ∧ Paired branch.1) ∧
          Lexes ((factoryCall options model id (some config)).statement (storeName model id)) branch.2 ∧
            Statements branch.2 := by
      intro config listed
      obtain ⟨condition, test⟩ := lexes_configTest (legible.configs config listed)
      obtain ⟨body, call⟩ := lexes_factoryCall legible (some config)
      exact ⟨(condition, body), test, call⟩
    choose! branch test call using each
    have pairs : ∀ {related : RecordId → List Lexeme × List Lexeme → Prop},
        (∀ config ∈ (model.record id).configs, related config (branch config)) →
          List.Forall₂ related (model.record id).configs ((model.record id).configs.map branch) :=
      fun all => List.forall₂_map_right_iff.mpr (List.forall₂_same.mpr all)
    rw [if_neg (by simpa using alone)]
    refine ⟨choice ((model.record id).configs.map branch), Lexes.choice blank ?_ ?_, ?_, ?_⟩
    · rw [List.forall₂_map_left_iff]
      refine pairs fun config listed => ⟨(test config listed).1, ?_⟩
      have whole := ((blank.append spaces).append (call config listed).1).append feed
      rwa [List.nil_append, List.append_nil] at whole
    · exact fun none => alone (List.map_eq_nil_iff.mp none)
    · have statements : Statements (choice ((model.record id).configs.map branch) ++ []) := by
        refine .choice (fun none => alone (List.map_eq_nil_iff.mp none)) ?_ ?_ .nil
        · exact List.forall_mem_map.mpr fun config listed => (test config listed).2
        · exact List.forall_mem_map.mpr fun config listed => (call config listed).2
      rwa [List.append_nil] at statements
    · exact .configured alone (pairs fun config listed =>
        ⟨(test config listed).1.lexemes?, (call config listed).1.lexemes?⟩)

end Reading

end Dispatcher

end RecordSchema
