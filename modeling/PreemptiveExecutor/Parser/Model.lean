/-
# Parser.Model — `ChainYamlParser`

A YAML document is the tree of nodes the YAML library hands out.  A map keeps its
pairs in the order of the document, repeated keys included: iteration yields all
of them, `node[key]` the first.  How a node is converted to a string or to a
`std::uint32_t` is the library's business, so the two conversions are parameters;
the error of a conversion is the `what()` of its exception.

`parse` adds the chains to `user_chains` one by one, so a throw leaves the chains
before it behind: the result carries the parser next to the answer.
-/
import PreemptiveExecutor.Registry.Model

namespace PreemptiveExecutor

open Theory

set_option autoImplicit false

/-- `YAML::Node`. -/
inductive YamlNode where
  | null
  | scalar (value : String)
  | sequence (items : List YamlNode)
  | map (entries : List (YamlNode × YamlNode))

/-- `as<std::string>()` and `as<std::uint32_t>()`. -/
structure YamlConversions where
  asString : YamlNode → Except String String
  asUint32 : YamlNode → Except String Uint32

/-- `node[key]`, and `none` for the undefined node of a key that is not there. -/
def lookupKey (entries : List (YamlNode × YamlNode)) (key : String) : Option YamlNode :=
  (entries.find? fun entry => match entry.1 with
    | .scalar value => value == key
    | _ => false).map Prod.snd

def callbacksKey : String := "callbacks"
def deadlineKey : String := "deadline"
def periodKey : String := "period"

structure ChainYamlParser where
  yamlNode : YamlNode := .null
  userChains : UnorderedMap String UserChain := ∅

namespace ChainYamlParser

/-- `load_yaml_file`, given what `YAML::LoadFile` returns or throws. -/
def loadYamlFile (loaded : Except String YamlNode) (parser : ChainYamlParser) :
    Except Error Unit × ChainYamlParser :=
  match loaded with
  | .error what => (.error (.runtimeError ("Failed to load YAML file: " ++ what)), parser)
  | .ok yamlNode => (.ok (), { parser with yamlNode })

/-- The conversions of one chain, in the `try` block of `parse`. -/
def convertChain (conversions : YamlConversions) (chainName : String) (callbacks : List YamlNode)
    (deadline period : YamlNode) : Except String UserChain := do
  let callbacks ← callbacks.mapM conversions.asString
  let deadline ← conversions.asUint32 deadline
  let period ← conversions.asUint32 period
  return { chainName, callbacks, deadline, period }

/-- The checks of one chain, in the order of `parse`, and its conversion. -/
def parseChain (conversions : YamlConversions) (chainName : String) (chainNode : YamlNode) :
    Except String UserChain :=
  match chainNode with
  | .map fields =>
      match lookupKey fields callbacksKey, lookupKey fields deadlineKey, lookupKey fields periodKey with
      | some (.sequence (first :: rest)), some (.scalar deadline), some (.scalar period) =>
          match convertChain conversions chainName (first :: rest) (.scalar deadline) (.scalar period) with
          | .error what => .error ("Failed to parse chain '" ++ chainName ++ "': " ++ what)
          | .ok chain => .ok chain
      | some (.sequence (_ :: _)), some (.scalar _), _ =>
          .error ("Chain '" ++ chainName ++ "' has missing or invalid '" ++ periodKey ++ "' field")
      | some (.sequence (_ :: _)), _, _ =>
          .error ("Chain '" ++ chainName ++ "' has missing or invalid '" ++ deadlineKey ++ "' field")
      | _, _, _ =>
          .error ("Chain '" ++ chainName ++ "' has missing or empty '" ++ callbacksKey ++ "' field")
  | _ => .error ("Chain '" ++ chainName ++ "' is not a map")

/-- The name of an entry and its chain.  The conversion of the name is outside the
`try` block, so its exception leaves `parse` as it is. -/
def parseEntry (conversions : YamlConversions) (entry : YamlNode × YamlNode) : Except String UserChain :=
  match conversions.asString entry.1 with
  | .error what => .error what
  | .ok chainName =>
      if chainName.isEmpty then .error "Chain with empty name in YAML file"
      else parseChain conversions chainName entry.2

/-- The loop of `parse`; the chains stored before a throw stay stored. -/
def parseEntries (conversions : YamlConversions) :
    List (YamlNode × YamlNode) → UnorderedMap String UserChain →
      Except Error Unit × UnorderedMap String UserChain
  | [], userChains => (.ok (), userChains)
  | entry :: entries, userChains =>
      match parseEntry conversions entry with
      | .error what => (.error (.runtimeError what), userChains)
      | .ok chain => parseEntries conversions entries (userChains.insert chain.chainName chain)

/-- `parse`. -/
def parse (conversions : YamlConversions) (parser : ChainYamlParser) :
    Except Error Bool × ChainYamlParser :=
  match parser.yamlNode with
  | .map sections =>
      match lookupKey sections "chains" with
      | some (.map entries) =>
          match parseEntries conversions entries parser.userChains with
          | (.error error, userChains) => (.error error, { parser with userChains })
          | (.ok (), userChains) =>
              (.ok !userChains.entries.isEmpty, { parser with userChains })
      | _ => (.ok false, parser)
  | _ => (.ok false, parser)

/-- A parser that has loaded a document and parsed nothing yet. -/
abbrev fresh (document : YamlNode) : ChainYamlParser := { yamlNode := document }

/-- The chains of a parser in some iteration order of `user_chains`. -/
def Lists (parser : ChainYamlParser) (userChains : List UserChain) : Prop :=
  userChains.Perm (parser.userChains.entries.map Sigma.snd)

/-! ## Accepted chains -/

/-- What `parse` checks of a chain before it stores it: a name, and a callback. -/
structure WellFormed (chain : UserChain) : Prop where
  named : chain.chainName ≠ ""
  callbacks : chain.callbacks ≠ []

variable {conversions : YamlConversions}

theorem convertChain_ok {chainName : String} {callbacks : List YamlNode} {deadline period : YamlNode}
    {chain : UserChain} (converted : convertChain conversions chainName callbacks deadline period = .ok chain) :
    chain.chainName = chainName ∧ callbacks.mapM conversions.asString = .ok chain.callbacks ∧
      conversions.asUint32 deadline = .ok chain.deadline ∧
      conversions.asUint32 period = .ok chain.period := by
  unfold convertChain at converted
  cases names : callbacks.mapM conversions.asString with
  | error what => rw [names] at converted; cases converted
  | ok callbacks' =>
      rw [names] at converted
      cases isDeadline : conversions.asUint32 deadline with
      | error what => rw [isDeadline] at converted; cases converted
      | ok deadline' =>
          rw [isDeadline] at converted
          cases isPeriod : conversions.asUint32 period with
          | error what => rw [isPeriod] at converted; cases converted
          | ok period' =>
              rw [isPeriod] at converted
              cases converted
              exact ⟨rfl, rfl, rfl, rfl⟩

/-- A chain that is stored has passed the checks, and its fields are conversions of
the nodes of the entry. -/
theorem parseChain_ok {chainName : String} {chainNode : YamlNode} {chain : UserChain}
    (parsed : parseChain conversions chainName chainNode = .ok chain) :
    ∃ fields first rest deadline period, chainNode = .map fields ∧
      lookupKey fields callbacksKey = some (.sequence (first :: rest)) ∧
      lookupKey fields deadlineKey = some (.scalar deadline) ∧
      lookupKey fields periodKey = some (.scalar period) ∧
      convertChain conversions chainName (first :: rest) (.scalar deadline) (.scalar period) = .ok chain := by
  unfold parseChain at parsed
  split at parsed
  · rename_i fields
    split at parsed
    · rename_i first rest deadline period isCallbacks isDeadline isPeriod
      split at parsed
      · cases parsed
      · rename_i converted
        cases parsed
        exact ⟨fields, first, rest, deadline, period, rfl, isCallbacks, isDeadline, isPeriod, converted⟩
    · cases parsed
    · cases parsed
    · cases parsed
  · cases parsed

theorem parseEntry_wellFormed {entry : YamlNode × YamlNode} {chain : UserChain}
    (parsed : parseEntry conversions entry = .ok chain) : WellFormed chain := by
  unfold parseEntry at parsed
  split at parsed
  · cases parsed
  · rename_i chainName _
    split at parsed
    · cases parsed
    · rename_i nonempty
      obtain ⟨_, first, rest, _, _, -, -, -, -, converted⟩ := parseChain_ok parsed
      obtain ⟨isName, names, -, -⟩ := convertChain_ok converted
      refine ⟨fun empty => nonempty ?_, fun empty => ?_⟩
      · rw [← isName, empty]
        rfl
      · rw [empty, List.mapM_cons] at names
        cases one : conversions.asString first with
        | error what => rw [one] at names; cases names
        | ok name =>
            rw [one] at names
            cases others : rest.mapM conversions.asString with
            | error what => rw [others] at names; cases names
            | ok callbacks => rw [others] at names; cases names

/-- Every stored chain has passed the checks, and is stored under its name. -/
def AllWellFormed (userChains : UnorderedMap String UserChain) : Prop :=
  ∀ name chain, userChains.lookup name = some chain → chain.chainName = name ∧ WellFormed chain

/-- **The loop stores well-formed chains only**, whether it ends or throws. -/
theorem parseEntries_wellFormed (entries : List (YamlNode × YamlNode)) :
    ∀ {userChains : UnorderedMap String UserChain}, AllWellFormed userChains →
      AllWellFormed (parseEntries conversions entries userChains).2 := by
  induction entries with
  | nil => exact fun wellFormed => wellFormed
  | cons entry entries ih =>
      intro userChains wellFormed
      rw [parseEntries]
      cases parsed : parseEntry conversions entry with
      | error what => exact wellFormed
      | ok chain =>
          refine ih fun name chain' found => ?_
          rw [UnorderedMap.lookup_insert_eq] at found
          split at found
          · rename_i same
            cases found
            exact ⟨same.symm, parseEntry_wellFormed parsed⟩
          · exact wellFormed name chain' found

/-- **The chains of a parser that started empty are well formed.** -/
theorem parse_wellFormed {parser after : ChainYamlParser} {answer : Except Error Bool}
    (wellFormed : AllWellFormed parser.userChains) (parsed : parser.parse conversions = (answer, after)) :
    AllWellFormed after.userChains := by
  have kept : ∀ entries, AllWellFormed (parseEntries conversions entries parser.userChains).2 :=
    fun entries => parseEntries_wellFormed entries wellFormed
  unfold parse at parsed
  split at parsed
  · split at parsed
    · rename_i entries _
      specialize kept entries
      split at parsed <;> rename_i ran <;> rw [ran] at kept <;> cases parsed <;> exact kept
    · cases parsed
      exact wellFormed
  · cases parsed
    exact wellFormed

/-- The chains handed on by a parser that has parsed one document. -/
theorem Lists.wellFormed {document : YamlNode} {after : ChainYamlParser} {answer : Except Error Bool}
    (parsed : (fresh document).parse conversions = (answer, after)) {userChains : List UserChain}
    (lists : after.Lists userChains) : ∀ chain ∈ userChains, WellFormed chain := by
  have none_ : AllWellFormed (fresh document).userChains := fun name chain found => nomatch found
  have all := parse_wellFormed none_ parsed
  intro chain member
  obtain ⟨⟨name, chain'⟩, stored, rfl⟩ := List.mem_map.1 (lists.mem_iff.1 member)
  exact (all name chain' (UnorderedMap.mem_entries_iff.1 stored)).2

end ChainYamlParser

end PreemptiveExecutor
