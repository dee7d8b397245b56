/-
# Parser.Replay — a parser holds the last chain of each name that was read

`parse` adds to `user_chains` and never takes away, so what a parser holds depends on all
documents it has parsed.  A parse reads the entries of the document that is loaded, up to
the first one it throws at (`ReadsDocument`); a history reads what its parse calls read,
one after the other (`Reads`).  After any history, failed loads and parses included, the
parser holds for each name the chain that was read last (`parser_replays`).  So a parse
that is repeated at once gives the same answer, also where it throws, and changes no chain.
-/
import PreemptiveExecutor.Parser.History

namespace PreemptiveExecutor

open Theory

set_option autoImplicit false

namespace ChainYamlParser

/-- The chains of the entries before the first malformed one. -/
def ReadsDocument (conversions : YamlConversions) (document : YamlNode) (chains : List UserChain) : Prop :=
  ((∀ entries, ¬ HasEntries document entries) ∧ chains = []) ∨
    ∃ good rest, HasEntries document (good ++ rest) ∧ List.Forall₂ (Denotes conversions) good chains ∧
      ∀ bad ∈ rest.head?, Malformed conversions bad

/-- The chains that the parse calls of a history read, in the order of the calls. -/
inductive Reads (conversions : YamlConversions) : List ParserCall → List UserChain → Prop where
  | start : Reads conversions [] []
  | loadYamlFile {history : List ParserCall} {chains : List UserChain} (loaded : Except String YamlNode)
      (before : Reads conversions history chains) :
      Reads conversions (history ++ [.loadYamlFile loaded]) chains
  | parse {history : List ParserCall} {chains more : List UserChain} (before : Reads conversions history chains)
      (reads : ReadsDocument conversions (lastDocument history) more) :
      Reads conversions (history ++ [.parse]) (chains ++ more)

/-- The last of the chains with this name. -/
def LastRead (chains : List UserChain) (name : String) (chain : UserChain) : Prop :=
  ∃ before after, chains = before ++ chain :: after ∧ chain.chainName = name ∧
    ∀ later ∈ after, later.chainName ≠ name

/-! ## Storing -/

theorem storeChains_append (userChains : UnorderedMap String UserChain) (chains more : List UserChain) :
    storeChains userChains (chains ++ more) = storeChains (storeChains userChains chains) more :=
  List.foldl_append

theorem storeChains_lookup (userChains : UnorderedMap String UserChain) (chains : List UserChain) (name : String) :
    (storeChains userChains chains).lookup name =
      (chains.reverse.find? fun chain => chain.chainName = name).or (userChains.lookup name) := by
  have stored := UnorderedMap.lookup_foldl_assign UserChain.chainName id chains userChains name
  rw [Option.map_id] at stored
  exact stored

/-- Storing the same chains again changes nothing. -/
theorem storeChains_twice (userChains : UnorderedMap String UserChain) (chains : List UserChain) (name : String) :
    (storeChains (storeChains userChains chains) chains).lookup name = (storeChains userChains chains).lookup name := by
  rw [storeChains_lookup, storeChains_lookup, ← Option.or_assoc, Option.or_self]

theorem lastRead_iff {chains : List UserChain} {name : String} {chain : UserChain} :
    LastRead chains name chain ↔ (storeChains ∅ chains).lookup name = some chain := by
  rw [storeChains_lookup, AList.lookup_empty, Option.or_none, List.find?_eq_some_iff_append]
  constructor
  · rintro ⟨before, after, rfl, isName, others⟩
    refine ⟨decide_eq_true isName, after.reverse, before.reverse, by simp, fun later member => ?_⟩
    simpa using others later (List.mem_reverse.1 member)
  · rintro ⟨isName, after, before, isSplit, others⟩
    refine ⟨before.reverse, after.reverse, ?_, of_decide_eq_true isName, fun later member => ?_⟩
    · rw [← List.reverse_reverse chains, isSplit]
      simp
    · simpa using others later (List.mem_reverse.1 member)

/-! ## One parse -/

/-- **A parse stores what it reads**; its answer depends on the chains before it only by
whether there are any. -/
theorem parse_reads (conversions : YamlConversions) (parser : ChainYamlParser) :
    ∃ chains, ReadsDocument conversions parser.yamlNode chains ∧
      ((∃ error, ∀ userChains, ({ parser with userChains }).parse conversions =
          (.error error, { parser with userChains := storeChains userChains chains })) ∨
        (∀ userChains, ({ parser with userChains }).parse conversions =
          (.ok !(storeChains userChains chains).entries.isEmpty,
            { parser with userChains := storeChains userChains chains })) ∨
        chains = [] ∧ ∀ userChains, ({ parser with userChains }).parse conversions =
          (.ok false, { parser with userChains })) := by
  by_cases has : ∃ entries, HasEntries parser.yamlNode entries
  · obtain ⟨entries, has⟩ := has
    rcases wellFormed_or_malformed conversions entries with
      ⟨chains, each⟩ | ⟨good, bad, rest, chains, rfl, each, malformed⟩
    · refine ⟨chains, Or.inr ⟨entries, [], by rwa [List.append_nil], each, nofun⟩, Or.inr (Or.inl ?_)⟩
      exact fun userChains => parse_wellFormedEntries has each
    · refine ⟨chains, Or.inr ⟨good, bad :: rest, has, each, ?_⟩, Or.inl ?_⟩
      · rintro _ ⟨⟩
        exact malformed
      · obtain ⟨what, threw⟩ := parseEntry_malformed malformed
        refine ⟨.runtimeError what, fun userChains => ?_⟩
        have here : HasEntries { parser with userChains }.yamlNode (good ++ bad :: rest) := has
        refine here.parse_error ?_
        rw [parseEntries_append each, parseEntries, threw]
  · have without : ∀ entries, ¬ HasEntries parser.yamlNode entries := fun entries h => has ⟨entries, h⟩
    refine ⟨[], Or.inl ⟨without, rfl⟩, Or.inr (Or.inr ⟨rfl, fun userChains => ?_⟩)⟩
    exact parse_withoutEntries without

theorem parse_userChains (conversions : YamlConversions) (parser : ChainYamlParser) :
    ∃ chains, ReadsDocument conversions parser.yamlNode chains ∧
      (parser.parse conversions).2.userChains = storeChains parser.userChains chains := by
  obtain ⟨chains, reads, ⟨error, threw⟩ | answered | ⟨rfl, without⟩⟩ := parse_reads conversions parser
  · exact ⟨chains, reads, by rw [threw parser.userChains]⟩
  · exact ⟨chains, reads, by rw [answered parser.userChains]⟩
  · exact ⟨[], reads, by rw [without parser.userChains]; rfl⟩

/-- **A parse that is repeated** answers the same and changes nothing. -/
theorem parse_again (conversions : YamlConversions) (parser : ChainYamlParser) :
    ((parser.parse conversions).2.parse conversions).1 = (parser.parse conversions).1 ∧
      ∀ name, ((parser.parse conversions).2.parse conversions).2.userChains.lookup name =
        (parser.parse conversions).2.userChains.lookup name := by
  obtain ⟨chains, -, ⟨error, threw⟩ | answered | ⟨rfl, without⟩⟩ := parse_reads conversions parser
  · have first := threw parser.userChains
    have second := threw (storeChains parser.userChains chains)
    rw [first, second]
    exact ⟨rfl, storeChains_twice parser.userChains chains⟩
  · have first := answered parser.userChains
    have second := answered (storeChains parser.userChains chains)
    rw [first, second]
    refine ⟨?_, storeChains_twice parser.userChains chains⟩
    have same : (storeChains (storeChains parser.userChains chains) chains).entries.isEmpty =
        (storeChains parser.userChains chains).entries.isEmpty := by
      rw [Bool.eq_iff_iff, storeChains_isEmpty (storeChains parser.userChains chains), storeChains_isEmpty,
        ← and_assoc, and_self]
    rw [same]
  · have first := without parser.userChains
    rw [first]
    exact ⟨congrArg Prod.fst first, fun name => by rw [first]⟩

/-! ## Histories -/

theorem reads_history (conversions : YamlConversions) (history : List ParserCall) :
    ∃ chains, Reads conversions history chains ∧ (calls conversions history).userChains = storeChains ∅ chains := by
  induction history using List.reverseRecOn with
  | nil => exact ⟨[], .start, rfl⟩
  | append_singleton history last ih =>
      obtain ⟨chains, reads, held⟩ := ih
      rw [calls, List.foldl_concat]
      change ∃ chains, _ ∧ (call conversions (calls conversions history) last).userChains = _
      cases last with
      | loadYamlFile loaded =>
          refine ⟨chains, .loadYamlFile loaded reads, ?_⟩
          cases loaded <;> exact held
      | parse =>
          obtain ⟨more, readsMore, stored⟩ := parse_userChains conversions (calls conversions history)
          rw [calls_yamlNode] at readsMore
          refine ⟨chains ++ more, .parse reads readsMore, ?_⟩
          rw [storeChains_append, ← held]
          exact stored

/-- **A parser holds the last chain of each name that was read.**  After every history of
calls, whichever of them failed, the parser holds under a name the chain that was read
last under it, and no other; and parsing once more after a parse gives the same answer,
or throws the same, and leaves every chain as it is. -/
theorem parser_replays (conversions : YamlConversions) (history : List ParserCall) :
    (∃ chains, Reads conversions history chains ∧
      ∀ name chain, (calls conversions history).userChains.lookup name = some chain ↔ LastRead chains name chain) ∧
    ((calls conversions (history ++ [.parse])).parse conversions).1 =
      ((calls conversions history).parse conversions).1 ∧
    ∀ name, (calls conversions (history ++ [.parse, .parse])).userChains.lookup name =
      (calls conversions (history ++ [.parse])).userChains.lookup name := by
  obtain ⟨chains, reads, held⟩ := reads_history conversions history
  refine ⟨⟨chains, reads, fun name chain => by rw [held, lastRead_iff]⟩, ?_⟩
  have again := parse_again conversions (calls conversions history)
  simp only [calls, List.foldl_append, List.foldl_cons, List.foldl_nil, call] at again ⊢
  exact again

end ChainYamlParser

end PreemptiveExecutor
