/-
# Parser.History — one parser for several documents

`user_chains` is only ever added to: neither `load_yaml_file` nor `parse` empties it, and
`parse` stores the chains of a document one by one while it checks them.  So after a parse
that answers true the parser holds the chains of the last document and those of earlier
ones under other names (`parser_holdsLast_iff`), and a parse that throws has stored the
entries before the malformed one (`parse_failed_unchanged_iff`).
-/
import PreemptiveExecutor.Parser.Grammar

namespace PreemptiveExecutor

open Theory

set_option autoImplicit false

namespace ChainYamlParser

variable {conversions : YamlConversions}

/-! ## Histories -/

/-- A call on a parser; loading is given with what `YAML::LoadFile` does. -/
inductive ParserCall where
  | loadYamlFile (loaded : Except String YamlNode)
  | parse

/-- The parser after a call, whether it returns or throws. -/
def call (conversions : YamlConversions) (parser : ChainYamlParser) : ParserCall → ChainYamlParser
  | .loadYamlFile loaded => (parser.loadYamlFile loaded).2
  | .parse => (parser.parse conversions).2

/-- The parser after the calls of a history. -/
def calls (conversions : YamlConversions) (history : List ParserCall) : ChainYamlParser :=
  history.foldl (call conversions) {}

/-- The document that was loaded last. -/
def lastDocument (history : List ParserCall) : YamlNode :=
  history.foldl (fun document call => match call with
    | .loadYamlFile (.ok loaded) => loaded
    | _ => document) .null

theorem parse_yamlNode (parser : ChainYamlParser) : (parser.parse conversions).2.yamlNode = parser.yamlNode := by
  unfold parse
  split
  · split
    · split <;> rfl
    · rfl
  · rfl

theorem calls_yamlNode (conversions : YamlConversions) (history : List ParserCall) :
    (calls conversions history).yamlNode = lastDocument history := by
  induction history using List.reverseRecOn with
  | nil => rfl
  | append_singleton history last ih =>
      rw [calls, lastDocument, List.foldl_concat, List.foldl_concat]
      cases last with
      | parse => exact (parse_yamlNode _).trans ih
      | loadYamlFile loaded =>
          cases loaded with
          | error what => exact ih
          | ok document => rfl

/-! ## What a parser holds after an accepted document -/

/-- `user_chains` are the chains of the document, the last one of each name. -/
def HoldsExactly (conversions : YamlConversions) (userChains : UnorderedMap String UserChain)
    (document : YamlNode) : Prop :=
  ∀ name chain, userChains.lookup name = some chain ↔
    ∃ entries, HasEntries document entries ∧ LastNamed conversions entries name chain

def HasChain (document : YamlNode) : Prop := ∃ entries, HasEntries document entries ∧ entries ≠ []

/-- An entry of the document has this name. -/
def NamesChain (conversions : YamlConversions) (document : YamlNode) (name : String) : Prop :=
  ∃ entries, HasEntries document entries ∧ ∃ entry ∈ entries, conversions.asString entry.1 = .ok name

/-- A parse answers true only on a document all of whose entries are well formed. -/
theorem parse_true {parser after : ChainYamlParser} (accepted : parser.parse conversions = (.ok true, after)) :
    ∃ entries chains, HasEntries parser.yamlNode entries ∧ List.Forall₂ (Denotes conversions) entries chains ∧
      after.userChains = storeChains parser.userChains chains ∧
      ¬ (entries = [] ∧ parser.userChains.entries.isEmpty = true) := by
  by_cases has : ∃ entries, HasEntries parser.yamlNode entries
  · obtain ⟨entries, has⟩ := has
    rcases wellFormed_or_malformed conversions entries with
      ⟨chains, each⟩ | ⟨good, bad, rest, chains, rfl, each, malformed⟩
    · rw [parse_wellFormedEntries has each] at accepted
      obtain ⟨answer, rfl⟩ := Prod.mk.inj accepted
      refine ⟨entries, chains, has, each, rfl, fun ⟨none_, empty⟩ => ?_⟩
      rw [none_] at each
      cases each
      have isEmpty := (storeChains_isEmpty parser.userChains []).2 ⟨rfl, empty⟩
      rw [isEmpty] at answer
      cases answer
    · obtain ⟨error, parsed⟩ := parse_malformedEntry has each malformed
      rw [parsed] at accepted
      cases accepted
  · rw [parse_withoutEntries fun entries h => has ⟨entries, h⟩] at accepted
    cases accepted

/-- **An accepted parse leaves exactly the chains of the last document** if and only if
each chain that was held before has a name that document has too. -/
theorem parser_holdsLast_iff (history : List ParserCall) {after : ChainYamlParser}
    (accepted : (calls conversions history).parse conversions = (.ok true, after)) :
    (HoldsExactly conversions after.userChains (lastDocument history) ∧ HasChain (lastDocument history)) ↔
      ∀ name ∈ (calls conversions history).userChains, NamesChain conversions (lastDocument history) name := by
  obtain ⟨entries, chains, has, each, stored, notEmpty⟩ := parse_true accepted
  rw [calls_yamlNode] at has
  have lookup := fun name chain => lookup_storeChains each name chain (calls conversions history).userChains
  rw [← stored] at lookup
  constructor
  · rintro ⟨exact_, -⟩ name held
    obtain ⟨chain, found⟩ := UnorderedMap.mem_iff_lookup.1 held
    by_contra unnamed
    have kept := (lookup name chain).2 (Or.inr ⟨fun entry member isName =>
      unnamed ⟨entries, has, entry, member, isName⟩, found⟩)
    obtain ⟨entries', has', before, entry, later, rfl, denotes, isName, -⟩ := (exact_ name chain).1 kept
    exact unnamed ⟨_, has', entry, List.mem_append_right _ List.mem_cons_self, isName ▸ denotes.name⟩
  · intro named
    refine ⟨fun name chain => ?_, entries, has, fun none_ => notEmpty ⟨none_, ?_⟩⟩
    · rw [lookup]
      constructor
      · rintro (last | ⟨unnamed, found⟩)
        · exact ⟨entries, has, last⟩
        · have held := UnorderedMap.mem_iff_lookup.2 ⟨chain, found⟩
          obtain ⟨entries', has', entry, member, isName⟩ := named name held
          rw [has.unique has'] at member
          exact absurd isName (unnamed entry member)
      · rintro ⟨entries', has', last⟩
        rw [has.unique has'] at last
        exact Or.inl last
    · -- a chain that is held would have a name in a document without entries
      rw [List.isEmpty_iff]
      refine List.eq_nil_iff_forall_not_mem.2 fun held member => ?_
      obtain ⟨entries', has', entry, inEntries, -⟩ := named held.1
        (UnorderedMap.mem_iff_lookup.2 ⟨held.2, UnorderedMap.mem_entries_iff.1 member⟩)
      rw [has.unique has', none_] at inEntries
      cases inEntries

/-! ### Two documents -/

def scalarConversions : YamlConversions where
  asString
    | .scalar value => .ok value
    | _ => .error "bad conversion"
  asUint32
    | .scalar "5" => .ok 5
    | .scalar "10" => .ok 10
    | _ => .error "bad conversion"

def chainsDocument (entries : List (YamlNode × YamlNode)) : YamlNode :=
  .map [(.scalar "chains", .map entries)]

/-- An entry with the chain from `camera` to `detect`. -/
def chainEntry (name deadline : String) : YamlNode × YamlNode :=
  (.scalar name, .map [(.scalar "callbacks", .sequence [.scalar "camera", .scalar "detect"]),
    (.scalar "deadline", .scalar deadline), (.scalar "period", .scalar "5")])

theorem hasEntries_chainsDocument (entries : List (YamlNode × YamlNode)) :
    HasEntries (chainsDocument entries) entries := ⟨_, rfl, rfl⟩

/-- A document is parsed, and then another one loaded. -/
def parsedThenLoaded (first second : List (YamlNode × YamlNode)) : List ParserCall :=
  [.loadYamlFile (.ok (chainsDocument first)), .parse, .loadYamlFile (.ok (chainsDocument second))]

theorem parser_holdsLast_tightened :
    ∃ after, (calls scalarConversions (parsedThenLoaded [chainEntry "near" "10"] [chainEntry "near" "5"])).parse
        scalarConversions = (.ok true, after) ∧
      HoldsExactly scalarConversions after.userChains (chainsDocument [chainEntry "near" "5"]) := by
  refine ⟨_, rfl, ((parser_holdsLast_iff (parsedThenLoaded [chainEntry "near" "10"] [chainEntry "near" "5"])
    rfl).2 fun name held => ?_).1⟩
  have isNear : name ∈ ["near"] := held
  obtain rfl := List.mem_singleton.1 isNear
  exact ⟨_, hasEntries_chainsDocument _, _, List.mem_cons_self, rfl⟩

/-- **A chain of an earlier document stays**, and makes a document without chains
acceptable. -/
theorem parser_holdsStale :
    (∃ after, (calls scalarConversions (parsedThenLoaded [chainEntry "near" "10"] [chainEntry "far" "10"])).parse
        scalarConversions = (.ok true, after) ∧
      ¬ HoldsExactly scalarConversions after.userChains (chainsDocument [chainEntry "far" "10"])) ∧
    ∃ after, (calls scalarConversions (parsedThenLoaded [chainEntry "near" "10"] [])).parse
        scalarConversions = (.ok true, after) ∧ ¬ HasChain (chainsDocument []) := by
  refine ⟨⟨_, rfl, fun holds => ?_⟩, _, rfl, ?_⟩
  · obtain ⟨entries, has, before, entry, later, isSplit, denotes, isName, -⟩ := (holds "near" _).1 rfl
    rw [(hasEntries_chainsDocument _).unique has] at isSplit
    have member : entry ∈ [chainEntry "far" "10"] :=
      isSplit ▸ List.mem_append_right before List.mem_cons_self
    obtain rfl := List.mem_singleton.1 member
    have far := denotes.name
    rw [isName] at far
    exact absurd far (by decide)
  · rintro ⟨entries, has, nonempty⟩
    exact nonempty ((hasEntries_chainsDocument []).unique has)

/-! ## What a failed parse leaves -/

/-- **A parse that does not answer true changes nothing** if and only if the entries before
a malformed one say what the parser holds already. -/
theorem parse_failed_unchanged_iff (conversions : YamlConversions) (parser : ChainYamlParser) :
    (∀ answer after, parser.parse conversions = (answer, after) → answer ≠ .ok true →
      ∀ name, after.userChains.lookup name = parser.userChains.lookup name) ↔
    ∀ good bad rest, HasEntries parser.yamlNode (good ++ bad :: rest) →
      (∀ entry ∈ good, ∃ chain, Denotes conversions entry chain) → Malformed conversions bad →
      ∀ name chain, LastNamed conversions good name chain → parser.userChains.lookup name = some chain := by
  constructor
  · intro unchanged good bad rest has wellFormed malformed name chain last
    obtain ⟨chains, each⟩ := (each_iff good).2 wellFormed
    obtain ⟨error, parsed⟩ := parse_malformedEntry has each malformed
    have same := unchanged _ _ parsed (fun accepted => by cases accepted) name
    rw [← same]
    exact (lookup_storeChains each name chain parser.userChains).2 (Or.inl last)
  · intro known answer after parsed failed name
    by_cases has : ∃ entries, HasEntries parser.yamlNode entries
    · obtain ⟨entries, has⟩ := has
      rcases wellFormed_or_malformed conversions entries with
        ⟨chains, each⟩ | ⟨good, bad, rest, chains, rfl, each, malformed⟩
      · -- the answer is false, so the map is still empty
        rw [parse_wellFormedEntries has each] at parsed
        obtain ⟨rfl, rfl⟩ := Prod.mk.inj parsed
        have isEmpty : (storeChains parser.userChains chains).entries.isEmpty = true := by
          by_contra nonempty
          exact failed (by rw [Bool.eq_false_iff.2 nonempty]; rfl)
        obtain ⟨rfl, -⟩ := (storeChains_isEmpty _ _).1 isEmpty
        rfl
      · obtain ⟨error, parsed'⟩ := parse_malformedEntry has each malformed
        rw [parsed'] at parsed
        obtain ⟨rfl, rfl⟩ := Prod.mk.inj parsed
        have stored := fun chain => lookup_storeChains each name chain parser.userChains
        refine Option.ext fun chain => (stored chain).trans ?_
        constructor
        · rintro (last | ⟨-, found⟩)
          · exact known good bad rest has (each_wellFormed each) malformed name chain last
          · exact found
        · intro found
          by_cases named : ∃ entry ∈ good, conversions.asString entry.1 = .ok name
          · obtain ⟨last, isLast⟩ := lastNamed_of_named each named
            have same := known good bad rest has (each_wellFormed each) malformed name last isLast
            rw [found] at same
            cases same
            exact Or.inl isLast
          · exact Or.inr ⟨fun entry member isName => named ⟨entry, member, isName⟩, found⟩
    · rw [parse_withoutEntries fun entries h => has ⟨entries, h⟩] at parsed
      cases parsed
      rfl

/-- **A parse that throws can have stored chains**: those before the malformed one. -/
theorem parse_failed_stores :
    ∃ error after, (fresh (chainsDocument [chainEntry "near" "10", (.scalar "far", .null)])).parse
        scalarConversions = (.error error, after) ∧
      (fresh (chainsDocument [chainEntry "near" "10", (.scalar "far", .null)])).userChains.lookup "near" = none ∧
      after.userChains.lookup "near" =
        some { chainName := "near", callbacks := ["camera", "detect"], deadline := 10, period := 5 } :=
  ⟨_, _, rfl, rfl, rfl⟩

end ChainYamlParser

end PreemptiveExecutor
