/-
# Parser.Grammar — the documents `parse` accepts

`Denotes` says which entries of the `chains` map are well formed, and which chain such an
entry stands for: the grammar of the configuration file, stated without the checks of
`parse` and their order.  `parse` of a fresh parser answers true on the documents of the
grammar, with the last entry of each name, false on the documents without a chain, and
throws on all others (`parse_grammar`).
-/
import PreemptiveExecutor.Theory.Loop
import PreemptiveExecutor.Parser.Model

namespace PreemptiveExecutor

open Theory

set_option autoImplicit false

namespace ChainYamlParser

variable {conversions : YamlConversions}

/-! ## The grammar -/

/-- A well-formed entry of the `chains` map, and the chain it stands for. -/
structure Denotes (conversions : YamlConversions) (entry : YamlNode × YamlNode) (chain : UserChain) : Prop where
  name : conversions.asString entry.1 = .ok chain.chainName
  named : chain.chainName ≠ ""
  value : ∃ fields, entry.2 = .map fields ∧
    (∃ items, lookupKey fields callbacksKey = some (.sequence items) ∧ items ≠ [] ∧
      List.Forall₂ (fun item callback => conversions.asString item = .ok callback) items chain.callbacks) ∧
    (∃ deadline, lookupKey fields deadlineKey = some (.scalar deadline) ∧
      conversions.asUint32 (.scalar deadline) = .ok chain.deadline) ∧
    ∃ period, lookupKey fields periodKey = some (.scalar period) ∧
      conversions.asUint32 (.scalar period) = .ok chain.period

/-- An entry that `parse` throws at. -/
def Malformed (conversions : YamlConversions) (entry : YamlNode × YamlNode) : Prop :=
  ∀ chain, ¬ Denotes conversions entry chain

/-- The root is a map with a map of chains, and these are its entries. -/
def HasEntries (document : YamlNode) (entries : List (YamlNode × YamlNode)) : Prop :=
  ∃ sections, document = .map sections ∧ lookupKey sections "chains" = some (.map entries)

/-- A document with at least one chain, all of them well formed. -/
def Accepts (conversions : YamlConversions) (document : YamlNode) : Prop :=
  ∃ entries, HasEntries document entries ∧ entries ≠ [] ∧
    ∀ entry ∈ entries, ∃ chain, Denotes conversions entry chain

/-- The root or its `chains` is missing or not a map, or there is no chain in it. -/
def WithoutChains (document : YamlNode) : Prop :=
  (∀ entries, ¬ HasEntries document entries) ∨ HasEntries document []

/-- The chain is that of the last entry of this name. -/
def LastNamed (conversions : YamlConversions) (entries : List (YamlNode × YamlNode)) (name : String)
    (chain : UserChain) : Prop :=
  ∃ before entry after, entries = before ++ entry :: after ∧ Denotes conversions entry chain ∧
    chain.chainName = name ∧ ∀ later ∈ after, conversions.asString later.1 ≠ .ok name

theorem HasEntries.unique {document : YamlNode} {entries entries' : List (YamlNode × YamlNode)}
    (has : HasEntries document entries) (has' : HasEntries document entries') : entries' = entries := by
  obtain ⟨sections, rfl, found⟩ := has
  obtain ⟨_, same, found'⟩ := has'
  cases same
  rw [found] at found'
  cases found'
  rfl

/-! ## One entry -/

theorem convertChain_iff {chainName : String} {callbacks : List YamlNode} {deadline period : YamlNode}
    {chain : UserChain} :
    convertChain conversions chainName callbacks deadline period = .ok chain ↔
      chain.chainName = chainName ∧ callbacks.mapM conversions.asString = .ok chain.callbacks ∧
        conversions.asUint32 deadline = .ok chain.deadline ∧ conversions.asUint32 period = .ok chain.period := by
  refine ⟨convertChain_ok, ?_⟩
  rintro ⟨rfl, isCallbacks, isDeadline, isPeriod⟩
  unfold convertChain
  rw [isCallbacks, isDeadline, isPeriod]
  rfl

/-- **`parse` stores the chain of a well-formed entry**, and throws at any other. -/
theorem parseEntry_iff {entry : YamlNode × YamlNode} {chain : UserChain} :
    parseEntry conversions entry = .ok chain ↔ Denotes conversions entry chain := by
  unfold parseEntry
  constructor
  · intro parsed
    split at parsed
    · cases parsed
    · rename_i chainName isName
      split at parsed
      · cases parsed
      · rename_i nonempty
        obtain ⟨fields, first, rest, deadline, period, isMap, isCallbacks, isDeadline, isPeriod, converted⟩ :=
          parseChain_ok parsed
        obtain ⟨rfl, names, hasDeadline, hasPeriod⟩ := convertChain_iff.1 converted
        refine ⟨isName, fun empty => nonempty (by rw [empty]; rfl), fields, isMap, ?_, ?_, ?_⟩
        · exact ⟨first :: rest, isCallbacks, List.cons_ne_nil _ _, Loop.mapM_ok_iff.1 names⟩
        · exact ⟨deadline, isDeadline, hasDeadline⟩
        · exact ⟨period, isPeriod, hasPeriod⟩
  · rintro ⟨isName, named, fields, isMap, ⟨items, isCallbacks, nonempty, names⟩,
      ⟨deadline, isDeadline, hasDeadline⟩, period, isPeriod, hasPeriod⟩
    have converted : convertChain conversions chain.chainName items (.scalar deadline) (.scalar period) = .ok chain :=
      convertChain_iff.2 ⟨rfl, Loop.mapM_ok_iff.2 names, hasDeadline, hasPeriod⟩
    have notEmpty : chain.chainName.isEmpty = false := by
      rw [Bool.eq_false_iff, ne_eq, String.isEmpty_iff]
      exact named
    obtain ⟨first, rest, rfl⟩ := List.exists_cons_of_ne_nil nonempty
    simp only [isName, notEmpty, Bool.false_eq_true, if_false, parseChain, isMap, isCallbacks, isDeadline, isPeriod,
      converted]

theorem Denotes.unique {entry : YamlNode × YamlNode} {chain chain' : UserChain}
    (denotes : Denotes conversions entry chain) (denotes' : Denotes conversions entry chain') : chain' = chain := by
  have same := (parseEntry_iff.2 denotes').symm.trans (parseEntry_iff.2 denotes)
  cases same
  rfl

theorem parseEntry_malformed {entry : YamlNode × YamlNode} (malformed : Malformed conversions entry) :
    ∃ what, parseEntry conversions entry = .error what := by
  cases parsed : parseEntry conversions entry with
  | error what => exact ⟨what, rfl⟩
  | ok chain => exact absurd (parseEntry_iff.1 parsed) (malformed chain)

/-! ## The loop -/

/-- The chains stored one after the other under their names. -/
def storeChains (userChains : UnorderedMap String UserChain) (chains : List UserChain) :
    UnorderedMap String UserChain :=
  chains.foldl (fun userChains chain => userChains.insert chain.chainName chain) userChains

section Loop

variable {entries good rest : List (YamlNode × YamlNode)} {chains : List UserChain}

theorem parseEntries_append (each : List.Forall₂ (Denotes conversions) good chains)
    (rest : List (YamlNode × YamlNode)) :
    ∀ userChains, parseEntries conversions (good ++ rest) userChains =
      parseEntries conversions rest (storeChains userChains chains) := by
  induction each with
  | nil => exact fun _ => rfl
  | cons denotes _ ih =>
      intro userChains
      rw [List.cons_append, parseEntries, parseEntry_iff.2 denotes]
      exact ih _

theorem each_wellFormed (each : List.Forall₂ (Denotes conversions) entries chains) :
    ∀ entry ∈ entries, ∃ chain, Denotes conversions entry chain := by
  induction each with
  | nil => exact fun _ member => by cases member
  | cons denotes _ ih => exact List.forall_mem_cons.2 ⟨⟨_, denotes⟩, ih⟩

/-- All entries are well formed, or there is a first one that is not. -/
theorem wellFormed_or_malformed (conversions : YamlConversions) (entries : List (YamlNode × YamlNode)) :
    (∃ chains, List.Forall₂ (Denotes conversions) entries chains) ∨
      ∃ good bad rest chains, entries = good ++ bad :: rest ∧ List.Forall₂ (Denotes conversions) good chains ∧
        Malformed conversions bad := by
  induction entries with
  | nil => exact Or.inl ⟨[], .nil⟩
  | cons entry entries ih =>
      by_cases wellFormed : ∃ chain, Denotes conversions entry chain
      · obtain ⟨chain, denotes⟩ := wellFormed
        rcases ih with ⟨chains, each⟩ | ⟨good, bad, rest, chains, rfl, each, malformed⟩
        · exact Or.inl ⟨chain :: chains, .cons denotes each⟩
        · exact Or.inr ⟨entry :: good, bad, rest, chain :: chains, rfl, .cons denotes each, malformed⟩
      · exact Or.inr ⟨[], entry, entries, [], rfl, .nil, fun chain denotes => wellFormed ⟨chain, denotes⟩⟩

theorem each_iff (entries : List (YamlNode × YamlNode)) :
    (∃ chains, List.Forall₂ (Denotes conversions) entries chains) ↔
      ∀ entry ∈ entries, ∃ chain, Denotes conversions entry chain := by
  refine ⟨fun ⟨_, each⟩ => each_wellFormed each, fun wellFormed => ?_⟩
  rcases wellFormed_or_malformed conversions entries with
    all | ⟨good, bad, rest, chains, rfl, -, malformed⟩
  · exact all
  · obtain ⟨chain, denotes⟩ := wellFormed bad (List.mem_append_right _ List.mem_cons_self)
    exact absurd denotes (malformed chain)

theorem lastNamed_cons {entry : YamlNode × YamlNode} {name : String} {chain : UserChain} :
    LastNamed conversions (entry :: entries) name chain ↔ LastNamed conversions entries name chain ∨
      (Denotes conversions entry chain ∧ chain.chainName = name ∧
        ∀ later ∈ entries, conversions.asString later.1 ≠ .ok name) := by
  constructor
  · rintro ⟨before, here, after, isSplit, denotes, isName, last⟩
    cases before with
    | nil =>
        cases isSplit
        exact Or.inr ⟨denotes, isName, last⟩
    | cons first before =>
        cases isSplit
        exact Or.inl ⟨before, here, after, rfl, denotes, isName, last⟩
  · rintro (⟨before, here, after, rfl, denotes, isName, last⟩ | ⟨denotes, isName, last⟩)
    · exact ⟨entry :: before, here, after, rfl, denotes, isName, last⟩
    · exact ⟨[], entry, entries, rfl, denotes, isName, last⟩

/-- A name that an entry has, a last one has. -/
theorem lastNamed_of_named (each : List.Forall₂ (Denotes conversions) entries chains) {name : String}
    (named : ∃ entry ∈ entries, conversions.asString entry.1 = .ok name) :
    ∃ chain, LastNamed conversions entries name chain := by
  induction each with
  | nil =>
      obtain ⟨_, member, -⟩ := named
      cases member
  | @cons entry first entries chains denotes _ ih =>
      by_cases later : ∃ entry ∈ entries, conversions.asString entry.1 = .ok name
      · obtain ⟨chain, last⟩ := ih later
        exact ⟨chain, lastNamed_cons.2 (Or.inl last)⟩
      · obtain ⟨here, member, isName⟩ := named
        rcases List.mem_cons.1 member with rfl | inRest
        · refine ⟨first, lastNamed_cons.2 (Or.inr ⟨denotes, ?_, fun entry member same =>
            later ⟨entry, member, same⟩⟩)⟩
          rw [denotes.name] at isName
          cases isName
          rfl
        · exact absurd ⟨here, inRest, isName⟩ later

/-- **The last entry of a name is the one that stays**; the names without an entry keep
their chains. -/
theorem lookup_storeChains (each : List.Forall₂ (Denotes conversions) entries chains) (name : String)
    (chain : UserChain) :
    ∀ userChains, (storeChains userChains chains).lookup name = some chain ↔
      LastNamed conversions entries name chain ∨
        ((∀ entry ∈ entries, conversions.asString entry.1 ≠ .ok name) ∧ userChains.lookup name = some chain) := by
  induction each with
  | nil =>
      intro userChains
      have none_ : ¬ LastNamed conversions [] name chain := by
        rintro ⟨before, entry, after, isSplit, -⟩
        exact List.append_ne_nil_of_right_ne_nil before (List.cons_ne_nil entry after) isSplit.symm
      rw [or_iff_right none_, and_iff_right fun _ member => by cases member]
      rfl
  | @cons entry first entries chains denotes each ih =>
      intro userChains
      have step := ih (userChains.insert first.chainName first)
      rw [UnorderedMap.lookup_insert_eq] at step
      refine step.trans ?_
      rw [lastNamed_cons, List.forall_mem_cons, denotes.name]
      by_cases same : name = first.chainName
      · subst same
        constructor
        · rintro (later | ⟨none_, isFirst⟩)
          · exact Or.inl (Or.inl later)
          · rw [if_pos rfl] at isFirst
            cases isFirst
            exact Or.inl (Or.inr ⟨denotes, rfl, none_⟩)
        · rintro ((later | ⟨denotes', -, none_⟩) | ⟨⟨other, -⟩, -⟩)
          · exact Or.inl later
          · rw [if_pos rfl, denotes.unique denotes']
            exact Or.inr ⟨none_, rfl⟩
          · exact absurd rfl other
      · rw [if_neg same]
        have notHere : ¬ (Denotes conversions entry chain ∧ chain.chainName = name ∧
            ∀ later ∈ entries, conversions.asString later.1 ≠ .ok name) := by
          rintro ⟨denotes', isName, -⟩
          rw [denotes.unique denotes'] at isName
          exact same isName.symm
        have other : (.ok first.chainName : Except String String) ≠ .ok name := by
          intro isName
          cases isName
          exact same rfl
        rw [or_iff_left notHere, and_iff_right other]

end Loop

/-! ## The outcomes of `parse` -/

section Parse

variable {parser : ChainYamlParser} {entries good rest : List (YamlNode × YamlNode)} {chains : List UserChain}

/-- What the loop leaves is what the parser holds. -/
theorem HasEntries.parse_ok (has : HasEntries parser.yamlNode entries) {userChains : UnorderedMap String UserChain}
    (loop : parseEntries conversions entries parser.userChains = (.ok (), userChains)) :
    parser.parse conversions = (.ok !userChains.entries.isEmpty, { parser with userChains }) := by
  obtain ⟨sections, isMap, found⟩ := has
  unfold parse
  simp only [isMap, found, loop]

theorem HasEntries.parse_error (has : HasEntries parser.yamlNode entries) {error : Error}
    {userChains : UnorderedMap String UserChain}
    (loop : parseEntries conversions entries parser.userChains = (.error error, userChains)) :
    parser.parse conversions = (.error error, { parser with userChains }) := by
  obtain ⟨sections, isMap, found⟩ := has
  unfold parse
  simp only [isMap, found, loop]

theorem parse_withoutEntries (without : ∀ entries, ¬ HasEntries parser.yamlNode entries) :
    parser.parse conversions = (.ok false, parser) := by
  unfold parse
  split
  · rename_i sections isMap
    split
    · rename_i entries found
      exact absurd ⟨sections, isMap, found⟩ (without entries)
    · rfl
  · rfl

/-- All entries are well formed. -/
theorem parse_wellFormedEntries (has : HasEntries parser.yamlNode entries)
    (each : List.Forall₂ (Denotes conversions) entries chains) :
    parser.parse conversions = (.ok !(storeChains parser.userChains chains).entries.isEmpty,
      { parser with userChains := storeChains parser.userChains chains }) := by
  have loop := parseEntries_append each [] parser.userChains
  rw [List.append_nil] at loop
  exact has.parse_ok loop

/-- `bad` is the first entry that is malformed. -/
theorem parse_malformedEntry {bad : YamlNode × YamlNode} (has : HasEntries parser.yamlNode (good ++ bad :: rest))
    (each : List.Forall₂ (Denotes conversions) good chains) (malformed : Malformed conversions bad) :
    ∃ error, parser.parse conversions =
      (.error error, { parser with userChains := storeChains parser.userChains chains }) := by
  obtain ⟨what, threw⟩ := parseEntry_malformed malformed
  refine ⟨.runtimeError what, has.parse_error ?_⟩
  rw [parseEntries_append each, parseEntries, threw]

end Parse

/-! ## What a fresh parser accepts -/

/-- A map with a chain stored in it is not empty. -/
theorem storeChains_isEmpty (userChains : UnorderedMap String UserChain) (chains : List UserChain) :
    (storeChains userChains chains).entries.isEmpty = true ↔ chains = [] ∧ userChains.entries.isEmpty = true := by
  rcases List.eq_nil_or_concat chains with rfl | ⟨first, last, rfl⟩
  · exact (and_iff_right rfl).symm
  · rw [List.concat_eq_append, storeChains, List.foldl_concat]
    exact ⟨fun empty => (by cases empty), fun none_ => absurd none_.1 (List.concat_ne_nil last first)⟩

theorem HasEntries.accepts_iff {document : YamlNode} {entries : List (YamlNode × YamlNode)}
    (has : HasEntries document entries) :
    Accepts conversions document ↔
      entries ≠ [] ∧ ∀ entry ∈ entries, ∃ chain, Denotes conversions entry chain := by
  constructor
  · rintro ⟨entries', has', accepted⟩
    rw [has.unique has'] at accepted
    exact accepted
  · exact fun accepted => ⟨entries, has, accepted⟩

theorem HasEntries.withoutChains_iff {document : YamlNode} {entries : List (YamlNode × YamlNode)}
    (has : HasEntries document entries) : WithoutChains document ↔ entries = [] := by
  constructor
  · rintro (without | empty)
    · exact absurd has (without entries)
    · exact empty.unique has
  · rintro rfl
    exact Or.inr has

/-- **`parse` accepts exactly the documents of the grammar**, holds the last entry of each
name then, answers false exactly where there is no chain, and throws at the rest. -/
theorem parse_grammar (conversions : YamlConversions) (document : YamlNode) :
    (((fresh document).parse conversions).1 = .ok true ↔ Accepts conversions document) ∧
    (((fresh document).parse conversions).1 = .ok true → ∀ entries, HasEntries document entries →
      ∀ name chain, ((fresh document).parse conversions).2.userChains.lookup name = some chain ↔
        LastNamed conversions entries name chain) ∧
    (((fresh document).parse conversions).1 = .ok false ↔ WithoutChains document) ∧
    ((∃ error, ((fresh document).parse conversions).1 = .error error) ↔
      ¬ Accepts conversions document ∧ ¬ WithoutChains document) := by
  by_cases has : ∃ entries, HasEntries document entries
  · obtain ⟨entries, has⟩ := has
    rw [has.accepts_iff, has.withoutChains_iff]
    rcases wellFormed_or_malformed conversions entries with
      ⟨chains, each⟩ | ⟨good, bad, rest, chains, rfl, each, malformed⟩
    · have wellFormed : ∀ entry ∈ entries, ∃ chain, Denotes conversions entry chain :=
        each_wellFormed each
      have isEmpty : (storeChains ∅ chains).entries.isEmpty = true ↔ entries = [] := by
        have none_ : (∅ : UnorderedMap String UserChain).entries.isEmpty = true := rfl
        rw [storeChains_isEmpty, and_iff_left none_, ← List.length_eq_zero_iff, ← each.length_eq,
          List.length_eq_zero_iff]
      have loaded : HasEntries (fresh document).yamlNode entries := has
      rw [parse_wellFormedEntries loaded each]
      refine ⟨?_, fun _ entries' has' name chain => ?_, ?_, ?_⟩
      · change (.ok (!(storeChains ∅ chains).entries.isEmpty) : Except Error Bool) = .ok true ↔ _
        simp only [Except.ok.injEq, Bool.not_eq_true', Bool.eq_false_iff, ne_eq, isEmpty]
        exact ⟨fun nonempty => ⟨nonempty, wellFormed⟩, fun accepted => accepted.1⟩
      · rw [has.unique has']
        refine (lookup_storeChains each name chain ∅).trans (or_iff_left ?_)
        rintro ⟨-, none_⟩
        cases none_
      · change (.ok (!(storeChains ∅ chains).entries.isEmpty) : Except Error Bool) = .ok false ↔ _
        simp only [Except.ok.injEq, Bool.not_eq_false', isEmpty]
      · refine ⟨fun ⟨error, threw⟩ => (by cases threw), fun ⟨rejected, nonempty⟩ => ?_⟩
        exact absurd ⟨nonempty, wellFormed⟩ rejected
    · have loaded : HasEntries (fresh document).yamlNode (good ++ bad :: rest) := has
      obtain ⟨error, parsed⟩ := parse_malformedEntry loaded each malformed
      have rejected : ¬ (good ++ bad :: rest ≠ [] ∧
          ∀ entry ∈ good ++ bad :: rest, ∃ chain, Denotes conversions entry chain) := by
        rintro ⟨-, wellFormed⟩
        obtain ⟨chain, denotes⟩ := wellFormed bad (List.mem_append_right _ List.mem_cons_self)
        exact malformed chain denotes
      have nonempty : good ++ bad :: rest ≠ [] := List.append_ne_nil_of_right_ne_nil _ (List.cons_ne_nil _ _)
      rw [parsed]
      refine ⟨?_, fun accepted => (by cases accepted), ?_, ?_⟩
      · exact ⟨fun accepted => (by cases accepted), fun accepted => absurd accepted rejected⟩
      · exact ⟨fun false_ => (by cases false_), fun empty => absurd empty nonempty⟩
      · exact ⟨fun _ => ⟨rejected, nonempty⟩, fun _ => ⟨error, rfl⟩⟩
  · have without : ∀ entries, ¬ HasEntries (fresh document).yamlNode entries := fun entries h => has ⟨entries, h⟩
    have rejected : ¬ Accepts conversions document := fun ⟨entries, accepted, _⟩ => has ⟨entries, accepted⟩
    have empty : WithoutChains document := Or.inl fun entries h => has ⟨entries, h⟩
    rw [parse_withoutEntries without]
    refine ⟨?_, fun accepted => (by cases accepted), ?_, ?_⟩
    · exact ⟨fun accepted => (by cases accepted), fun accepted => absurd accepted rejected⟩
    · exact ⟨fun _ => empty, fun _ => rfl⟩
    · exact ⟨fun ⟨error, threw⟩ => (by cases threw), fun ⟨_, nonempty⟩ => absurd empty nonempty⟩

end ChainYamlParser

end PreemptiveExecutor
