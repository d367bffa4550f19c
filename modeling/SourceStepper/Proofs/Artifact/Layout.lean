import Mathlib.Data.List.Sort
import SourceStepper.Artifact
import SourceStepper.Proofs.Text.Utf8

namespace SourceStepper

variable {path : String} {artifact : Json.Value} {listed : OrderedMap String Json.Value}
    {sources : List String}
  {contracts : List Contract} {c : Contract}

section Texts

theorem Json.Value.text?_eq_some {v : Json.Value} {s : String} :
    v.text? = some s ↔ v = .text s := by
  cases v <;> simp [Json.Value.text?]

theorem Json.Value.texts_eq_some {items : List Json.Value} {texts : List String} :
    items.mapM Json.Value.text? = some texts ↔ items = texts.map .text := by
  induction items generalizing texts with
  | nil => simp [eq_comm]
  | cons item items ih =>
    simp only [List.mapM_cons, Option.bind_eq_bind, Option.bind_eq_some_iff,
      Json.Value.text?_eq_some, ih]
    cases texts <;> simp [eq_comm]

def textsOf (properties : OrderedMap String Json.Value) : OrderedMap String String :=
  .ofList (properties.entries.filterMap fun (key, value) => value.text?.map fun s => (key, s))

theorem get?_textsOf {properties : OrderedMap String Json.Value} {key text : String} :
    (textsOf properties).get? key = some text ↔ properties.get? key = some (.text text) := by
  have held (key text : String) : (key, text) ∈ properties.entries.filterMap
      (fun (key, value) => value.text?.map fun s => (key, s)) ↔
        (properties.get? key).bind Json.Value.text? = some text := by
    simp only [List.mem_filterMap, Prod.exists, Option.map_eq_some_iff, Prod.mk.injEq,
      OrderedMap.mem_entries_iff, Option.bind_eq_some_iff]
    constructor
    · rintro ⟨key, value, there, text, isText, rfl, rfl⟩
      exact ⟨value, there, isText⟩
    · rintro ⟨value, there, isText⟩
      exact ⟨key, value, there, text, isText, rfl, rfl⟩
  rw [textsOf, OrderedMap.get?_ofList_of_mem_iff held, Option.bind_eq_some_iff]
  simp only [Json.Value.text?_eq_some, exists_eq_right]

end Texts

section Contracts

/-- Whether an artifact lists these source files. A missing list has none. -/
def HasSources (artifact : Json.Value) (sources : List String) : Prop :=
  match artifact.get? "sourceList" with
  | some list => list = .array (sources.map .text)
  | none => sources = []

/-- Whether a contract is one of those that are listed under their names. -/
structure Contract.StandsIn (c : Contract) (path : String) (listed : OrderedMap String Json.Value)
    (sources : List String) : Prop where
  file : c.file = path
  sourceList : c.sourceList = sources
  texts : ∃ properties, (listed.get? c.name).bind Json.Value.members? = some properties ∧
    ∀ key text, c.properties.get? key = some text ↔ properties.get? key = some (.text text)

/-- Whether a contract has a lesser name than another one. Names are compared byte by byte. -/
def Contract.Before (a b : Contract) : Prop := Text.utf8 a.name.toList < Text.utf8 b.name.toList

instance : Std.Irrefl Contract.Before := ⟨fun _ => List.lt_irrefl _⟩

instance : Std.Antisymm Contract.Before := ⟨fun _ _ less more => absurd more (List.lt_asymm less)⟩

/-- Whether an artifact is laid out as it should be and has exactly these contracts, in the order of
their names. -/
structure Describes (path : String) (artifact : Json.Value) (contracts : List Contract) : Prop where
  layout : ∃ listed sources, (artifact.get? "contracts").bind Json.Value.members? = some listed ∧
    HasSources artifact sources ∧ ∀ c, c ∈ contracts ↔ c.StandsIn path listed sources
  ordered : contracts.Pairwise Contract.Before

def Contract.ofMember? (path : String) (sources : List String) :
    String × Json.Value → Option Contract
  | (name, contract) =>
    contract.members?.bind fun properties => some ⟨name, path, textsOf properties, sources⟩

theorem contractsOf_eq_ok :
    contractsOf path artifact = .ok contracts ↔
      ∃ listed sources, (artifact.get? "contracts").bind Json.Value.members? = some listed ∧
        HasSources artifact sources ∧ listed.entries.filterMap (Contract.ofMember? path sources) =
          contracts := by
  unfold contractsOf HasSources
  cases (artifact.get? "contracts").bind Json.Value.members? with
  | none => exact iff_of_false nofun (by rintro ⟨_, _, ⟨⟩, -⟩)
  | some listed =>
    cases artifact.get? "sourceList" with
    | none =>
      constructor
      · exact fun same => ⟨listed, [], rfl, rfl, Except.ok.inj same⟩
      · rintro ⟨_, _, ⟨rfl⟩, rfl, same⟩
        exact congrArg Except.ok same
    | some list =>
      cases list with
      | array items =>
        dsimp only
        cases read : items.mapM Json.Value.text? with
        | some sources =>
          constructor
          · exact fun same => ⟨listed, sources, rfl, congrArg _ (Json.Value.texts_eq_some.mp read),
              Except.ok.inj same⟩
          · rintro ⟨_, sources', ⟨rfl⟩, isList, same⟩
            have same' := Json.Value.texts_eq_some.mpr (Json.Value.array.inj isList)
            obtain rfl := Option.some.inj (read.symm.trans same')
            exact congrArg Except.ok same
        | none =>
          refine iff_of_false nofun ?_
          rintro ⟨_, sources, -, isList, -⟩
          exact nomatch read.symm.trans (Json.Value.texts_eq_some.mpr (Json.Value.array.inj isList))
      | _ => exact iff_of_false nofun (by rintro ⟨_, _, -, ⟨⟩, -⟩)

theorem Contract.ofMember?_eq_some {name : String} {value : Json.Value} :
    Contract.ofMember? path sources (name, value) = some c ↔
      ∃ properties, value.members? = some properties ∧
        c = ⟨name, path, textsOf properties, sources⟩ := by
  simp only [ofMember?, Option.bind_eq_some_iff, Option.some.injEq, eq_comm (a := c)]

theorem Contract.standsIn_iff :
    c.StandsIn path listed sources ↔
      c ∈ listed.entries.filterMap (Contract.ofMember? path sources) := by
  simp only [List.mem_filterMap, Prod.exists, OrderedMap.mem_entries_iff,
    Contract.ofMember?_eq_some]
  constructor
  · rintro ⟨rfl, rfl, properties, there, texts⟩
    obtain ⟨value, there, isObject⟩ := Option.bind_eq_some_iff.mp there
    refine ⟨c.name, value, there, properties, isObject, ?_⟩
    have same : c.properties = textsOf properties :=
      OrderedMap.ext_get? fun key => Option.ext fun text => by
      rw [texts, get?_textsOf]
    rw [← same]
  · rintro ⟨name, value, there, properties, isObject, rfl⟩
    exact ⟨rfl, rfl, properties, Option.bind_eq_some_iff.mpr ⟨value, there, isObject⟩,
      fun key text => get?_textsOf⟩

theorem increasing_contracts (path : String) (listed : OrderedMap String Json.Value)
    (sources : List String) :
    (listed.entries.filterMap (Contract.ofMember? path sources)).Pairwise Contract.Before := by
  refine List.Pairwise.filterMap _ ?_ listed.increasing
  rintro ⟨name, value⟩ ⟨name', value'⟩ before c isContract c' isContract'
  obtain ⟨properties, -, rfl⟩ := Contract.ofMember?_eq_some.mp isContract
  obtain ⟨properties', -, rfl⟩ := Contract.ofMember?_eq_some.mp isContract'
  exact Text.utf8_lt before

theorem contractsOf_iff : contractsOf path artifact = .ok contracts ↔
    Describes path artifact contracts := by
  rw [contractsOf_eq_ok]
  constructor
  · rintro ⟨listed, sources, isListed, hasSources, rfl⟩
    exact ⟨⟨listed, sources, isListed, hasSources, fun c => Contract.standsIn_iff.symm⟩,
      increasing_contracts ..⟩
  · rintro ⟨⟨listed, sources, isListed, hasSources, members⟩, ordered⟩
    refine ⟨listed, sources, isListed, hasSources, ?_⟩
    refine (increasing_contracts ..).eq_of_mem_iff ordered fun c => ?_
    rw [members, Contract.standsIn_iff]

end Contracts

end SourceStepper
