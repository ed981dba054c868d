import Blocklist.Proofs.Emission
import Blocklist.Proofs.Options.LastMention
import Blocklist.Proofs.Reading

/-! Records are exact. The record of a rule that was read says what the rule says and nothing else, and a rule is without
one only if no resource type is left for it. That a type which is named is left rests on the reading of options: what is
named last is not excluded. -/

namespace Blocklist

namespace Options

def Coherent (o : Options) : Prop := ∀ r, ¬ (o.types.contains r = true ∧ o.excludedTypes.contains r = true)

/-- The options ask for the type: it is named; or none is named, some are excluded and it is not; or nothing is said about
types and it is a default. -/
def AsksFor (o : Options) (defaults : TypeSet) (r : ResourceType) : Prop :=
  if o.types ≠ .empty then o.types.contains r = true
  else if o.excludedTypes ≠ .empty then o.excludedTypes.contains r = false
  else defaults.contains r = true

def AsksForNothing (o : Options) (defaults : TypeSet) : Prop :=
  o.types = .empty ∧ (o.excludedTypes = .full ∨ o.excludedTypes = .empty ∧ defaults = .empty)

section

variable {o : Options}

theorem effectiveTypes_of_named (h : o.types ≠ .empty) (defaults : TypeSet) :
    o.effectiveTypes defaults = o.types.diff o.excludedTypes := by
  rw [effectiveTypes, if_pos]
  rwa [Bool.not_eq_true', ← Bool.not_eq_true, TypeSet.isEmpty_iff]

theorem effectiveTypes_of_excluded (h : o.types = .empty) (he : o.excludedTypes ≠ .empty) (defaults : TypeSet) :
    o.effectiveTypes defaults = TypeSet.full.diff o.excludedTypes := by
  rw [effectiveTypes, h, if_neg (by decide), if_pos]
  rwa [Bool.not_eq_true', ← Bool.not_eq_true, TypeSet.isEmpty_iff]

theorem effectiveTypes_of_silent (h : o.types = .empty) (he : o.excludedTypes = .empty) (defaults : TypeSet) :
    o.effectiveTypes defaults = defaults := by
  rw [effectiveTypes, h, he, if_neg (by decide), if_neg (by decide)]

theorem effectiveTypes_of_coherent (hc : o.Coherent) (h : o.types ≠ .empty) (defaults : TypeSet) :
    o.effectiveTypes defaults = o.types := by
  rw [effectiveTypes_of_named h]
  apply TypeSet.eq_of_contains
  intro r
  have hr := hc r
  rw [TypeSet.contains_diff]
  cases hnamed : o.types.contains r with
  | false => rfl
  | true => simpa [hnamed] using hr

theorem contains_effectiveTypes (hc : o.Coherent) (defaults : TypeSet) (r : ResourceType) :
    (o.effectiveTypes defaults).contains r = true ↔ o.AsksFor defaults r := by
  unfold AsksFor
  by_cases h : o.types = .empty
  · rw [if_neg (not_not.mpr h)]
    by_cases he : o.excludedTypes = .empty
    · rw [effectiveTypes_of_silent h he, if_neg (not_not.mpr he)]
    · rw [effectiveTypes_of_excluded h he, if_pos he, TypeSet.contains_diff, TypeSet.contains_full]
      simp
  · rw [effectiveTypes_of_coherent hc h, if_pos h]

theorem effectiveTypes_eq_empty_iff (hc : o.Coherent) (defaults : TypeSet) :
    o.effectiveTypes defaults = .empty ↔ o.AsksForNothing defaults := by
  have hfull : TypeSet.full ≠ .empty := by decide
  unfold AsksForNothing
  by_cases h : o.types = .empty
  · by_cases he : o.excludedTypes = .empty
    · simp [effectiveTypes_of_silent h he, h, he, hfull.symm]
    · have hall : TypeSet.full.diff o.excludedTypes = .empty ↔ o.excludedTypes = .full := by
        rw [TypeSet.eq_empty_iff]
        refine ⟨fun hr => TypeSet.eq_of_contains fun r => ?_, fun hr r => ?_⟩
        · simpa [TypeSet.contains_diff, TypeSet.contains_full] using hr r
        · rw [TypeSet.contains_diff, hr, Bool.and_not_self]
      simp [effectiveTypes_of_excluded h he, hall, h, he]
  · simp [effectiveTypes_of_coherent hc h, h]

theorem coherent_read (t : Text) : (read t).Coherent := (saidBy_read t).disjoint

theorem coherent_of_readOptions {l : NetworkLine} (h : l.readOptions = .ok o) : o.Coherent := by
  rcases NetworkLine.readOptions_eq_ok_iff.mp h with ⟨-, rfl⟩ | ⟨t, -, -, rfl⟩
  · simp [Coherent, TypeSet.contains_empty]
  · exact coherent_read t

end

end Options

namespace Condition

def addresses (c : Condition) : List MatchCondition :=
  c.urlFilter.toList.map .urlFilter ++ c.regexFilter.toList.map .regexFilter ++
    c.requestDomains.toList.map .requestDomains

structure Holds (field : Option (List Text)) (s : NameSet) : Prop where
  absent : field = none ↔ ∀ d, d ∉ s
  increasing : ∀ ds, field = some ds → Increasing ds
  names : ∀ ds, field = some ds → ∀ d, d ∈ ds ↔ d ∈ s

/-- The condition says what the pattern and the options say: one way to tell the address, the initiators, whose site the
request goes to, and the types asked for, in the order of all types. -/
structure Says (c : Condition) (p : Pattern) (o : Options) (defaults : TypeSet) : Prop where
  address : c.addresses = [p.condition]
  initiators : Holds c.initiatorDomains o.initiators.included
  excluded : Holds c.excludedInitiatorDomains o.initiators.excluded
  first : c.party = some .first ↔ o.thirdParty = some false
  third : c.party = some .third ↔ o.thirdParty = some true
  types : ∃ ts, c.resourceTypes = some ts ∧ ts ≠ [] ∧ (∀ r, r ∈ ts ↔ o.AsksFor defaults r) ∧
    ts.Pairwise fun a b => ResourceType.all.idxOf a < ResourceType.all.idxOf b

theorem holds_namesIn (s : NameSet) : Holds (namesIn s) s := by
  have hempty : s.isEmpty = true ↔ ∀ d, d ∉ s := List.isEmpty_iff.trans List.eq_nil_iff_forall_not_mem
  unfold namesIn
  split_ifs with h
  · exact ⟨iff_of_true rfl (hempty.mp h), fun _ h => (nomatch h), fun _ h => (nomatch h)⟩
  · refine ⟨iff_of_false (by simp) (mt hempty.mpr h), fun ds hds => ?_, fun ds hds => ?_⟩
    · exact Option.some.inj hds ▸ s.increasing
    · exact Option.some.inj hds ▸ fun d => Iff.rfl

theorem addresses_ofNetwork (p : Pattern) (o : Options) (types : TypeSet) :
    (ofNetwork p o types).addresses = [p.condition] := by
  unfold ofNetwork
  cases p.condition <;> rfl

theorem says_ofNetwork {o : Options} (hc : o.Coherent) {defaults : TypeSet} (p : Pattern)
    (h : o.effectiveTypes defaults ≠ .empty) :
    Says (ofNetwork p o (o.effectiveTypes defaults)) p o defaults := by
  refine ⟨addresses_ofNetwork p o _, holds_namesIn _, holds_namesIn _, ?_, ?_, _, rfl, ?_, fun r => ?_,
    TypeSet.toList_pairwise _⟩
  · rcases ho : o.thirdParty with _ | _ | _ <;> simp [ofNetwork, ho]
  · rcases ho : o.thirdParty with _ | _ | _ <;> simp [ofNetwork, ho]
  · exact mt TypeSet.toList_eq_nil.mp h
  · rw [TypeSet.mem_toList, Options.contains_effectiveTypes hc]

end Condition

/-- The options of a rule that was read, and its action. -/
theorem FilterList.coherent_of_mem_read [Regex.Library] {l : FilterList} {r : Rule} {p : Pattern} {o : Options} (hr : r ∈ l.read.rules)
    (hb : r.body = .network p o) : o.Coherent ∧ ∃ a, r.action.toRecord? = some a := by
  obtain ⟨n, t, ht⟩ := exists_line_of_mem_read hr
  obtain ⟨line, hline, hread, rfl⟩ := Rule.exists_read_of_ofLine? ht hb
  obtain ⟨-, -, -, rfl⟩ := Line.ofText_eq_network_iff.mp hline
  refine ⟨Options.coherent_of_readOptions (NetworkLine.read_eq_ok_iff.mp hread).1, ?_⟩
  rcases NetworkLine.ofText_action t.trim with ha | ha
  · exact ⟨.block, Action.toRecord?_eq_block.mpr ha⟩
  · exact ⟨.allow, Action.toRecord?_eq_allow.mpr ha⟩

namespace Record

theorem ofRule?_network {r : Rule} {p : Pattern} {o : Options} {a : RecordAction} (hb : r.body = .network p o)
    (ha : r.action.toRecord? = some a) (defaults : TypeSet) (id : UInt32) :
    ofRule? defaults id r = if o.effectiveTypes defaults = .empty then none
      else some ⟨id, r.priority, a, Condition.ofNetwork p o (o.effectiveTypes defaults)⟩ := by
  simp only [ofRule?, hb, ha, TypeSet.isEmpty_iff]

/-- A network rule that was read from a list has no record exactly if its options ask for no type; otherwise its record
keeps number, rank and action, and says what the pattern and the options say. -/
theorem ofRule?_of_read [Regex.Library] (l : FilterList) (defaults : TypeSet) (id : UInt32) {r : Rule} {p : Pattern} {o : Options}
    (hr : r ∈ l.read.rules) (hb : r.body = .network p o) :
    (ofRule? defaults id r = none ↔ o.AsksForNothing defaults) ∧
    ∀ x, ofRule? defaults id r = some x →
      x.id = id ∧ x.priority = r.priority ∧ r.action.toRecord? = some x.action ∧ x.condition.Says p o defaults := by
  obtain ⟨hc, a, ha⟩ := FilterList.coherent_of_mem_read hr hb
  rw [ofRule?_network hb ha, ← Options.effectiveTypes_eq_empty_iff hc]
  split_ifs with h
  · exact ⟨iff_of_true rfl h, fun x hx => (nomatch hx)⟩
  · refine ⟨iff_of_false (by simp) h, fun x hx => ?_⟩
    rw [← Option.some.inj hx]
    exact ⟨rfl, rfl, ha, Condition.says_ofNetwork hc p h⟩

def trackerList : FilterList where
  name := "trackers".toList
  text := ("||Pix.example^$script,~image,image,~3p,domain=b.com|~c.com|a.com\n" ++
    "/track$~document,~subdocument,~stylesheet,~script,~image,~font,~object,~xmlhttprequest,~ping,~media,~websocket," ++
    "~other").toList

def pixelOptions : Options where
  initiators := ⟨.ofList ["a.com".toList, "b.com".toList], .ofList ["c.com".toList]⟩
  thirdParty := some false
  types := .ofList [.script, .image]

def pixelRule : Rule := ⟨.block, .network (.hostAnchor "pix.example".toList) pixelOptions, 101, "trackers".toList, 1⟩

def trackRule : Rule :=
  ⟨.block, .network (.substring "/track".toList) { excludedTypes := .full }, 1, "trackers".toList, 2⟩

theorem ofRule?_of_read_trackerList :
    trackerList.read.rules = [pixelRule, trackRule] ∧
    (∃ x, ofRule? .empty 7 pixelRule = some x ∧ x.id = 7 ∧ x.priority = 101 ∧ x.action = .block ∧
      x.condition.Says (.hostAnchor "pix.example".toList) pixelOptions .empty) ∧
    ofRule? .full 7 trackRule = none := by
  have hrules : trackerList.read.rules = [pixelRule, trackRule] := by decide +kernel
  have hpixel := ofRule?_of_read trackerList .empty 7 (r := pixelRule) (by simp [hrules]) rfl
  have htrack := ofRule?_of_read trackerList .full 7 (r := trackRule) (by simp [hrules]) rfl
  obtain ⟨x, hx⟩ := Option.ne_none_iff_exists'.mp (mt hpixel.1.mp fun h => absurd h.1 (by decide))
  obtain ⟨hid, hpriority, haction, hsays⟩ := hpixel.2 x hx
  exact ⟨hrules, ⟨x, hx, hid, hpriority, (Option.some.inj haction).symm, hsays⟩, htrack.1.mpr ⟨rfl, Or.inl rfl⟩⟩

end Record

end Blocklist
