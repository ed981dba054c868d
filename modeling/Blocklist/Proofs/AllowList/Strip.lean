import Blocklist.AllowList
import Mathlib.Data.List.Infix
import Mathlib.Tactic.SplitIfs

/-! Which rules allowed sites take out. A host is looked up together with the domains above it, and these are what follows
its dots; so a block rule is dropped if the host it names is an allowed domain or ends with a dot and one, and no other
rule is. -/

namespace Blocklist

theorem countP_add_countP_not (p : α → Bool) (xs : List α) : xs.countP p + xs.countP (fun a => !p a) = xs.length := by
  simpa using (List.length_eq_countP_add_countP p (l := xs)).symm

/-- The domains above a host are what follows its dots. -/
theorem mem_parentDomains {d h : Text} : d ∈ parentDomains h ↔ '.' :: d <:+ h := by
  induction h with
  | nil => simp [parentDomains]
  | cons c h ih =>
    rw [List.suffix_cons_iff, ← ih, parentDomains]
    split_ifs with hc
    · rw [List.mem_cons, hc, List.cons.injEq, eq_self, true_and]
    · rw [List.cons.injEq, or_iff_right]
      exact fun he => hc he.1.symm

/-- The rule blocks this host by name: the host is what follows the bars of its pattern, and is a host name. -/
def Rule.BlocksHost (r : Rule) (h : Text) : Prop :=
  r.action = .block ∧ isHostname h = true ∧
    ∃ p o, r.body = .network p o ∧ (p = .hostAnchor h ∨ p = .hostStart h)

theorem Pattern.host?_eq_some {p : Pattern} {h : Text} :
    p.host? = some h ↔ isHostname h = true ∧ (p = .hostAnchor h ∨ p = .hostStart h) := by
  cases p with
  | hostAnchor t | hostStart t =>
    simp only [host?, Option.ite_none_right_eq_some, Option.some.injEq]
    grind
  | startAnchor | endAnchor | wildcard | regex | substring | hostGroup => simp [host?]

theorem Rule.blocksHost_iff {r : Rule} {h : Text} : r.BlocksHost h ↔ r.action = .block ∧ r.host? = some h := by
  unfold BlocksHost host?
  cases hb : r.body with
  | network p o => simp [Pattern.host?_eq_some]
  | cosmetic | procedural => simp

namespace AllowList

def Allows (entry host : Text) : Prop := ∃ d, normalizeDomain? entry = some d ∧ (host = d ∨ '.' :: d <:+ host)

def BlocksAllowed (entries : List Text) (r : Rule) : Prop := ∃ e ∈ entries, ∃ h, r.BlocksHost h ∧ Allows e h

theorem coversHost_iff {ds : List Text} {h : Text} :
    coversHost ds h = true ↔ ∃ d ∈ ds, h = d ∨ '.' :: d <:+ h := by
  simp only [coversHost, List.any_eq_true, List.contains_eq_mem, decide_eq_true_eq, List.mem_cons]
  constructor
  · rintro ⟨d, rfl | hd, hm⟩
    · exact ⟨d, hm, Or.inl rfl⟩
    · exact ⟨d, hm, Or.inr (mem_parentDomains.mp hd)⟩
  · rintro ⟨d, hm, rfl | hd⟩
    · exact ⟨h, Or.inl rfl, hm⟩
    · exact ⟨d, Or.inr (mem_parentDomains.mpr hd), hm⟩

theorem mem_domains {entries : List Text} {d : Text} : d ∈ domains entries ↔ ∃ e ∈ entries, normalizeDomain? e = some d :=
  List.mem_filterMap

theorem coversHost_domains_iff {entries : List Text} {h : Text} :
    coversHost (domains entries) h = true ↔ ∃ e ∈ entries, Allows e h := by
  rw [coversHost_iff]
  constructor
  · rintro ⟨d, hd, hh⟩
    obtain ⟨e, he, hn⟩ := mem_domains.mp hd
    exact ⟨e, he, d, hn, hh⟩
  · rintro ⟨e, he, d, hn, hh⟩
    exact ⟨d, mem_domains.mpr ⟨e, he, hn⟩, hh⟩

theorem contradicts_iff {entries : List Text} {r : Rule} :
    contradicts (domains entries) r = true ↔ BlocksAllowed entries r := by
  rw [contradicts, Bool.and_eq_true, beq_iff_eq, Option.any_eq_true]
  constructor
  · rintro ⟨ha, h, hh, hcovers⟩
    obtain ⟨e, he, hallows⟩ := coversHost_domains_iff.mp hcovers
    exact ⟨e, he, h, Rule.blocksHost_iff.mpr ⟨ha, hh⟩, hallows⟩
  · rintro ⟨e, he, h, hblocks, hallows⟩
    obtain ⟨ha, hh⟩ := Rule.blocksHost_iff.mp hblocks
    exact ⟨ha, h, hh, coversHost_domains_iff.mpr ⟨e, he, hallows⟩⟩

instance (entries : List Text) : DecidablePred (BlocksAllowed entries) := fun _ => decidable_of_iff _ contradicts_iff

theorem blocksAllowed_append {entries more : List Text} {r : Rule} :
    BlocksAllowed (entries ++ more) r ↔ BlocksAllowed entries r ∨ BlocksAllowed more r := by
  simp only [BlocksAllowed, List.mem_append, or_and_right, exists_or]

theorem strip_eq_filter (entries : List Text) (rules : List Rule) :
    strip entries rules = rules.filter fun r => ¬ BlocksAllowed entries r :=
  List.filter_congr fun r _ => by simp [← contradicts_iff]

theorem length_strip_add (entries : List Text) (rules : List Rule) :
    (strip entries rules).length + rules.countP (contradicts (domains entries)) = rules.length := by
  rw [strip, ← List.countP_eq_length_filter, Nat.add_comm]
  exact countP_add_countP_not (contradicts (domains entries)) rules

theorem stripCount_eq_countP (entries : List Text) (rules : List Rule) :
    stripCount entries rules = rules.countP fun r => BlocksAllowed entries r := by
  have hcount := length_strip_add entries rules
  have hsame : rules.countP (contradicts (domains entries)) = rules.countP fun r => BlocksAllowed entries r :=
    List.countP_congr fun r _ => by simp [contradicts_iff]
  unfold stripCount
  omega

/-- Stripping for some entries and then for others is stripping for all of them. -/
theorem strip_strip (entries more : List Text) (rules : List Rule) :
    strip more (strip entries rules) = strip (entries ++ more) rules := by
  simp only [strip_eq_filter, List.filter_filter]
  refine List.filter_congr fun r _ => ?_
  simp only [blocksAllowed_append, not_or, Bool.decide_and, Bool.and_comm]

/-- The same entries allow the same, however they are arranged and repeated. -/
theorem strip_congr {entries entries' : List Text} (h : ∀ e, e ∈ entries ↔ e ∈ entries') (rules : List Rule) :
    strip entries rules = strip entries' rules := by
  have hsame (r : Rule) : BlocksAllowed entries r ↔ BlocksAllowed entries' r := by
    simp only [BlocksAllowed, h]
  simp only [strip_eq_filter, hsame]

/-- Exactly the block rules against allowed sites are dropped, in place, and counted. Doing it again drops nothing, and
two lists of entries, in either order, do what both together do. -/
theorem strip_exactly (entries more : List Text) (rules : List Rule) :
    strip entries rules = rules.filter (fun r => ¬ BlocksAllowed entries r) ∧
    stripCount entries rules = rules.countP (fun r => BlocksAllowed entries r) ∧
    strip entries (strip entries rules) = strip entries rules ∧
    stripCount entries (strip entries rules) = 0 ∧
    strip more (strip entries rules) = strip (entries ++ more) rules ∧
    strip entries (strip more rules) = strip (entries ++ more) rules := by
  have htwice : strip entries (strip entries rules) = strip entries rules := by
    rw [strip_strip]
    exact strip_congr (by simp) rules
  refine ⟨strip_eq_filter entries rules, stripCount_eq_countP entries rules, htwice, ?_, strip_strip entries more rules, ?_⟩
  · rw [stripCount, htwice, Nat.sub_self]
  · rw [strip_strip]
    exact strip_congr (by simp [or_comm]) rules

-- a host that only ends with the letters of an allowed domain is still blocked
example : (strip ["Example.com.".toList] (["example.com", "a.b.example.com", "badexample.com", "com"].map fun h =>
    ⟨.block, .network (.hostStart h.toList) {}, 1, [], 1⟩)).map Rule.host? =
      [some "badexample.com".toList, some "com".toList] := by decide

end AllowList

end Blocklist
