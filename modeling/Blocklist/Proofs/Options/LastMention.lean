import Blocklist.Options
import Blocklist.Proofs.Options.Scope
import Mathlib.Data.List.Induction

/-! The last mention of a thing wins. Options are read word by word, each word overwriting what an earlier one said about
the same thing, so every part of the options can be told from the words without running through them: a type or a party
from the last word about it, the domains from all lists together. -/

namespace Blocklist

namespace Text

def isNegated (w : Text) : Bool := w.head? == some '~'

def unnegated (w : Text) : Text := (['~'].isPrefixOf? w).getD w

def lastSuch (p : Text → Bool) (ws : List Text) : Option Text := (ws.filter p).getLast?

theorem lastSuch_snoc (p : Text → Bool) (ws : List Text) (w : Text) :
    lastSuch p (ws ++ [w]) = if p w then some w else lastSuch p ws := by
  rw [lastSuch, List.filter_append]
  split_ifs with h <;> simp [h, lastSuch]

theorem unnegated_cons (w : Text) : unnegated ('~' :: w) = w := rfl

theorem unnegated_of_not_isNegated {w : Text} (h : isNegated w = false) : unnegated w = w := by
  have hnone : ['~'].isPrefixOf? w = none := by
    rw [isPrefixOf?_eq_none, List.singleton_prefix_iff_head?_eq_some]
    simpa [isNegated] using h
  rw [unnegated, hnone, Option.getD_none]

end Text

open Text

namespace Options

/-- The words of an options text: what stands between the commas, without the blanks around it, in small letters. -/
def tokens (t : Text) : List Text := (splitOn ',' t).map fun w => w.trim.lower

def namesType (r : ResourceType) (w : Text) : Bool := ResourceType.ofKeyword? w.unnegated == some r

def partyWords : List Text := ["third-party".toList, "3p".toList, "~third-party".toList, "~3p".toList]

def isParty (w : Text) : Bool := partyWords.contains w

def Listed (ws : List Text) (e : Text) : Prop :=
  ∃ list, "domain=".toList ++ list ∈ ws ∧ e ∈ Scope.entries (· == '|') list

structure SaidBy (ws : List Text) (o : Options) : Prop where
  types : ∀ r, o.types.contains r = (lastSuch (namesType r) ws).any fun w => !w.isNegated
  excludedTypes : ∀ r, o.excludedTypes.contains r = (lastSuch (namesType r) ws).any Text.isNegated
  thirdParty : o.thirdParty = (lastSuch isParty ws).map fun w => !w.isNegated
  important : o.important = true ↔ "important".toList ∈ ws
  initiators : o.initiators.Lists (Listed ws)

end Options

namespace ResourceType

theorem exists_keyword {w : Text} {r : ResourceType} (h : ofKeyword? w = some r) :
    ∃ k ∈ keywords, k.1.toList = w ∧ k.2 = r := by
  obtain ⟨k, hk, rfl⟩ := Option.map_eq_some_iff.mp h
  exact ⟨k, List.mem_of_find?_eq_some hk, by simpa using List.find?_some hk, rfl⟩

end ResourceType

namespace Modifier

def IsWritten : Modifier → Text → Prop
  | .domains list, w => w = "domain=".toList ++ list
  | .party third, w => Options.isParty w = true ∧ (!w.isNegated) = third
  | .important, w => w = "important".toList
  | .type r wanted, w => Options.namesType r w = true ∧ (!w.isNegated) = wanted

theorem ofTypeWord?_of_not_isNegated {w : Text} (h : w.isNegated = false) :
    ofTypeWord? w = (ResourceType.ofKeyword? w).map (.type · true) := by
  unfold ofTypeWord?
  split
  · cases h
  · rfl

theorem isWritten_of_ofTypeWord? {w : Text} {m : Modifier} (h : ofTypeWord? w = some m) : IsWritten m w := by
  cases hneg : w.isNegated with
  | true =>
    obtain ⟨v, rfl⟩ := List.head?_eq_some_iff.mp (beq_iff_eq.mp hneg)
    obtain ⟨r, hr, rfl⟩ := Option.map_eq_some_iff.mp h
    exact ⟨by rw [Options.namesType, unnegated_cons, hr, beq_self_eq_true], rfl⟩
  | false =>
    rw [ofTypeWord?_of_not_isNegated hneg] at h
    obtain ⟨r, hr, rfl⟩ := Option.map_eq_some_iff.mp h
    exact ⟨by rw [Options.namesType, unnegated_of_not_isNegated hneg, hr, beq_self_eq_true], by rw [hneg]; rfl⟩

theorem ofText?_keyword : ∀ k ∈ ResourceType.keywords, ofText? k.1.toList = some (.type k.2 true) ∧
    ofText? ('~' :: k.1.toList) = some (.type k.2 false) := by decide

theorem ofText?_domains (list : Text) : ofText? ("domain=".toList ++ list) = some (.domains list) := by
  have hcut : "domain=".toList.isPrefixOf? ("domain=".toList ++ list) = some list := isPrefixOf?_eq_some.mpr rfl
  unfold ofText?
  split
  · rename_i l hl
    rw [hcut] at hl
    rw [Option.some.inj hl]
  · rename_i hl
    rw [hcut] at hl
    cases hl

theorem ofText?_of_namesType {w : Text} {r : ResourceType} (h : Options.namesType r w = true) :
    ofText? w = some (.type r !w.isNegated) := by
  obtain ⟨k, hk, hw, rfl⟩ := ResourceType.exists_keyword (beq_iff_eq.mp h)
  have htable := ofText?_keyword k hk
  cases hneg : w.isNegated with
  | true =>
    obtain ⟨v, rfl⟩ := List.head?_eq_some_iff.mp (beq_iff_eq.mp hneg)
    rw [hw, unnegated_cons] at htable
    exact htable.2
  | false =>
    rw [hw, unnegated_of_not_isNegated hneg] at htable
    exact htable.1

theorem ofText?_of_isParty {w : Text} (h : Options.isParty w = true) : ofText? w = some (.party !w.isNegated) := by
  have htable : ∀ w ∈ Options.partyWords, ofText? w = some (.party !w.isNegated) := by decide
  exact htable w (List.contains_iff_mem.mp h)

/-- The reader takes a word for the modifier that is written so. -/
theorem ofText?_eq_some_iff {w : Text} {m : Modifier} : ofText? w = some m ↔ IsWritten m w := by
  constructor
  · intro h
    unfold ofText? at h
    split at h
    · rename_i list hlist
      cases h
      exact isPrefixOf?_eq_some.mp hlist
    · split_ifs at h with hthird hfirst himportant
      · cases h
        rcases hthird with rfl | rfl <;> exact ⟨by decide, by decide⟩
      · cases h
        rcases hfirst with rfl | rfl <;> exact ⟨by decide, by decide⟩
      · cases h
        exact himportant
      · exact isWritten_of_ofTypeWord? h
  · intro h
    cases m with
    | domains list => exact h ▸ ofText?_domains list
    | party third => exact h.2 ▸ ofText?_of_isParty h.1
    | important =>
      have hread : ofText? "important".toList = some .important := by decide
      exact h ▸ hread
    | type r wanted => exact h.2 ▸ ofText?_of_namesType h.1

theorem IsWritten.unique {w : Text} {m k : Modifier} (hm : IsWritten m w) (hk : IsWritten k w) : m = k :=
  Option.some.inj ((ofText?_eq_some_iff.mpr hm).symm.trans (ofText?_eq_some_iff.mpr hk))

end Modifier

namespace Options

open Modifier

theorem lower_of_mem_tokens {t w : Text} (h : w ∈ tokens t) : w.lower = w := by
  obtain ⟨v, -, rfl⟩ := List.mem_map.mp h
  exact lower_lower v.trim

theorem lower_of_lower_domains {list : Text} (h : lower ("domain=".toList ++ list) = "domain=".toList ++ list) :
    list.lower = list := by
  rw [lower_append] at h
  exact List.append_cancel_left h

def applyToken (o : Options) (w : Text) : Options := (ofText? w).elim o o.apply

theorem applyToken_cases (o : Options) (w : Text) :
    (∃ m, IsWritten m w ∧ o.applyToken w = o.apply m) ∨ (∀ m, ¬ IsWritten m w) ∧ o.applyToken w = o := by
  unfold applyToken
  cases hm : ofText? w with
  | some m => exact Or.inl ⟨m, ofText?_eq_some_iff.mp hm, rfl⟩
  | none =>
    refine Or.inr ⟨fun m hw => ?_, rfl⟩
    rw [ofText?_eq_some_iff.mpr hw] at hm
    cases hm

theorem read_eq_foldl_tokens (t : Text) : read t = (tokens t).foldl applyToken {} := by
  have hword (o : Options) (w : Text) : applyWord o w = applyToken o w.lower := by
    unfold applyWord applyToken
    cases ofText? w.lower <;> rfl
  have hempty (o : Options) : applyToken o (Text.lower []) = o := rfl
  rw [read, words, tokens, List.foldl_filter, List.foldl_map, List.foldl_map]
  apply List.foldl_ext
  intro o w _
  split_ifs with h
  · exact hword o w.trim
  · rw [show w.trim = [] by simpa using h, hempty]

def typeSide (o : Options) : Bool → TypeSet
  | true => o.types
  | false => o.excludedTypes

theorem contains_typeSide_apply (o : Options) (q r : ResourceType) (wanted b : Bool) :
    ((o.apply (.type q wanted)).typeSide b).contains r = if r = q then wanted == b else (o.typeSide b).contains r := by
  cases wanted <;> cases b <;> by_cases h : r = q <;>
    simp [apply, typeSide, TypeSet.contains_insert, TypeSet.contains_erase, h]

section

variable (o : Options) (w : Text)

/-- A word settles the type it names, and no other. -/
theorem contains_typeSide_applyToken (r : ResourceType) (b : Bool) :
    ((o.applyToken w).typeSide b).contains r =
      if namesType r w then (!w.isNegated) == b else (o.typeSide b).contains r := by
  rcases applyToken_cases o w with ⟨m, hm, he⟩ | ⟨hnone, he⟩
  · rw [he]
    split_ifs with hr
    · obtain rfl : m = .type r !w.isNegated := hm.unique ⟨hr, rfl⟩
      rw [contains_typeSide_apply, if_pos rfl]
    · cases m with
      | domains | party | important => cases b <;> rfl
      | type q wanted =>
        have hne : r ≠ q := by
          rintro rfl
          exact hr hm.1
        rw [contains_typeSide_apply, if_neg hne]
  · rw [he, if_neg fun hr => hnone (.type r _) ⟨hr, rfl⟩]

theorem thirdParty_applyToken :
    (o.applyToken w).thirdParty = if isParty w then some !w.isNegated else o.thirdParty := by
  rcases applyToken_cases o w with ⟨m, hm, he⟩ | ⟨hnone, he⟩
  · rw [he]
    split_ifs with hp
    · obtain rfl : m = .party !w.isNegated := hm.unique ⟨hp, rfl⟩
      rfl
    · cases m with
      | domains | important => rfl
      | party => exact absurd hm.1 hp
      | type _ wanted => cases wanted <;> rfl
  · rw [he, if_neg fun hp => hnone (.party _) ⟨hp, rfl⟩]

theorem important_applyToken :
    (o.applyToken w).important = true ↔ o.important = true ∨ w = "important".toList := by
  rcases applyToken_cases o w with ⟨m, hm, he⟩ | ⟨hnone, he⟩
  · rw [he]
    by_cases hi : w = "important".toList
    · obtain rfl : m = .important := hm.unique hi
      exact iff_of_true rfl (Or.inr hi)
    · rw [or_iff_left hi]
      cases m with
      | domains | party => rfl
      | important => exact absurd hm hi
      | type _ wanted => cases wanted <;> rfl
  · rw [he]
    exact (or_iff_left (hnone .important)).symm

theorem listed_snoc {ws : List Text} {e : Text} : Listed (ws ++ [w]) e ↔ Listed ws e ∨ Listed [w] e := by
  simp only [Listed, List.mem_append, or_and_right, exists_or]

theorem listed_singleton {e : Text} :
    Listed [w] e ↔ ∃ list, IsWritten (.domains list) w ∧ e ∈ Scope.entries (· == '|') list := by
  simp only [Listed, List.mem_singleton, IsWritten, eq_comm]

variable {o w}

theorem initiators_applyToken {P : Text → Prop} (h : o.initiators.Lists P) (hw : w.lower = w) :
    (o.applyToken w).initiators.Lists fun e => P e ∨ Listed [w] e := by
  rcases applyToken_cases o w with ⟨m, hm, he⟩ | ⟨hnone, he⟩
  · rw [he]
    by_cases hd : ∃ list, m = .domains list
    · obtain ⟨list, rfl⟩ := hd
      have hlower : list.lower = list := lower_of_lower_domains (hm ▸ hw)
      refine (h.foldl_add _).congr fun e => or_congr_right ?_
      rw [listed_singleton, hlower]
      refine ⟨fun he => ⟨list, hm, he⟩, ?_⟩
      rintro ⟨list', hlist, he⟩
      obtain rfl := Modifier.domains.inj (hm.unique hlist)
      exact he
    · have hnot (e : Text) : ¬ Listed [w] e := by
        rw [listed_singleton]
        rintro ⟨list, hlist, -⟩
        exact hd ⟨list, hm.unique hlist⟩
      have hsame : (o.apply m).initiators = o.initiators := by
        cases m with
        | domains list => exact absurd ⟨list, rfl⟩ hd
        | party | important => rfl
        | type _ wanted => cases wanted <;> rfl
      rw [hsame]
      exact h.congr fun e => (or_iff_left (hnot e)).symm
  · rw [he]
    refine h.congr fun e => (or_iff_left ?_).symm
    rw [listed_singleton]
    rintro ⟨list, hlist, -⟩
    exact hnone _ hlist

end

namespace SaidBy

theorem nil : SaidBy [] {} := by
  refine ⟨fun r => TypeSet.contains_empty r, fun r => TypeSet.contains_empty r, rfl, by simp, ?_⟩
  exact Scope.lists_empty.congr fun e => by simp [Listed]

/-- One more word. -/
theorem snoc {ws : List Text} {o : Options} (h : SaidBy ws o) {w : Text} (hw : w.lower = w) :
    SaidBy (ws ++ [w]) (o.applyToken w) := by
  refine ⟨fun r => ?_, fun r => ?_, ?_, ?_, ?_⟩
  · have hstep : (o.applyToken w).types.contains r = if namesType r w then (!w.isNegated) == true
        else o.types.contains r := contains_typeSide_applyToken o w r true
    rw [hstep, lastSuch_snoc, h.types r]
    split_ifs <;> simp
  · have hstep : (o.applyToken w).excludedTypes.contains r = if namesType r w then (!w.isNegated) == false
        else o.excludedTypes.contains r := contains_typeSide_applyToken o w r false
    rw [hstep, lastSuch_snoc, h.excludedTypes r]
    split_ifs <;> simp
  · rw [thirdParty_applyToken, lastSuch_snoc, h.thirdParty]
    split_ifs <;> rfl
  · rw [important_applyToken, h.important, List.mem_append, List.mem_singleton]
    exact or_congr_right eq_comm
  · exact (initiators_applyToken h.initiators hw).congr fun e => (listed_snoc w).symm

theorem foldl {ws : List Text} (hws : ∀ w ∈ ws, w.lower = w) : SaidBy ws (ws.foldl applyToken {}) := by
  induction ws using List.reverseRecOn with
  | nil => exact nil
  | append_singleton ws w ih =>
    rw [List.foldl_append]
    exact (ih fun v hv => hws v (by simp [hv])).snoc (hws w (by simp))

theorem disjoint {ws : List Text} {o : Options} (h : SaidBy ws o) (r : ResourceType) :
    ¬ (o.types.contains r = true ∧ o.excludedTypes.contains r = true) := by
  rw [h.types, h.excludedTypes]
  cases lastSuch (namesType r) ws <;> simp

end SaidBy

theorem saidBy_read (t : Text) : SaidBy (tokens t) (read t) := by
  rw [read_eq_foldl_tokens]
  exact SaidBy.foldl fun w hw => lower_of_mem_tokens hw

/-- The word says something: it lists domains, names a party or a type, or is `important`. -/
def saysSomething (w : Text) : Bool :=
  "domain=".toList.isPrefixOf w || isParty w || w == "important".toList ||
    ResourceType.all.any fun r => namesType r w

theorem saysSomething_iff {w : Text} : saysSomething w = true ↔ ∃ m, IsWritten m w := by
  have hall (r : ResourceType) : r ∈ ResourceType.all := by cases r <;> decide
  simp only [saysSomething, Bool.or_eq_true, List.any_eq_true, List.isPrefixOf_iff_prefix, beq_iff_eq]
  constructor
  · rintro (((⟨list, h⟩ | h) | h) | ⟨r, -, h⟩)
    · exact ⟨.domains list, h.symm⟩
    · exact ⟨.party _, h, rfl⟩
    · exact ⟨.important, h⟩
    · exact ⟨.type r _, h, rfl⟩
  · rintro ⟨m, h⟩
    cases m with
    | domains list => exact Or.inl (Or.inl (Or.inl ⟨list, h.symm⟩))
    | party third => exact Or.inl (Or.inl (Or.inr h.1))
    | important => exact Or.inl (Or.inr h)
    | type r wanted => exact Or.inr ⟨r, hall r, h.1⟩

theorem foldl_filter_saysSomething (ws : List Text) (o : Options) :
    (ws.filter saysSomething).foldl applyToken o = ws.foldl applyToken o := by
  rw [List.foldl_filter]
  apply List.foldl_ext
  intro o w _
  split_ifs with h
  · rfl
  · rcases applyToken_cases o w with ⟨m, hm, -⟩ | ⟨-, he⟩
    · exact absurd (saysSomething_iff.mpr ⟨m, hm⟩) h
    · exact he.symm

/-- Options say what the last words about each thing say, so no type is both wanted and excluded; and words that say
nothing have no effect. -/
theorem read_last_mention (t : Text) :
    SaidBy (tokens t) (read t) ∧
    (∀ r, ¬ ((read t).types.contains r = true ∧ (read t).excludedTypes.contains r = true)) ∧
    ∀ u, (tokens u).filter saysSomething = (tokens t).filter saysSomething → read u = read t := by
  refine ⟨saidBy_read t, (saidBy_read t).disjoint, fun u hu => ?_⟩
  rw [read_eq_foldl_tokens, read_eq_foldl_tokens, ← foldl_filter_saysSomething, hu, foldl_filter_saysSomething]

end Options

end Blocklist
