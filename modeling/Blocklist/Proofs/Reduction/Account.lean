import Blocklist.Proofs.Reduction.Cover
import Blocklist.Proofs.Reduction.HostGroups
import Blocklist.Reduction

/-! A reduction loses nothing and invents nothing. Every given rule is stood for by a rule of the result that
ranks at least as high, and every rule of the result is a given one or a group of given ones. -/

namespace Blocklist.Reduction

open Wildcard

inductive StandsFor (defaults : TypeSet) (o r : Rule) : Prop
  /-- It is the same rule. -/
  | same (body : o.body = r.body)
  /-- It is about a group of hosts, that of `r` among them. -/
  | group {h : Text} {hs : List Text} {q : Options} (host : isHostname h = true)
    (given : r.body = .network (.hostAnchor h) q) (body : o.body = .network (.hostGroup hs) q) (mem : h ∈ hs)
  /-- It is a wildcard with at least the scope of `r`, found in every text for a cover of `r`. -/
  | cover {v : Text} {p : Pattern} {o' q : Options} {ts : List Text} (given : r.body = .network p q)
    (body : o.body = .network (.wildcard v) o') (scope : o'.subsumes q defaults = true)
    (texts : coverTexts? p = some ts) (found : ∀ t ∈ ts, '*' ∉ t ∧ Finds (Wildcard.regex v) t)

/-- `o` is about two or more hosts, and each of them has given rules with the action and the options of `o`, the
highest of which ranks as `o` does. -/
def GroupOf (rules : List Rule) (o : Rule) : Prop :=
  ∃ hs q, o.body = .network (.hostGroup hs) q ∧ 2 ≤ hs.length ∧
    ∀ h ∈ hs, IsPeak rules ⟨o.action, .network (.hostAnchor h) q⟩ o.priority

theorem mem_ranked_distinct {rules : List Rule} {r : Rule} : r ∈ ranked (distinct rules) ↔ r ∈ distinct rules :=
  (ranked_perm _).mem_iff

variable [Regex.Library]

theorem rules_splits (defaults : TypeSet) (rules : List Rule) :
    Splits defaults (grouped (ranked (distinct rules)))
      ⟨(ofRules defaults rules).rules, (ofRules defaults rules).covered⟩ :=
  clear_splits defaults _

theorem ofRules_of_ranked {rules : List Rule} (defaults : TypeSet) (h : Ranked (distinct rules)) :
    (ofRules defaults rules).rules = (clear defaults (grouped (distinct rules))).kept ∧
      (ofRules defaults rules).covered = (clear defaults (grouped (distinct rules))).covered := by
  simp only [ofRules, ranked_eq_self h, and_self]

/-- What the last pass leaves out has a cover of at least its priority. -/
theorem exists_cover {defaults : TypeSet} {rules : List Rule} {c : Rule} (hc : c ∈ (ofRules defaults rules).covered) :
    ∃ w ∈ (ofRules defaults rules).rules, covers defaults w c = true ∧ c.priority ≤ w.priority := by
  obtain ⟨w, hw, hcov, hsub⟩ := (rules_splits defaults rules).covered c hc
  have hr : Ranked [w, c] := List.Pairwise.sublist hsub (grouped_ranked (ranked_ranked _))
  exact ⟨w, hw, hcov, (List.pairwise_cons.mp hr).1 c (by simp)⟩

theorem standsFor_of_grouped {defaults : TypeSet} {rules : List Rule} {g r : Rule}
    (hg : g ∈ grouped (ranked (distinct rules))) (ha : g.action = r.action) (hp : r.priority ≤ g.priority)
    (hkept : StandsFor defaults g r) (hcover : ∀ w, covers defaults w g = true → StandsFor defaults w r) :
    ∃ o ∈ (ofRules defaults rules).rules, o.action = r.action ∧ r.priority ≤ o.priority ∧
      StandsFor defaults o r := by
  rcases (rules_splits defaults rules).mem g hg with hk | hc
  · exact ⟨g, hk, ha, hp, hkept⟩
  · obtain ⟨w, hw, hcov, hle⟩ := exists_cover hc
    obtain ⟨-, -, -, -, -, -, -, hwa, -⟩ := covers_iff.mp hcov
    exact ⟨w, hw, hwa.trans ha, UInt32.le_trans hp hle, hcover w hcov⟩

/-- No loss: the result has a rule that stands for each given one. -/
theorem exists_standsFor (defaults : TypeSet) {rules : List Rule} {r : Rule} (hr : r ∈ rules) :
    ∃ o ∈ (ofRules defaults rules).rules, o.action = r.action ∧ r.priority ≤ o.priority ∧
      StandsFor defaults o r := by
  obtain ⟨d, hd, hk, hp⟩ := exists_distinct hr
  simp only [Rule.key, Rule.Key.mk.injEq] at hk
  rcases exists_grouped (mem_ranked_distinct.mpr hd) with ⟨g, hg, hgk, hgp⟩ | ⟨h, k, hm, g, hg, hgrp⟩
  · simp only [Rule.key, Rule.Key.mk.injEq] at hgk
    have hb : g.body = r.body := hgk.2.trans hk.2
    refine standsFor_of_grouped hg (hgk.1.trans hk.1) (hgp ▸ hp) (.same hb) fun w hw => ?_
    obtain ⟨v, o, p, q, ts, hwb, hgb, -, hs, -, ht, hf⟩ := covers_iff.mp hw
    exact .cover (hb ▸ hgb) hwb hs ht hf
  · obtain ⟨hh, hdb, hda, hdp⟩ := member?_eq_some.mp hm
    have hrb : r.body = .network (.hostAnchor h) k.options := hk.2 ▸ hdb
    have hmem : h ∈ groupHosts (ranked (distinct rules)) k :=
      mem_groupHosts.mpr ⟨d, mem_ranked_distinct.mpr hd, hm⟩
    refine standsFor_of_grouped hg (hgrp.action.trans (hda.symm.trans hk.1)) ?_ (.group hh hrb hgrp.body hmem)
      fun w hw => ?_
    · rw [hgrp.priority, ← hdp]
      exact hp
    · -- the cover is found in the texts of all hosts of the group, that of `h` among them
      obtain ⟨v, o, p, q, ts, hwb, hgb, -, hs, -, ht, hf⟩ := covers_iff.mp hw
      obtain ⟨rfl, rfl⟩ := Body.network.inj (hgrp.body.symm.trans hgb)
      obtain rfl := Option.some.inj ht
      refine .cover hrb hwb hs rfl fun t htm => ?_
      rw [List.mem_singleton.mp htm]
      exact hf _ (List.mem_map_of_mem hmem)

/-- No invention: a rule of the result is a given one, as high as any equal to it, or a group of given ones. -/
theorem peak_or_groupOf {defaults : TypeSet} {rules : List Rule} {o : Rule}
    (ho : o ∈ (ofRules defaults rules).rules) : IsPeak rules o.key o.priority ∨ GroupOf rules o := by
  have hpeak := (distinct_condenses rules).peak
  rcases grouped_origin ((rules_splits defaults rules).kept o ho) with hd | ⟨k, hg⟩
  · exact Or.inl (hpeak o (mem_ranked_distinct.mp hd))
  · refine Or.inr ⟨_, _, hg.body, hg.many, fun h hh => ?_⟩
    obtain ⟨r, hr, hm⟩ := mem_groupHosts.mp hh
    obtain ⟨-, hrb, hra, hrp⟩ := member?_eq_some.mp hm
    have := hpeak r (mem_ranked_distinct.mp hr)
    rwa [Rule.key, hrb, hra, hrp, ← hg.action, ← hg.priority] at this

theorem ofRules_account (defaults : TypeSet) (rules : List Rule) :
    (∀ r ∈ rules, ∃ o ∈ (ofRules defaults rules).rules, o.action = r.action ∧ r.priority ≤ o.priority ∧
      StandsFor defaults o r) ∧
    ∀ o ∈ (ofRules defaults rules).rules, IsPeak rules o.key o.priority ∨ GroupOf rules o :=
  ⟨fun _ hr => exists_standsFor defaults hr, fun _ ho => peak_or_groupOf ho⟩

end Blocklist.Reduction
