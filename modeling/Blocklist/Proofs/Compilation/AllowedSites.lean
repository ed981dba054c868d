import Blocklist.Proofs.AllowList.Strip
import Blocklist.Proofs.Emission
import Blocklist.Proofs.Reading
import Blocklist.Proofs.Reduction.Account

/-! Allowed sites are never blocked by name. A host gets into a record from the rule that named it, alone or as one
of a group, and no block rule that names an allowed site or one below it is left when the rules are reduced. -/

namespace Blocklist

namespace Pattern

def namedHosts (p : Pattern) : List Text :=
  match p.condition with
  | .requestDomains hs => hs
  | _ => []

theorem mem_namedHosts {p : Pattern} {h : Text} :
    h ∈ p.namedHosts ↔ p.host? = some h ∨ ∃ hs, p = .hostGroup hs ∧ h ∈ hs := by
  cases p with
  | hostAnchor t | hostStart t =>
    by_cases ht : isHostname t = true <;> simp [namedHosts, condition, host?, ht, eq_comm]
  | hostGroup hs => simp [namedHosts, condition, host?]
  | startAnchor t | endAnchor t | wildcard t | regex t | substring t => simp [namedHosts, condition, host?]

end Pattern

namespace Rule

def namedHosts (r : Rule) : List Text :=
  match r.body with
  | .network p _ => p.namedHosts
  | _ => []

theorem namedHosts_network {r : Rule} {p : Pattern} {o : Options} (hb : r.body = .network p o) :
    r.namedHosts = p.namedHosts := by
  rw [namedHosts, hb]

/-- A rule that is not about a group names the host of its pattern. -/
theorem host?_of_mem_namedHosts {r : Rule} {h : Text} (hg : ∀ hs o, r.body ≠ .network (.hostGroup hs) o)
    (hh : h ∈ r.namedHosts) : r.host? = some h := by
  unfold namedHosts at hh
  split at hh
  · rename_i p o hb
    rcases Pattern.mem_namedHosts.mp hh with hp | ⟨hs, rfl, -⟩
    · rw [host?, hb]
      exact hp
    · exact absurd hb (hg hs o)
  · cases hh

end Rule

theorem Record.requestDomains_of_ofRule? {defaults : TypeSet} {id : UInt32} {r : Rule} {x : Record} {hs : List Text}
    (h : ofRule? defaults id r = some x) (hd : x.condition.requestDomains = some hs) : r.namedHosts = hs := by
  obtain ⟨p, o, a, hb, -, -, rfl⟩ := ofRule?_eq_some.mp h
  rw [Rule.namedHosts_network hb, Pattern.namedHosts]
  simp only [Condition.ofNetwork] at hd
  cases hc : p.condition <;> simp_all [Condition.ofMatch]

namespace Reduction

/-- A host that a rule of the result names is named by a given rule with the same action. -/
theorem exists_namedHosts [Regex.Library] {defaults : TypeSet} {rules : List Rule} {o : Rule} {h : Text}
    (ho : o ∈ (ofRules defaults rules).rules) (hh : h ∈ o.namedHosts) :
    ∃ r ∈ rules, r.action = o.action ∧ h ∈ r.namedHosts := by
  have hpeak := (distinct_condenses rules).peak
  rcases grouped_origin ((rules_splits defaults rules).kept o ho) with hd | ⟨k, hg⟩
  · obtain ⟨r, hr, hk, -⟩ := (hpeak o (mem_ranked_distinct.mp hd)).attained
    obtain ⟨ha, hb⟩ := Rule.Key.mk.inj hk
    refine ⟨r, hr, ha, ?_⟩
    rwa [Rule.namedHosts, hb]
  · rw [Rule.namedHosts_network hg.body] at hh
    obtain ⟨m, hm, hmem⟩ := mem_groupHosts.mp hh
    obtain ⟨hhost, hmb, hma, -⟩ := member?_eq_some.mp hmem
    obtain ⟨r, hr, hk, -⟩ := (hpeak m (mem_ranked_distinct.mp hm)).attained
    obtain ⟨ha, hb⟩ := Rule.Key.mk.inj hk
    refine ⟨r, hr, by rw [ha, hma, hg.action], ?_⟩
    rw [Rule.namedHosts_network (hb.trans hmb), Pattern.mem_namedHosts]
    exact Or.inl (by simp [Pattern.host?, hhost])

end Reduction

namespace Compilation

theorem not_coversHost_of_mem_strip [Regex.Library] {s : Settings} {lists : List FilterList} {r : Rule} {h : Text}
    (hr : r ∈ (run s lists).rules) (ha : r.action = .block) (hh : h ∈ r.namedHosts) :
    ¬ AllowList.coversHost (AllowList.domains s.allowed) h = true := by
  obtain ⟨hall, hkeep⟩ := List.mem_filter.mp hr
  have hhost := Rule.host?_of_mem_namedHosts (ungrouped_allRules s lists r hall) hh
  simpa [AllowList.contradicts, ha, hhost] using hkeep

/-- No host in a block record is an allowed site or lies below one. -/
theorem requestDomains_not_allowed [Regex.Library] (s : Settings) (lists : List FilterList) {x : Record} {hs : List Text} {h e d : Text}
    (hx : x ∈ (run s lists).ruleset.records) (ha : x.action = .block) (hd : x.condition.requestDomains = some hs)
    (hh : h ∈ hs) (he : e ∈ s.allowed) (hn : normalizeDomain? e = some d) : h ≠ d ∧ ¬ '.' :: d <:+ h := by
  obtain ⟨o, ho, hox⟩ := exists_rule_of_mem_records hx
  have hoh : h ∈ o.namedHosts := by
    rw [Record.requestDomains_of_ofRule? hox hd]
    exact hh
  obtain ⟨r, hr, hra, hrh⟩ := Reduction.exists_namedHosts ho hoh
  have hblock : r.action = .block := by
    have hact := Record.toRecord?_of_ofRule? hox
    rw [ha, Action.toRecord?_eq_block] at hact
    rw [hra, hact]
  have hfree := not_coversHost_of_mem_strip hr hblock hrh
  have hdom : d ∈ AllowList.domains s.allowed := List.mem_filterMap.mpr ⟨e, he, hn⟩
  rw [AllowList.coversHost_iff] at hfree
  exact ⟨fun heq => hfree ⟨d, hdom, Or.inl heq⟩, fun hsuf => hfree ⟨d, hdom, Or.inr hsuf⟩⟩

def shopSettings : Settings := { allowed := ["Shop.com.".toList] }

/-- The site, one below it, and two hosts that only look like it. -/
def shopList : FilterList := ⟨[], "||shop.com^\n||CDN.shop.com\n||shop.com.ads.org^\n||myshop.com^".toList⟩

theorem requestDomains_shopList :
    ∃ x ∈ (run shopSettings [shopList]).ruleset.records, x.action = .block ∧
      x.condition.requestDomains = some ["shop.com.ads.org".toList, "myshop.com".toList] ∧
      normalizeDomain? "Shop.com.".toList = some "shop.com".toList ∧
      "myshop.com".toList ≠ "shop.com".toList ∧ ¬ '.' :: "shop.com".toList <:+ "myshop.com".toList := by
  have hn : normalizeDomain? "Shop.com.".toList = some "shop.com".toList := by decide
  have hrules : (run shopSettings [shopList]).kept =
      [AllowList.exception shopSettings.allowedTypeSet "shop.com".toList 1,
       ⟨.block, .network (.hostGroup ["shop.com.ads.org".toList, "myshop.com".toList]) {}, 1, [], 3⟩] := by
    refine (Reduction.ofRules_of_ranked _ ?_).1.trans ?_ <;> decide
  have hx : ⟨2, 1, .block, Condition.ofNetwork (.hostGroup ["shop.com.ads.org".toList, "myshop.com".toList]) {}
      shopSettings.defaultTypeSet⟩ ∈ (run shopSettings [shopList]).ruleset.records := by
    rw [records_run, hrules]
    decide
  exact ⟨_, hx, rfl, rfl, hn,
    requestDomains_not_allowed shopSettings [shopList] hx rfl rfl (by decide) (List.mem_singleton_self _) hn⟩

end Compilation

end Blocklist
