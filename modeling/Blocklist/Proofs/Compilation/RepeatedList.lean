import Blocklist.Proofs.Compilation.Balance

/-! A list that is given twice. Its rules come again, at the ranks they had, behind rules with their keys; so the first
pass of the reduction takes all of them away, and the rest of the compilation sees what it saw before. -/

namespace Blocklist

namespace Reduction

theorem higher_eq_left {a b : UInt32} (h : b ≤ a) : higher a b = a := by
  rw [UInt32.le_iff_toNat_le] at h
  exact if_neg (by omega)

/-- A rule whose key is there already, at no lower a rank, changes nothing. -/
theorem absorb_eq_self {ks : List Rule} {k r : Rule} (hn : (ks.map Rule.key).Nodup) (hk : k ∈ ks) (he : k.key = r.key)
    (hp : r.priority ≤ k.priority) : absorb ks r = ks := by
  induction ks with
  | nil => cases hk
  | cons j ks ih =>
    obtain ⟨hj, hks⟩ := List.nodup_cons.mp hn
    rcases List.mem_cons.mp hk with rfl | hk
    · rw [absorb, if_pos he, higher_eq_left hp]
    · have hne : j.key ≠ r.key := fun hjr => hj (hjr ▸ he ▸ List.mem_map_of_mem hk)
      rw [absorb, if_neg hne, ih hks hk]

/-- Every one of the rules has an equal one among `ks` that ranks at least as high. -/
def Outranked (ks rules : List Rule) : Prop := ∀ r ∈ rules, ∃ k ∈ ks, k.key = r.key ∧ r.priority ≤ k.priority

theorem foldl_absorb_of_outranked {ks rules : List Rule} (hn : (ks.map Rule.key).Nodup) (h : Outranked ks rules) :
    rules.foldl absorb ks = ks := by
  induction rules with
  | nil => rfl
  | cons r rules ih =>
    obtain ⟨k, hk, he, hp⟩ := h r (by simp)
    rw [List.foldl_cons, absorb_eq_self hn hk he hp]
    exact ih fun r' hr' => h r' (by simp [hr'])

theorem distinct_append_of_outranked {rules more : List Rule} (h : Outranked rules more) :
    distinct (rules ++ more) = distinct rules := by
  rw [distinct, List.foldl_append]
  apply foldl_absorb_of_outranked (distinct_condenses rules).nodup
  intro r hr
  obtain ⟨k, hk, he, hp⟩ := h r hr
  obtain ⟨d, hd, hdk, hdp⟩ := exists_distinct hk
  exact ⟨d, hd, hdk.trans he, UInt32.le_trans hp hdp⟩

/-- Such rules are counted by the first pass, and the other passes do not see them. -/
theorem ofRules_append_of_outranked [Regex.Library] (defaults : TypeSet) {rules more : List Rule} (h : Outranked rules more) :
    (ofRules defaults (rules ++ more)).rules = (ofRules defaults rules).rules ∧
    (ofRules defaults (rules ++ more)).merged = (ofRules defaults rules).merged ∧
    (ofRules defaults (rules ++ more)).covered = (ofRules defaults rules).covered := by
  unfold ofRules
  rw [distinct_append_of_outranked h]
  exact ⟨rfl, rfl, rfl⟩

end Reduction

namespace Compilation

section

variable [Regex.Library] (s : Settings) (lists : List FilterList) (l : FilterList)

theorem allRules_append_one :
    allRules s ((lists ++ [l]).map FilterList.read) = allRules s (lists.map FilterList.read) ++ l.read.rules := by
  simp [allRules]

theorem rules_append_one :
    (run s (lists ++ [l])).rules = (run s lists).rules ++ AllowList.strip s.allowed l.read.rules := by
  have h : AllowList.strip s.allowed (allRules s ((lists ++ [l]).map FilterList.read)) =
      AllowList.strip s.allowed (allRules s (lists.map FilterList.read)) ++ AllowList.strip s.allowed l.read.rules := by
    rw [allRules_append_one, AllowList.strip, List.filter_append]
    rfl
  exact h

/-- Every list counts its own rules. -/
theorem parsed_append_one :
    (run s (lists ++ [l])).ruleset.stats.parsed = (run s lists).ruleset.stats.parsed + l.read.parsed := by
  have hall := congrArg List.length (allRules_append_one s lists l)
  have hmore := parsed_add_domains s (lists ++ [l])
  have hless := parsed_add_domains s lists
  rw [List.length_append] at hall
  rw [ListReading.parsed]
  omega

end

section

variable [Regex.Library] {lists : List FilterList} {l l' : FilterList}

/-- What a text gives a second time is there already: where a rule stands has no part in its key, its rank, or whether an
allowed site contradicts it. -/
theorem outranked_of_text_eq (s : Settings) (hl : l ∈ lists) (ht : l'.text = l.text) :
    Reduction.Outranked (run s lists).rules (AllowList.strip s.allowed l'.read.rules) := by
  intro r hr
  obtain ⟨hr, hstays⟩ := List.mem_filter.mp hr
  have hseen : r.unplaced ∈ l.read.rules.map Rule.unplaced := by
    rw [FilterList.map_unplaced_rules, ← ht, ← FilterList.map_unplaced_rules]
    exact List.mem_map_of_mem hr
  obtain ⟨k, hk, hkr⟩ := List.mem_map.mp hseen
  refine ⟨k, List.mem_filter.mpr ⟨?_, ?_⟩, ?_, ?_⟩
  · exact List.mem_append_right _ (List.mem_flatMap.mpr ⟨l.read, List.mem_map_of_mem hl, hk⟩)
  · have hplace (q : Rule) : AllowList.contradicts (AllowList.domains s.allowed) q.unplaced =
        AllowList.contradicts (AllowList.domains s.allowed) q := rfl
    rw [← hplace, hkr, hplace]
    exact hstays
  · rw [← Rule.unplaced_key, hkr, Rule.unplaced_key]
  · rw [← Rule.unplaced_priority k, hkr, Rule.unplaced_priority]
    exact UInt32.le_refl _

/-- As many rules are distinct as before, so all the rules that came in are counted on the way there. -/
theorem stripped_add_deduplicated (s : Settings) (hl : l ∈ lists) (ht : l'.text = l.text) :
    (run s (lists ++ [l'])).ruleset.stats.stripped + (run s (lists ++ [l'])).ruleset.stats.deduplicated =
      (run s lists).ruleset.stats.stripped + (run s lists).ruleset.stats.deduplicated + l'.read.parsed := by
  have hunique : (run s (lists ++ [l'])).unique = (run s lists).unique := by
    rw [unique, rules_append_one]
    exact Reduction.distinct_append_of_outranked (outranked_of_text_eq s hl ht)
  have hall : (allRules s ((lists ++ [l']).map FilterList.read)).length =
      (allRules s (lists.map FilterList.read)).length + l'.read.parsed := by
    rw [allRules_append_one, List.length_append, ListReading.parsed]
  have hless := accounts_run s lists
  have hmore := accounts_run s (lists ++ [l'])
  have hstripped : _ = (allRules s (lists.map FilterList.read)).length := hless.stripped
  have hstripped' : _ = (allRules s ((lists ++ [l']).map FilterList.read)).length := hmore.stripped
  have hdeduplicated := hless.deduplicated
  have hdeduplicated' := hmore.deduplicated
  rw [hunique] at hdeduplicated'
  omega

/-- A list whose text is there already changes no output. Its rules are parsed, and all of them are stripped or counted
as repetitions. -/
theorem ruleset_append_repeated (s : Settings) (hl : l ∈ lists) (ht : l'.text = l.text) :
    let once := (run s lists).ruleset
    let twice := (run s (lists ++ [l'])).ruleset
    twice.batches = once.batches ∧ twice.cosmetic = once.cosmetic ∧ twice.fingerprint = once.fingerprint ∧
      twice.stats.merged = once.stats.merged ∧ twice.stats.redundant = once.stats.redundant ∧
      twice.stats.truncated = once.stats.truncated ∧ twice.stats.finalCount = once.stats.finalCount ∧
      twice.stats.parsed = once.stats.parsed + l'.read.parsed ∧
      twice.stats.stripped + twice.stats.deduplicated =
        once.stats.stripped + once.stats.deduplicated + l'.read.parsed := by
  intro once twice
  have houtranked := outranked_of_text_eq s hl ht
  obtain ⟨hrules, hmerged, hcovered⟩ := Reduction.ofRules_append_of_outranked s.defaultTypeSet houtranked
  rw [← rules_append_one] at hrules hmerged hcovered
  have hkept : (run s (lists ++ [l'])).kept = (run s lists).kept := congrArg (limit s) hrules
  have hbatches : twice.batches = once.batches := congrArg (Batch.ofRules s.defaultTypeSet s.batchSize) hkept
  have hcosmetic : twice.cosmetic = once.cosmetic := congrArg CosmeticBundle.ofRules hkept
  have hprint : twice.fingerprint = once.fingerprint :=
    congrArg₂ (fun b c => Digest.fingerprint (Digest.output b c)) hbatches hcosmetic
  have hfinal : twice.stats.finalCount = once.stats.finalCount :=
    congrArg₂ (fun b c => Batch.recordCount b + CosmeticBundle.size c) hbatches hcosmetic
  have htruncated : twice.stats.truncated = once.stats.truncated :=
    congrArg₂ (fun r k : List Rule => r.length - k.length) hrules hkept
  refine ⟨hbatches, hcosmetic, hprint, hmerged, congrArg List.length hcovered, htruncated, hfinal,
    parsed_append_one s lists l', stripped_add_deduplicated s hl ht⟩

end

def bannerText : Text := "||shop.com^\n/banner\n##.ad".toList

theorem ruleset_append_bannerText :
    let s : Settings := { allowed := ["shop.com".toList] }
    let once := (run s [⟨"a".toList, bannerText⟩]).ruleset
    let twice := (run s [⟨"a".toList, bannerText⟩, ⟨"b".toList, bannerText⟩]).ruleset
    once.stats.stripped = 1 ∧ twice.stats.stripped = 2 ∧ twice.batches = once.batches ∧
      twice.stats.deduplicated = once.stats.deduplicated + 2 := by
  intro s once twice
  have hparsed : (FilterList.mk "b".toList bannerText).read.parsed = 3 := by decide
  have honce : once.stats.stripped = 1 := by decide
  have htwice : twice.stats.stripped = 2 := by decide
  obtain ⟨hbatches, -, -, -, -, -, -, -, hcounts⟩ :=
    ruleset_append_repeated s (List.mem_singleton.mpr rfl)
      (show (FilterList.mk "b".toList bannerText).text = (FilterList.mk "a".toList bannerText).text from rfl)
  have hsum : twice.stats.stripped + twice.stats.deduplicated =
      once.stats.stripped + once.stats.deduplicated + _ := hcounts
  refine ⟨honce, htwice, hbatches, ?_⟩
  omega

end Compilation

end Blocklist
